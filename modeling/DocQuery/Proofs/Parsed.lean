import DocQuery.Proofs.Spelling
import DocQuery.Proofs.Outcome
import DocQuery.Query.Source

/-! # The trees that the grammar builds

`Parsed e` says which trees can come out of reading a text: names are names, connectives have at
least two operands, comprehensions at least one clause, spread arguments stand in calls and slices in
subscripts only, integers are below `2 ^ 63`.

* `Expr.parts`, `Expr.Inside`: the parts of a tree, at every depth.
* `parsed_of_parse`, `parsed_of_expr`: every tree that is read from a text is `Parsed`.
-/

set_option autoImplicit false

namespace DocQuery

open DocQuery.Parser Token

/-! ## Parts -/

/-- The expressions directly inside an expression, the defaults of parameters included. -/
def Expr.parts : Expr → List Expr
  | lambda params _ _ body => params.filterMap (·.default) ++ [body]
  | literal _ => []
  | name _ => []
  | attr value _ => [value]
  | binary left _ right => [left, right]
  | unary _ operand => [operand]
  | compare left _ operands => left :: operands
  | boolean _ operands => operands
  | conditional test body otherwise => [test, body, otherwise]
  | call callee args keywords => callee :: (args ++ keywords.map (·.value))
  | starred value => [value]
  | subscript value index => [value, index]
  | slice lower upper step => lower.toList ++ upper.toList ++ step.toList
  | list items => items
  | tuple items => items
  | listComp element clauses => element :: clauses.flatMap fun c => c.source :: c.conditions
  | generator element clauses => element :: clauses.flatMap fun c => c.source :: c.conditions
  | display _ => []

/-- `x.Inside e`: the expression `x` is `e` or occurs in it at some depth. -/
inductive Expr.Inside (x : Expr) : Expr → Prop
  | self : Inside x x
  | part {e p : Expr} (hp : p ∈ e.parts) (h : Inside x p) : Inside x e

/-- A list that holds an expression, and the parts of whatever it holds, holds all that is inside. -/
theorem Expr.Inside.mem_of_closed {x e : Expr} {es : List Expr} (h : x.Inside e) (he : e ∈ es)
    (closed : ∀ y ∈ es, ∀ p ∈ y.parts, p ∈ es) : x ∈ es := by
  induction h with
  | self => exact he
  | part hp _ ih => exact ih (closed _ he _ hp)

/-! ## Trees of the grammar -/

/-- The trees that are read from texts. -/
inductive Parsed : Expr → Prop
  | lambda (params : List (Param Expr)) (rest named : Option String)
      (names : ∀ p ∈ params, IsName p.name) (restName : ∀ id ∈ rest, IsName id)
      (namedName : ∀ id ∈ named, IsName id) (defaults : ∀ p ∈ params, ∀ e ∈ p.default, Parsed e)
      {body : Expr} (hbody : Parsed body) : Parsed (.lambda params rest named body)
  | none : Parsed (.literal .none)
  | bool (b : Bool) : Parsed (.literal (.bool b))
  | int (n : Nat) (h : n < Width.signed64) : Parsed (.literal (.int n))
  | float (digits : Nat) (exponent : Int) :
      Parsed (.literal (.float (Decimal.ofDecimal digits exponent)))
  | str (s : String) : Parsed (.literal (.str s))
  | name {id : String} (h : IsName id) : Parsed (.name id)
  | attr {value : Expr} {label : String} (h : Parsed value) (hlabel : IsName label) :
      Parsed (.attr value label)
  | binary {left right : Expr} (op : BinaryOp) (hleft : Parsed left) (hright : Parsed right) :
      Parsed (.binary left op right)
  | unary {e : Expr} (op : UnaryOp) (h : Parsed e) : Parsed (.unary op e)
  | compare {left : Expr} (hleft : Parsed left) (links : List (CmpOp × Expr)) (some : links ≠ [])
      (operands : ∀ l ∈ links, Parsed l.2) :
      Parsed (.compare left (links.map (·.1)) (links.map (·.2)))
  | boolean (op : BoolOp) (first second : Expr) (others : List Expr)
      (operands : ∀ e ∈ first :: second :: others, Parsed e) :
      Parsed (.boolean op (first :: second :: others))
  | conditional {test body otherwise : Expr} (htest : Parsed test) (hbody : Parsed body)
      (hotherwise : Parsed otherwise) : Parsed (.conditional test body otherwise)
  | call {callee : Expr} (h : Parsed callee) (args : List (Positional Expr))
      (keywords : List (Keyword Expr)) (labels : ∀ k ∈ keywords, ∀ id ∈ k.label, IsName id)
      (hargs : ∀ a ∈ args, Parsed a.value) (hkeywords : ∀ k ∈ keywords, Parsed k.value) :
      Parsed (.call callee (args.map (·.expr)) keywords)
  /-- An index that is a tuple with items is one of several indices. -/
  | subscript {value : Expr} (h : Parsed value) (i : Index Expr)
      (single : ∀ items, i.expr = .tuple items → items = []) (parts : ∀ e ∈ i.parts, Parsed e) :
      Parsed (.subscript value i.expr)
  | subscripts {value : Expr} (h : Parsed value) (indices : List (Index Expr)) (some : indices ≠ [])
      (parts : ∀ i ∈ indices, ∀ e ∈ i.parts, Parsed e) :
      Parsed (.subscript value (.tuple (indices.map (·.expr))))
  | list (items : List Expr) (h : ∀ e ∈ items, Parsed e) : Parsed (.list items)
  | tuple (items : List Expr) (h : ∀ e ∈ items, Parsed e) : Parsed (.tuple items)
  | listComp {element : Expr} (h : Parsed element) (clauses : List (Clause Expr))
      (some : clauses ≠ []) (targets : ∀ c ∈ clauses, IsName c.target)
      (sources : ∀ c ∈ clauses, Parsed c.source)
      (conditions : ∀ c ∈ clauses, ∀ e ∈ c.conditions, Parsed e) :
      Parsed (.listComp element clauses)
  | generator {element : Expr} (h : Parsed element) (clauses : List (Clause Expr))
      (some : clauses ≠ []) (targets : ∀ c ∈ clauses, IsName c.target)
      (sources : ∀ c ∈ clauses, Parsed c.source)
      (conditions : ∀ c ∈ clauses, ∀ e ∈ c.conditions, Parsed e) :
      Parsed (.generator element clauses)
  | display {kind : String} (h : kind ∈ ["dict", "set"]) : Parsed (.display kind)

/-! ## Tokens -/

theorem ensures_satisfy (class' : Char → Bool) :
    Ensures (satisfy class') fun c => class' c = true := by
  intro s c r h
  rw [satisfy.eq_def] at h
  split at h
  · split at h
    · cases h
      assumption
    · cases h
  · cases h

theorem ensures_takeWhile (class' : Char → Bool) :
    Ensures (takeWhile class') fun cs => ∀ c ∈ cs, class' c = true := by
  intro s cs r h c hc
  cases h
  exact List.all_eq_true.1 List.all_takeWhile c hc

theorem ensures_identifier : Ensures identifier fun id => IsIdentifier id.toList := by
  refine (Ensures.trivial gap).bind fun _ _ => (ensures_satisfy isIdentStart).bind fun c hc =>
    (ensures_takeWhile isIdentChar).bind fun cs hcs => ensures_pure ?_
  exact ⟨c, cs, by simp, hc, hcs⟩

theorem ensures_name : Ensures name IsName := by
  refine ensures_identifier.refine fun id _ id' hid hcheck => ?_
  split at hcheck
  · cases hcheck
  · rename_i hreserved
    cases hcheck
    exact ⟨hid, by simpa using hreserved⟩

theorem parsed_of_literal? {n : Numeral} {l : Literal} (h : n.literal? = some l) :
    Parsed (.literal l) := by
  rw [Numeral.literal?.eq_def] at h
  split at h
  · dsimp only at h
    split at h
    · cases h
      exact .int _ ‹_›
    · cases h
  · cases h
    exact .float _ _

theorem ensures_number : Ensures number fun l => Parsed (.literal l) := by
  refine (Ensures.trivial numeral).refine fun n r l _ hcheck => ?_
  split at hcheck
  · split at hcheck
    · cases hcheck
    · exact parsed_of_literal? hcheck
  · exact parsed_of_literal? hcheck

/-! ## Rules of the grammar -/

namespace Grammar

/-- The inner parsers build such trees only. -/
structure Sound (g : Grammar) : Prop where
  expression : Ensures g.expression Parsed
  orTest : Ensures g.orTest Parsed
  notTest : Ensures g.notTest Parsed
  factor : Ensures g.factor Parsed

variable {g : Grammar}

theorem ensures_symbol {α : Type} {w : String} {others : List Char} {p : Parser α} {P : α → Prop}
    (h : Ensures p P) : Ensures (do operator w others; p) P :=
  (Ensures.trivial _).bind fun _ _ => h

theorem ensures_keyword {α : Type} {w : String} {p : Parser α} {P : α → Prop}
    (h : Ensures p P) : Ensures (do keyword w; p) P :=
  (Ensures.trivial _).bind fun _ _ => h

/-- What the clauses of a comprehension are made of. -/
structure ClauseParsed (c : Clause Expr) : Prop where
  target : IsName c.target
  source : Parsed c.source
  conditions : ∀ e ∈ c.conditions, Parsed e

theorem ensures_clauses (hg : g.Sound) :
    Ensures g.clauses fun cs => cs ≠ [] ∧ ∀ c ∈ cs, ClauseParsed c := by
  refine Ensures.many1 (ensures_keyword ?_)
  refine ensures_name.bind fun target htarget => ensures_keyword ?_
  refine hg.orTest.bind fun source hsource => ?_
  refine (Ensures.many (ensures_keyword hg.orTest)).bind fun conditions hconditions => ?_
  exact ensures_pure ⟨htarget, hsource, hconditions⟩

theorem parsed_generator {e : Expr} {cs : List (Clause Expr)} (h : Parsed e)
    (hcs : cs ≠ [] ∧ ∀ c ∈ cs, ClauseParsed c) : Parsed (.generator e cs) :=
  .generator h cs hcs.1 (fun c hc => (hcs.2 c hc).target) (fun c hc => (hcs.2 c hc).source)
    fun c hc => (hcs.2 c hc).conditions

theorem parsed_listComp {e : Expr} {cs : List (Clause Expr)} (h : Parsed e)
    (hcs : cs ≠ [] ∧ ∀ c ∈ cs, ClauseParsed c) : Parsed (.listComp e cs) :=
  .listComp h cs hcs.1 (fun c hc => (hcs.2 c hc).target) (fun c hc => (hcs.2 c hc).source)
    fun c hc => (hcs.2 c hc).conditions

theorem ensures_commaTail (hg : g.Sound) : Ensures g.commaTail fun es => ∀ e ∈ es, Parsed e :=
  Ensures.many (ensures_symbol hg.expression)

theorem ensures_paren (hg : g.Sound) : Ensures g.paren Parsed := by
  refine ensures_symbol (Ensures.orElse (ensures_symbol (ensures_pure (.tuple [] nofun))) ?_)
  refine hg.expression.bind fun first hfirst s e r h => ?_
  rw [parenTail] at h
  split at h
  · rename_i cs rest hclauses
    have hcs := ensures_clauses hg hclauses
    exact ensures_symbol (ensures_pure (parsed_generator hfirst hcs)) h
  · refine (ensures_commaTail hg).bind (fun others hothers => ?_) h
    refine (Ensures.trivial _).bind fun comma _ => ensures_symbol (ensures_pure ?_)
    split
    · exact hfirst
    · exact .tuple _ (by simpa [hfirst] using hothers)

theorem ensures_bracket (hg : g.Sound) : Ensures g.bracket Parsed := by
  refine ensures_symbol (Ensures.orElse (ensures_symbol (ensures_pure (.list [] nofun))) ?_)
  refine hg.expression.bind fun first hfirst s e r h => ?_
  rw [bracketTail] at h
  split at h
  · rename_i cs rest hclauses
    have hcs := ensures_clauses hg hclauses
    exact ensures_symbol (ensures_pure (parsed_listComp hfirst hcs)) h
  · refine (ensures_commaTail hg).bind (fun others hothers => ?_) h
    refine (Ensures.trivial _).bind fun _ _ => ensures_symbol (ensures_pure ?_)
    exact .list _ (by simpa [hfirst] using hothers)

theorem ensures_brace : Ensures g.brace Parsed := by
  refine ensures_symbol ((Ensures.trivial _).bind fun entries _ => ?_)
  refine (Ensures.trivial _).bind fun _ _ => ensures_symbol (ensures_pure ?_)
  split
  · exact .display (by decide)
  · exact .display (by decide)

theorem ensures_atom (hg : g.Sound) : Ensures g.atom Parsed :=
  (ensures_paren hg).orElse <| (ensures_bracket hg).orElse <| ensures_brace.orElse <|
    ((Ensures.trivial _).bind fun s _ => ensures_pure (.str s)).orElse <|
    (ensures_number.bind fun _ h => ensures_pure h).orElse <|
    (ensures_keyword (ensures_pure .none)).orElse <|
    (ensures_keyword (ensures_pure (.bool true))).orElse <|
    (ensures_keyword (ensures_pure (.bool false))).orElse <|
    ensures_name.bind fun _ h => ensures_pure (.name h)

/-! ### Trailers -/

/-- What an argument is made of. -/
def ArgumentParsed : Argument → Prop
  | .positional e => ∃ a : Positional Expr, a.expr = e ∧ Parsed a.value
  | .keyword k => (∀ id ∈ k.label, IsName id) ∧ Parsed k.value

theorem ensures_argument (hg : g.Sound) : Ensures g.argument ArgumentParsed := by
  refine Ensures.orElse (ensures_symbol ?_) (Ensures.orElse (ensures_symbol ?_)
    (Ensures.orElse ?_ ?_))
  · exact hg.expression.bind fun e he => ensures_pure ⟨nofun, he⟩
  · exact hg.expression.bind fun e he => ensures_pure ⟨⟨true, e⟩, rfl, he⟩
  · refine ensures_name.bind fun label hlabel => ensures_symbol ?_
    refine hg.expression.bind fun e he => ensures_pure ⟨?_, he⟩
    intro id hid
    cases hid
    exact hlabel
  · refine hg.expression.bind fun e he => (ensures_clauses hg).opt.bind fun cs hcs => ?_
    refine ensures_pure ⟨⟨false, _⟩, rfl, ?_⟩
    cases cs with
    | none => exact he
    | some cs => exact parsed_generator he (hcs cs rfl)

/-- What an index is made of. -/
def ItemParsed (e : Expr) : Prop := ∃ i : Index Expr, i.expr = e ∧ ∀ p ∈ i.parts, Parsed p

theorem ensures_sliceItem (hg : g.Sound) : Ensures g.sliceItem ItemParsed := by
  refine hg.expression.opt.bind fun lower hlower => (Ensures.trivial _).bind fun colon _ => ?_
  have hslice : ∀ lower : Option Expr, (∀ e ∈ lower, Parsed e) → Ensures (do
      let upper ← opt g.expression
      let step ← opt (do symbol ":"; opt g.expression)
      return Expr.slice lower upper step.join) ItemParsed := by
    intro lower hlower
    refine hg.expression.opt.bind fun upper hupper => ?_
    refine (Ensures.opt (ensures_symbol hg.expression.opt)).bind fun step hstep => ensures_pure ?_
    refine ⟨.slice lower upper step.join, rfl, fun p hp => ?_⟩
    simp only [Index.parts, List.mem_append, Option.mem_toList] at hp
    rcases hp with (hp | hp) | hp
    · exact hlower p hp
    · exact hupper p hp
    · cases step with
      | none => cases hp
      | some step => exact hstep step rfl p hp
  cases lower with
  | none =>
    cases colon with
    | none => exact ensures_fail
    | some _ => exact hslice _ hlower
  | some e =>
    cases colon with
    | none =>
      refine ensures_pure ⟨.single e, rfl, fun p hp => ?_⟩
      cases List.mem_singleton.1 hp
      exact hlower e rfl
    | some _ => exact hslice _ hlower

theorem exists_map_of_forall {α β : Type} {f : α → β} {P : α → Prop} {bs : List β}
    (h : ∀ b ∈ bs, ∃ a, f a = b ∧ P a) : ∃ as : List α, as.map f = bs ∧ ∀ a ∈ as, P a := by
  induction bs with
  | nil => exact ⟨[], rfl, nofun⟩
  | cons b bs ih =>
    obtain ⟨a, rfl, ha⟩ := h b List.mem_cons_self
    obtain ⟨as, rfl, has⟩ := ih fun c hc => h c (List.mem_cons_of_mem _ hc)
    exact ⟨a :: as, rfl, by simpa [ha] using has⟩

/-- What a trailer makes of a tree. -/
def TrailerParsed (t : Trailer) : Prop := ∀ e, Parsed e → Parsed (t.apply e)

theorem parsed_subscript_item {e item : Expr} (he : Parsed e) (h : ItemParsed item) :
    Parsed (.subscript e item) := by
  obtain ⟨i, rfl, hparts⟩ := h
  by_cases hitems : ∃ first others, i.expr = .tuple (first :: others)
  · obtain ⟨first, others, hitems⟩ := hitems
    cases i with
    | slice => cases hitems
    | single e' =>
      cases hitems
      have htuple := hparts _ List.mem_cons_self
      cases htuple with
      | tuple _ h =>
        have hindices := Parsed.subscripts he ((first :: others).map .single) (by simp) (by
          simpa [Index.parts] using h)
        simpa [Index.expr, Function.comp_def] using hindices
  · refine .subscript he i (fun items hi => ?_) hparts
    cases items with
    | nil => rfl
    | cons first others => exact absurd ⟨first, others, hi⟩ hitems

theorem ensures_trailer (hg : g.Sound) : Ensures g.trailer TrailerParsed := by
  refine Ensures.orElse (ensures_symbol ?_) (Ensures.orElse ?_ ?_)
  · exact ensures_name.bind fun label hlabel => ensures_pure fun e he => .attr he hlabel
  · have harguments : Ensures g.arguments fun args => ∀ a ∈ args, ArgumentParsed a :=
      ensures_symbol (((ensures_argument hg).sepBy _).bind fun args hargs =>
        (Ensures.trivial _).bind fun _ _ => ensures_symbol (ensures_pure hargs))
    refine harguments.bind fun args hargs => ensures_pure fun e he => ?_
    obtain ⟨positionals, hpositionals, hvalues⟩ : ∃ as : List (Positional Expr),
        as.map (·.expr) = Argument.positionals args ∧ ∀ a ∈ as, Parsed a.value := by
      refine exists_map_of_forall fun b hb => ?_
      obtain ⟨a, ha, hab⟩ := List.mem_filterMap.1 hb
      cases a with
      | positional e' =>
        cases hab
        exact hargs _ ha
      | keyword k => cases hab
    have hkeywords : ∀ k ∈ Argument.keywords args, ArgumentParsed (.keyword k) := by
      intro k hk
      obtain ⟨a, ha, hab⟩ := List.mem_filterMap.1 hk
      cases a with
      | positional e' => cases hab
      | keyword k' =>
        cases hab
        exact hargs _ ha
    rw [Trailer.apply, ← hpositionals]
    exact .call he positionals _ (fun k hk => (hkeywords k hk).1) hvalues
      fun k hk => (hkeywords k hk).2
  · have hsubscript : Ensures g.subscript fun i => ∀ e, Parsed e → Parsed (.subscript e i) := by
      refine ensures_symbol (((ensures_sliceItem hg).sepBy1 _).bind fun items hitems => ?_)
      refine (Ensures.trivial _).bind fun comma _ => ensures_symbol (ensures_pure fun e he => ?_)
      split
      · exact parsed_subscript_item he (hitems.2 _ List.mem_cons_self)
      · obtain ⟨indices, hindices, hparts⟩ := exists_map_of_forall hitems.2
        rw [← hindices]
        refine .subscripts he indices (fun hnil => hitems.1 ?_) hparts
        rw [← hindices, hnil]
        rfl
    exact hsubscript.bind fun i hi => ensures_pure hi

theorem parsed_foldl_trailers {ts : List Trailer} (hts : ∀ t ∈ ts, TrailerParsed t) {e : Expr}
    (he : Parsed e) : Parsed (ts.foldl Trailer.apply e) := by
  induction ts generalizing e with
  | nil => exact he
  | cons t ts ih =>
    exact ih (fun t' ht' => hts t' (List.mem_cons_of_mem t ht')) (hts t List.mem_cons_self e he)

theorem ensures_primary (hg : g.Sound) : Ensures g.primary Parsed :=
  (ensures_atom hg).bind fun _ he => (ensures_trailer hg).many.bind fun _ hts =>
    ensures_pure (parsed_foldl_trailers hts he)

/-! ### Operators -/

theorem ensures_signed (hg : g.Sound) : Ensures g.signed Parsed := by
  have hpower : Ensures g.power Parsed := by
    refine (ensures_primary hg).bind fun base hbase => ?_
    refine (Ensures.opt (ensures_symbol hg.factor)).bind fun exponent hexponent => ensures_pure ?_
    cases exponent with
    | none => exact hbase
    | some e => exact .binary .pow hbase (hexponent e rfl)
  refine Ensures.orElse ?_ hpower
  exact (Ensures.trivial sign).bind fun op _ => hg.factor.bind fun e he => ensures_pure (.unary op he)

theorem parsed_foldl_links {links : List (BinaryOp × Expr)} (hlinks : ∀ l ∈ links, Parsed l.2)
    {e : Expr} (he : Parsed e) :
    Parsed (links.foldl (fun left (o, right) => .binary left o right) e) := by
  induction links generalizing e with
  | nil => exact he
  | cons l links ih =>
    exact ih (fun l' hl' => hlinks l' (List.mem_cons_of_mem l hl'))
      (.binary l.1 he (hlinks l List.mem_cons_self))

theorem ensures_links {α : Type} {operand : Parser Expr} (op : Parser α)
    (h : Ensures operand Parsed) :
    Ensures (many (do let o ← op; let e ← operand; return (o, e))) fun links =>
      ∀ l ∈ links, Parsed l.2 :=
  Ensures.many ((Ensures.trivial op).bind fun _ _ => h.bind fun _ he => ensures_pure he)

theorem ensures_leftChain {operand : Parser Expr} (op : Parser BinaryOp)
    (h : Ensures operand Parsed) : Ensures (leftChain operand op) Parsed :=
  h.bind fun _ he => (ensures_links op h).bind fun _ hlinks =>
    ensures_pure (parsed_foldl_links hlinks he)

theorem ensures_bitOr (hg : g.Sound) : Ensures g.bitOr Parsed :=
  ensures_leftChain _ <| ensures_leftChain _ <| ensures_leftChain _ <| ensures_leftChain _ <|
    ensures_leftChain _ <| ensures_leftChain _ <| ensures_signed hg

theorem ensures_comparison (hg : g.Sound) : Ensures g.comparison Parsed := by
  refine (ensures_bitOr hg).bind fun left hleft => ?_
  refine (ensures_links cmpOp (ensures_bitOr hg)).bind fun links hlinks => ensures_pure ?_
  cases links with
  | nil => exact hleft
  | cons l links => exact .compare hleft (l :: links) nofun hlinks

theorem ensures_negation (hg : g.Sound) : Ensures g.negation Parsed :=
  Ensures.orElse (ensures_keyword (hg.notTest.bind fun _ he => ensures_pure (.unary .not he)))
    (ensures_comparison hg)

theorem ensures_boolChain {operand : Parser Expr} (op : BoolOp) (h : Ensures operand Parsed) :
    Ensures (boolChain op operand) Parsed := by
  refine h.bind fun first hfirst => ?_
  refine (Ensures.many (ensures_keyword h)).bind fun others hothers => ensures_pure ?_
  cases others with
  | nil => exact hfirst
  | cons second others => exact .boolean op first second others (by simpa [hfirst] using hothers)

theorem ensures_disjunction (hg : g.Sound) : Ensures g.disjunction Parsed :=
  ensures_boolChain .or (ensures_boolChain .and (ensures_negation hg))

theorem ensures_conditional (hg : g.Sound) : Ensures g.conditional Parsed := by
  refine (ensures_disjunction hg).bind fun body hbody => ?_
  have htail : Ensures (do
      keyword "if"
      let test ← g.disjunction
      keyword "else"
      let otherwise ← g.expression
      return (test, otherwise)) fun p : Expr × Expr => Parsed p.1 ∧ Parsed p.2 :=
    ensures_keyword ((ensures_disjunction hg).bind fun _ htest => ensures_keyword
      (hg.expression.bind fun _ hotherwise => ensures_pure ⟨htest, hotherwise⟩))
  refine htail.opt.bind fun tail h => ensures_pure ?_
  cases tail with
  | none => exact hbody
  | some p => exact .conditional (h p rfl).1 hbody (h p rfl).2

/-! ### Anonymous functions -/

/-- What a parameter is made of. -/
def ParameterParsed : Parameter → Prop
  | .plain p => IsName p.name ∧ ∀ e ∈ p.default, Parsed e
  | .rest id => IsName id
  | .named id => IsName id

theorem ensures_parameter (hg : g.Sound) : Ensures g.parameter ParameterParsed := by
  refine Ensures.orElse (ensures_symbol ?_) (Ensures.orElse (ensures_symbol ?_) ?_)
  · exact ensures_name.bind fun id hid => ensures_pure hid
  · exact ensures_name.bind fun id hid => ensures_pure hid
  · refine ensures_name.bind fun id hid => ?_
    exact (Ensures.opt (ensures_symbol hg.expression)).bind fun d hd => ensures_pure ⟨hid, hd⟩

theorem ensures_parameters (hg : g.Sound) : Ensures g.parameters fun ps => ∀ p ∈ ps, ParameterParsed p :=
  (ensures_parameter hg).sepBy _

theorem ensures_lambda (hg : g.Sound) : Ensures g.lambda Parsed := by
  refine ensures_keyword ((ensures_parameters hg).bind fun ps hps => ensures_symbol ?_)
  refine hg.expression.bind fun body hbody => ensures_pure ?_
  have hplain : ∀ p ∈ Parameter.plains ps, IsName p.name ∧ ∀ e ∈ p.default, Parsed e := by
    intro p hp
    obtain ⟨q, hq, hqp⟩ := List.mem_filterMap.1 hp
    cases q with
    | plain p' =>
      cases hqp
      exact hps _ hq
    | rest id => cases hqp
    | named id => cases hqp
  have hrest : ∀ id ∈ Parameter.rest? ps, IsName id := by
    intro id hid
    obtain ⟨q, hq, hqp⟩ := List.mem_filterMap.1 (List.mem_of_getLast? hid)
    cases q with
    | plain p => cases hqp
    | rest id' =>
      cases hqp
      exact hps _ hq
    | named id' => cases hqp
  have hnamed : ∀ id ∈ Parameter.named? ps, IsName id := by
    intro id hid
    obtain ⟨q, hq, hqp⟩ := List.mem_filterMap.1 (List.mem_of_getLast? hid)
    cases q with
    | plain p => cases hqp
    | rest id' => cases hqp
    | named id' =>
      cases hqp
      exact hps _ hq
  exact .lambda _ _ _ (fun p hp => (hplain p hp).1) hrest hnamed (fun p hp => (hplain p hp).2) hbody

/-! ### Rounds -/

theorem sound_next (hg : g.Sound) : g.next.Sound where
  expression := (ensures_lambda hg).orElse (ensures_conditional hg)
  orTest := ensures_disjunction hg
  notTest := ensures_negation hg
  factor := ensures_signed hg

end Grammar

theorem sound_grammar (n : Nat) : (grammar n).Sound := by
  induction n with
  | zero => exact ⟨ensures_fail, ensures_fail, ensures_fail, ensures_fail⟩
  | succ n ih => exact Grammar.sound_next ih

/-- Reading a text gives a tree of the grammar. -/
theorem parsed_of_parse {t : String} {e : Expr} (h : Expr.parse t = .ok e) : Parsed e := by
  rw [Expr.parse] at h
  dsimp only at h
  split at h
  · rename_i e' rest hread
    split at h
    · cases h
      exact (sound_grammar _).expression hread
    · cases h
  · cases h

/-- So is the expression of a source. -/
theorem parsed_of_expr {s : Source} {e : Expr} (h : s.expr = .ok e) : Parsed e := by
  obtain ⟨t, -, h⟩ := bind_eq_ok h
  obtain ⟨tree, htree, h⟩ := bind_eq_ok h
  have hparsed := parsed_of_parse htree
  rw [Source.bodyOf.eq_def] at h
  split at h
  · split at h
    · cases h
      cases hparsed with
      | lambda _ _ _ _ _ _ _ hbody => exact hbody
    · cases h
  · cases h
    exact hparsed

end DocQuery
