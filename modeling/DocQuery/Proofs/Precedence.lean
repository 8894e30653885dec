import DocQuery.Proofs.RoundTrip

/-! # Precedence and grouping

The concise text of an expression has parentheses only where an expression stands in a place that
asks for one that binds tighter. It is read back as the same expression, so the parser follows the
table of precedence.

* `Expr.tightness`: the level of the operator of an expression, by the table.
* `BinaryOp.leftPlace`, `BinaryOp.rightPlace`: how operators of one level are grouped.
* `Expr.concise`: the text with as few parentheses as the table allows.
* `parse_conciseText`: concise texts are read back.
-/

set_option autoImplicit false

namespace DocQuery

open DocQuery.Parser Token

/-! ## Places -/

/-- The level of an operator with one operand, which is also the place of its operand. -/
def UnaryOp.level : UnaryOp → Level
  | not => .negation
  | _ => .signed

namespace BinaryOp

/-- The place of the left operand. Powers are grouped from the right, all others from the left. -/
def leftPlace : BinaryOp → Level
  | pow => .primary
  | op => op.level

/-- The place of the right operand. An exponent may have signs in front. -/
def rightPlace : BinaryOp → Level
  | pow => .signed
  | op => op.level.tighter

end BinaryOp

/-- A text that binds as tightly as `inner`, in a place that asks for the level `outer`. -/
def placed (outer : Level) (inner : Nat) (t : List Char) : List Char :=
  if outer.rank ≤ inner then t else '(' :: (t ++ [')'])

/-- An anonymous function with the texts of its parameters and of its body. -/
def lambdaText (params : List (List Char)) (body : List Char) : List Char :=
  "lambda".toList ++ (parameterText params ++ ':' :: ' ' :: body)

namespace Expr

/-- How tightly an expression binds. A generator binds loosest of all, so it has no parentheses only
where it is an argument. -/
def tightness : Expr → Nat
  | generator .. => 0
  | lambda .. | conditional .. => Level.expression.rank
  | boolean op _ => op.level.rank
  | unary op _ => op.level.rank
  | compare .. => Level.comparison.rank
  | binary _ op _ => op.level.rank
  | attr .. | call .. | subscript .. => Level.primary.rank
  | _ => Level.atom.rank

mutual

/-- The text with parentheses only where they are needed. -/
def concise : Expr → List Char
  | lambda params rest named body =>
    lambdaText (parameterTexts (conciseParams params) rest named)
      (placed .expression body.tightness (concise body))
  | literal l => l.render.toList
  | name id => id.toList
  | attr value label =>
    placed .primary value.tightness (concise value) ++
      (if value.isNumber then ' ' :: '.' :: label.toList else '.' :: label.toList)
  | binary left op right =>
    placed op.leftPlace left.tightness (concise left) ++
      (spaced op.symbol ++ placed op.rightPlace right.tightness (concise right))
  | unary op operand => op.mark.toList ++ placed op.level operand.tightness (concise operand)
  | compare left ops operands =>
    placed .bitOr left.tightness (concise left) ++ conciseLinks ops operands
  | boolean op operands =>
    (spaced op.keyword).intercalate (conciseAll op.level.tighter operands)
  | conditional test body otherwise =>
    placed .disjunction body.tightness (concise body) ++ (spaced "if" ++
      (placed .disjunction test.tightness (concise test) ++
        (spaced "else" ++ placed .expression otherwise.tightness (concise otherwise))))
  | call callee args keywords =>
    placed .primary callee.tightness (concise callee) ++
      '(' :: (commas (conciseArgs args ++ (conciseKeywords keywords).map Keyword.text) ++ [')'])
  | starred value => '*' :: placed .expression value.tightness (concise value)
  | subscript value (tuple (first :: others)) =>
    placed .primary value.tightness (concise value) ++
      '[' :: (commas (placed .expression first.tightness (concise first) ::
        conciseAll .expression others) ++ (loneComma others ++ [']']))
  | subscript value index =>
    placed .primary value.tightness (concise value) ++
      '[' :: (placed .expression index.tightness (concise index) ++ [']'])
  | slice lower upper step =>
    (Index.slice (conciseOption lower) (conciseOption upper) (conciseOption step)).text
  | list items => '[' :: (commas (conciseAll .expression items) ++ [']'])
  | tuple [] => ['(', ')']
  | tuple (first :: others) =>
    '(' :: (commas (placed .expression first.tightness (concise first) ::
      conciseAll .expression others) ++ (loneComma others ++ [')']))
  | listComp element clauses =>
    '[' :: (placed .expression element.tightness (concise element) ++
      ((conciseClauses clauses).flatMap Clause.text ++ [']']))
  | generator element clauses =>
    placed .expression element.tightness (concise element) ++
      (conciseClauses clauses).flatMap Clause.text
  | display kind => kind.toList
termination_by structural e => e

/-- The texts of arguments, where nothing needs parentheses. -/
def conciseArgs : List Expr → List (List Char)
  | [] => []
  | e :: es => concise e :: conciseArgs es
termination_by structural es => es

/-- The texts of several expressions, each in a place that asks for the level `outer`. -/
def conciseAll (outer : Level) : List Expr → List (List Char)
  | [] => []
  | e :: es => placed outer e.tightness (concise e) :: conciseAll outer es
termination_by structural es => es

/-- The text of an expression that may be missing. -/
def conciseOption : Option Expr → Option (List Char)
  | none => none
  | some e => some (placed .expression e.tightness (concise e))
termination_by structural e => e

/-- The links of a chain of comparisons. -/
def conciseLinks : List CmpOp → List Expr → List Char
  | op :: ops, e :: es =>
    spaced op.symbol ++ (placed .bitOr e.tightness (concise e) ++ conciseLinks ops es)
  | _, _ => []
termination_by structural _ es => es

/-- Parameters with the texts of their defaults. -/
def conciseParams : List (Param Expr) → List (Param (List Char))
  | [] => []
  | ⟨id, default⟩ :: ps => ⟨id, conciseOption default⟩ :: conciseParams ps
termination_by structural ps => ps

/-- Keyword arguments with the texts of their values. -/
def conciseKeywords : List (Keyword Expr) → List (Keyword (List Char))
  | [] => []
  | ⟨label, value⟩ :: ks =>
    ⟨label, placed .expression value.tightness (concise value)⟩ :: conciseKeywords ks
termination_by structural ks => ks

/-- Clauses with the texts of their sources and conditions. -/
def conciseClauses : List (Clause Expr) → List (Clause (List Char))
  | [] => []
  | ⟨target, source, conditions⟩ :: cs =>
    ⟨target, placed .disjunction source.tightness (concise source),
      conciseAll .disjunction conditions⟩ :: conciseClauses cs
termination_by structural cs => cs

end

/-- The text of an expression in a place that asks for the level `outer`. -/
def textAt (outer : Level) (e : Expr) : List Char := placed outer e.tightness e.concise

/-- The concise text of a whole expression. -/
def conciseText (e : Expr) : String := String.ofList (e.textAt .expression)

/-! ## Concise texts by parts -/

theorem conciseArgs_eq_map (es : List Expr) : conciseArgs es = es.map concise := by
  induction es with
  | nil => rfl
  | cons e es ih => rw [conciseArgs, ih, List.map_cons]

theorem conciseAll_eq_map (L : Level) (es : List Expr) : conciseAll L es = es.map (textAt L) := by
  induction es with
  | nil => rfl
  | cons e es ih => rw [conciseAll, ih, List.map_cons, textAt]

theorem conciseOption_eq_map (o : Option Expr) :
    conciseOption o = o.map (textAt .expression) := by
  cases o <;> rfl

theorem conciseLinks_eq_flatMap (links : List (CmpOp × Expr)) :
    conciseLinks (links.map (·.1)) (links.map (·.2)) =
      links.flatMap fun l => spaced l.1.symbol ++ l.2.textAt .bitOr := by
  induction links with
  | nil => rfl
  | cons l links ih => simp [conciseLinks, ih, textAt]

theorem conciseParams_eq_map (ps : List (Param Expr)) :
    conciseParams ps = ps.map (·.map (textAt .expression)) := by
  induction ps with
  | nil => rfl
  | cons p ps ih => rw [conciseParams, ih, conciseOption_eq_map, List.map_cons, Param.map]

theorem conciseKeywords_eq_map (ks : List (Keyword Expr)) :
    conciseKeywords ks = ks.map (·.map (textAt .expression)) := by
  induction ks with
  | nil => rfl
  | cons k ks ih => rw [conciseKeywords, ih, List.map_cons, Keyword.map, textAt]

theorem conciseClauses_eq_map (cs : List (Clause Expr)) :
    conciseClauses cs = cs.map (·.map (textAt .disjunction)) := by
  induction cs with
  | nil => rfl
  | cons c cs ih => rw [conciseClauses, ih, conciseAll_eq_map, List.map_cons, Clause.map, textAt]

theorem textAt_index (i : Index Expr) :
    i.expr.textAt .expression = (i.map (textAt .expression)).text := by
  cases i with
  | single e => rfl
  | slice lower upper step =>
    change concise (.slice lower upper step) = _
    rw [concise, conciseOption_eq_map, conciseOption_eq_map, conciseOption_eq_map, Index.map]

end Expr

/-! ## Concise texts are spellings -/

/-- The concise text writes the expression in every place. Where it is an argument, it is a generator
without parentheses or an expression as anywhere else. -/
structure ConciseSpells (e : Expr) : Prop where
  place : ∀ L, Spelling L e (e.textAt L)
  passed : ∃ a : Passed Expr, a.spread = false ∧ a.expr = e ∧
    e.concise = a.value.textAt .expression ++
      a.clauses.flatMap (fun c => (c.map (Expr.textAt .disjunction)).text) ∧
    Spelling .expression a.value (a.value.textAt .expression) ∧
    Spelling.Clauses (Expr.textAt .disjunction) a.clauses

theorem Level.one_le_rank (L : Level) : 1 ≤ L.rank := by cases L <;> decide

section Spells

variable {e left right : Expr}

/-- An expression that is written without parentheses at its own level is written in every place. -/
theorem conciseSpells_of_level {L : Level} (h : Spelling L e e.concise)
    (htight : e.tightness = L.rank) : ConciseSpells e := by
  have hplace : ∀ L', Spelling L' e (e.textAt L') := by
    intro L'
    rw [Expr.textAt, placed, htight]
    split
    · exact h.loosen ‹_›
    · exact (Spelling.paren (h.loosen L.one_le_rank)).loosen L'.rank_le
  have htext : e.concise = e.textAt .expression := by
    rw [Expr.textAt, placed, htight]
    exact (if_pos L.one_le_rank).symm
  refine ⟨hplace, ⟨⟨false, e⟩, []⟩, rfl, rfl, ?_, hplace .expression, nofun⟩
  simpa using htext

theorem conciseSpells_lambda {params : List (Param Expr)} {rest named : Option String}
    (names : ∀ p ∈ params, IsName p.name) (restName : ∀ id ∈ rest, IsName id)
    (namedName : ∀ id ∈ named, IsName id)
    (defaults : ∀ p ∈ params, ∀ e ∈ p.default, ConciseSpells e) (body : ConciseSpells e) :
    ConciseSpells (.lambda params rest named e) := by
  refine conciseSpells_of_level (L := .expression) ?_ rfl
  rw [Expr.concise, Expr.conciseParams_eq_map]
  exact .lambda_text names restName namedName
    (fun p hp e he => (defaults p hp e he).place .expression) (body.place .expression)

theorem conciseSpells_attr {label : String} (h : ConciseSpells e) (hlabel : IsName label) :
    ConciseSpells (.attr e label) := by
  refine conciseSpells_of_level (L := .primary) ?_ rfl
  have he := h.place .primary
  rw [Expr.concise]
  split
  · exact .gapAttr he hlabel
  · rename_i hnumber
    refine .attr he hlabel (he.exists_nondigit ?_)
    rintro n rfl
    exact hnumber rfl

theorem conciseSpells_binary {op : BinaryOp} (hleft : ConciseSpells left)
    (hright : ConciseSpells right) : ConciseSpells (.binary left op right) := by
  refine conciseSpells_of_level (L := op.level) ?_ rfl
  rw [Expr.concise]
  by_cases hop : op = .pow
  · subst hop
    exact .power (hleft.place .primary) (hright.place .signed)
  · have hplaces : op.leftPlace = op.level ∧ op.rightPlace = op.level.tighter := by
      cases op <;> first | exact ⟨rfl, rfl⟩ | exact absurd rfl hop
    rw [hplaces.1, hplaces.2]
    exact .binary op hop (hleft.place op.level) (hright.place op.level.tighter)

theorem conciseSpells_unary {op : UnaryOp} (h : ConciseSpells e) :
    ConciseSpells (.unary op e) := by
  refine conciseSpells_of_level (L := op.level) ?_ rfl
  rw [Expr.concise]
  by_cases hop : op = .not
  · subst hop
    exact .negation (h.place .negation)
  · have hlevel : op.level = .signed := by cases op <;> first | rfl | exact absurd rfl hop
    rw [hlevel]
    exact .sign op hop (h.place .signed)

theorem conciseSpells_compare {links : List (CmpOp × Expr)} (some : links ≠ [])
    (hleft : ConciseSpells left) (h : ∀ l ∈ links, ConciseSpells l.2) :
    ConciseSpells (.compare left (links.map (·.1)) (links.map (·.2))) := by
  refine conciseSpells_of_level (L := .comparison) ?_ rfl
  rw [Expr.concise, Expr.conciseLinks_eq_flatMap]
  exact .compare_text (hleft.place .bitOr) some fun l hl => (h l hl).place .bitOr

theorem conciseSpells_boolean {op : BoolOp} {first second : Expr} {others : List Expr}
    (h : ∀ e ∈ first :: second :: others, ConciseSpells e) :
    ConciseSpells (.boolean op (first :: second :: others)) := by
  refine conciseSpells_of_level (L := op.level) ?_ rfl
  rw [Expr.concise, Expr.conciseAll_eq_map, List.map_cons, intercalate_eq_flatMap,
    List.flatMap_map]
  exact .boolean_text fun e he => (h e he).place op.level.tighter

theorem conciseSpells_conditional {test body otherwise : Expr} (htest : ConciseSpells test)
    (hbody : ConciseSpells body) (hotherwise : ConciseSpells otherwise) :
    ConciseSpells (.conditional test body otherwise) := by
  refine conciseSpells_of_level (L := .expression) ?_ rfl
  rw [Expr.concise]
  exact .conditional (hbody.place .disjunction) (htest.place .disjunction)
    (hotherwise.place .expression)

/-- The argument `b` is passed for `a`, and concise texts write its parts. -/
structure Passes (a : Positional Expr) (b : Passed Expr) : Prop where
  spread : b.spread = true → b.clauses = []
  expr : b.expr = a.expr
  text : (b.toPositional.map (Expr.textAt .expression)).text ++
    b.clauses.flatMap (fun c => (c.map (Expr.textAt .disjunction)).text) = a.expr.concise
  value : Spelling .expression b.value (b.value.textAt .expression)
  clauses : Spelling.Clauses (Expr.textAt .disjunction) b.clauses

theorem ConciseSpells.passes {a : Positional Expr} (h : ConciseSpells a.value) :
    ∃ b, Passes a b := by
  obtain ⟨spread, value⟩ := a
  cases spread with
  | true =>
    have hclauses : Spelling.Clauses (Expr.textAt .disjunction) [] := by simp [Spelling.Clauses]
    refine ⟨⟨⟨true, value⟩, []⟩, fun _ => rfl, rfl, ?_, h.place .expression, hclauses⟩
    change _ = Expr.concise (.starred value)
    rw [Expr.concise]
    simp [Positional.map, Positional.text, Expr.textAt]
  | false =>
    obtain ⟨⟨⟨spread, element⟩, clauses⟩, rfl, hexpr, htext, hvalue, hclauses⟩ := h.passed
    exact ⟨⟨⟨false, element⟩, clauses⟩, by simp, hexpr, htext.symm, hvalue, hclauses⟩

theorem conciseSpells_call {args : List (Positional Expr)} {keywords : List (Keyword Expr)}
    (h : ConciseSpells e) (labels : ∀ k ∈ keywords, ∀ id ∈ k.label, IsName id)
    (hargs : ∀ a ∈ args, ConciseSpells a.value) (hkeywords : ∀ k ∈ keywords, ConciseSpells k.value) :
    ConciseSpells (.call e (args.map (·.expr)) keywords) := by
  refine conciseSpells_of_level (L := .primary) ?_ rfl
  have : Nonempty (Passed Expr) := ⟨⟨⟨false, e⟩, []⟩⟩
  choose! passed hpasses using fun a ha => (hargs a ha).passes
  have hpassed : ∀ b ∈ args.map passed, ∃ a, Passes a b := by
    intro b hb
    obtain ⟨a, ha, rfl⟩ := List.mem_map.1 hb
    exact ⟨a, hpasses a ha⟩
  have hspell := Spelling.call_text (Expr.textAt .expression) (Expr.textAt .disjunction)
    (args.map passed) (h.place .primary) labels
    (fun b hb => (hpassed b hb).elim fun _ hb => hb.spread)
    (fun b hb => (hpassed b hb).elim fun _ hb => hb.value)
    (fun b hb => (hpassed b hb).elim fun _ hb => hb.clauses)
    fun k hk => (hkeywords k hk).place .expression
  have hexprs : (args.map passed).map (·.expr) = args.map (·.expr) := by
    rw [List.map_map]
    exact List.map_congr_left fun a ha => (hpasses a ha).expr
  have htexts : (args.map passed).map (fun b =>
      (b.toPositional.map (Expr.textAt .expression)).text ++
        b.clauses.flatMap fun c => (c.map (Expr.textAt .disjunction)).text) =
      (args.map (·.expr)).map Expr.concise := by
    rw [List.map_map, List.map_map]
    exact List.map_congr_left fun a ha => (hpasses a ha).text
  rw [hexprs, htexts, ← Expr.conciseArgs_eq_map] at hspell
  rw [Expr.concise, Expr.conciseKeywords_eq_map, List.map_map]
  exact hspell

theorem conciseSpells_subscript {i : Index Expr} (h : ConciseSpells e)
    (single : ∀ items, i.expr = .tuple items → items = [])
    (parts : ∀ p ∈ i.parts, ConciseSpells p) : ConciseSpells (.subscript e i.expr) := by
  refine conciseSpells_of_level (L := .primary) ?_ rfl
  have htext : (Expr.subscript e i.expr).concise =
      e.textAt .primary ++ '[' :: (i.expr.textAt .expression ++ [']']) := by
    rw [Expr.concise.eq_def]
    split <;> simp_all [Expr.textAt]
  rw [htext, Expr.textAt_index]
  exact .subscript_text (h.place .primary) fun p hp => (parts p hp).place .expression

theorem conciseSpells_subscripts {indices : List (Index Expr)} (hne : indices ≠ [])
    (h : ConciseSpells e) (parts : ∀ i ∈ indices, ∀ p ∈ i.parts, ConciseSpells p) :
    ConciseSpells (.subscript e (.tuple (indices.map (·.expr)))) := by
  refine conciseSpells_of_level (L := .primary) ?_ rfl
  cases indices with
  | nil => exact absurd rfl hne
  | cons first others =>
    have htexts : ∀ is : List (Index Expr), (is.map (·.expr)).map (Expr.textAt .expression) =
        is.map fun i => (i.map (Expr.textAt .expression)).text := by
      intro is
      rw [List.map_map]
      exact List.map_congr_left fun i _ => Expr.textAt_index i
    have htext : (Expr.subscript e (.tuple ((first :: others).map (·.expr)))).concise =
        e.textAt .primary ++ '[' :: (commas ((first :: others).map fun i =>
          (i.map (Expr.textAt .expression)).text) ++ (loneComma others ++ [']'])) := by
      rw [← htexts, List.map_cons, Expr.concise, Expr.conciseAll_eq_map, loneComma,
        List.isEmpty_map]
      rfl
    rw [htext]
    exact .subscripts_text (h.place .primary) fun i hi p hp => (parts i hi p hp).place .expression

theorem conciseSpells_list {items : List Expr} (h : ∀ e ∈ items, ConciseSpells e) :
    ConciseSpells (.list items) := by
  refine conciseSpells_of_level (L := .atom) ?_ rfl
  rw [Expr.concise, Expr.conciseAll_eq_map]
  exact .list_text fun e he => (h e he).place .expression

theorem conciseSpells_tuple {items : List Expr} (h : ∀ e ∈ items, ConciseSpells e) :
    ConciseSpells (.tuple items) := by
  refine conciseSpells_of_level (L := .atom) ?_ rfl
  cases items with
  | nil => exact .unit
  | cons first others =>
    rw [Expr.concise, Expr.conciseAll_eq_map]
    exact .tuple_text fun e he => (h e he).place .expression

section Comprehensions

variable {clauses : List (Clause Expr)}

theorem conciseSpells_clauses (targets : ∀ c ∈ clauses, IsName c.target)
    (sources : ∀ c ∈ clauses, ConciseSpells c.source)
    (conditions : ∀ c ∈ clauses, ∀ e ∈ c.conditions, ConciseSpells e) :
    Spelling.Clauses (Expr.textAt .disjunction) clauses := fun c hc =>
  ⟨targets c hc, (sources c hc).place .disjunction,
    fun e he => (conditions c hc e he).place .disjunction⟩

theorem conciseSpells_listComp (h : ConciseSpells e) (some : clauses ≠ [])
    (hclauses : Spelling.Clauses (Expr.textAt .disjunction) clauses) :
    ConciseSpells (.listComp e clauses) := by
  refine conciseSpells_of_level (L := .atom) ?_ rfl
  rw [Expr.concise, Expr.conciseClauses_eq_map, List.flatMap_map]
  exact .listComp_text (h.place .expression) some hclauses

theorem conciseSpells_generator (h : ConciseSpells e) (some : clauses ≠ [])
    (hclauses : Spelling.Clauses (Expr.textAt .disjunction) clauses) :
    ConciseSpells (.generator e clauses) := by
  have htext : (Expr.generator e clauses).concise = e.textAt .expression ++
      clauses.flatMap fun c => (c.map (Expr.textAt .disjunction)).text := by
    rw [Expr.concise, Expr.conciseClauses_eq_map, List.flatMap_map]
    rfl
  have hplace : ∀ L : Level, (Expr.generator e clauses).textAt L =
      '(' :: (e.textAt .expression ++
        (clauses.flatMap (fun c => (c.map (Expr.textAt .disjunction)).text) ++ [')'])) := by
    intro L
    have hrank : ¬ L.rank ≤ 0 := Nat.not_le.2 L.one_le_rank
    rw [Expr.textAt, Expr.tightness, placed, if_neg hrank, htext, List.append_assoc]
  refine ⟨fun L => ?_, ⟨⟨false, e⟩, clauses⟩, rfl, ?_, htext, h.place .expression, hclauses⟩
  · rw [hplace]
    exact (Spelling.generator_text (h.place .expression) some hclauses).loosen L.rank_le
  · simp [Passed.expr, some]

end Comprehensions

end Spells

/-- The concise text of a tree of the grammar writes it. -/
theorem Parsed.conciseSpells {e : Expr} (h : Parsed e) (hp : e.Plain) : ConciseSpells e := by
  induction h with
  | lambda params rest named names restName namedName _ _ ihDefaults ihBody =>
    exact conciseSpells_lambda names restName namedName
      (fun p hparam x hx => ihDefaults p hparam x hx (hp.default p hparam x hx))
      (ihBody (hp.part (by simp [Expr.parts])))
  | none => exact conciseSpells_of_level .none rfl
  | bool b => exact conciseSpells_of_level (.bool b) rfl
  | int n hn =>
    refine conciseSpells_of_level (L := .atom) ?_ rfl
    have htext : (Expr.literal (.int n)).concise = Nat.toDigits 10 n := toString_natCast n
    rw [htext]
    exact .int n hn
  | float digits exponent => exact absurd .self (hp.no_float _)
  | str s => exact conciseSpells_of_level (.str s) rfl
  | name h => exact conciseSpells_of_level (.name h) rfl
  | attr _ hlabel ih => exact conciseSpells_attr (ih (hp.part List.mem_cons_self)) hlabel
  | binary op _ _ ihLeft ihRight =>
    exact conciseSpells_binary (ihLeft (hp.part (by simp [Expr.parts])))
      (ihRight (hp.part (by simp [Expr.parts])))
  | unary op _ ih => exact conciseSpells_unary (ih (hp.part List.mem_cons_self))
  | compare _ links some _ ihLeft ih =>
    exact conciseSpells_compare some (ihLeft (hp.part List.mem_cons_self)) fun l hl =>
      ih l hl (hp.part (List.mem_cons_of_mem _ (List.mem_map_of_mem hl)))
  | boolean op first second others _ ih =>
    exact conciseSpells_boolean fun x hx => ih x hx (hp.part hx)
  | conditional _ _ _ ihTest ihBody ihOtherwise =>
    exact conciseSpells_conditional (ihTest (hp.part (by simp [Expr.parts])))
      (ihBody (hp.part (by simp [Expr.parts]))) (ihOtherwise (hp.part (by simp [Expr.parts])))
  | call _ args keywords labels _ _ ih ihArgs ihKeywords =>
    exact conciseSpells_call (ih (hp.part List.mem_cons_self)) labels
      (fun a ha => ihArgs a ha (hp.argument a ha)) fun k hk => ihKeywords k hk (hp.keyword k hk)
  | subscript _ i single _ ih ihParts =>
    have hindex := Index.plain_parts (i := i) (hp.part (by simp [Expr.parts]))
    exact conciseSpells_subscript (ih (hp.part List.mem_cons_self)) single fun x hx =>
      ihParts x hx (hindex x hx)
  | subscripts _ indices some _ ih ihParts =>
    have htuple : (Expr.tuple (indices.map (·.expr))).Plain := hp.part (by simp [Expr.parts])
    exact conciseSpells_subscripts some (ih (hp.part List.mem_cons_self)) fun i hi x hx =>
      ihParts i hi x hx (Index.plain_parts (htuple.part (List.mem_map_of_mem hi)) x hx)
  | list items _ ih => exact conciseSpells_list fun x hx => ih x hx (hp.part hx)
  | tuple items _ ih => exact conciseSpells_tuple fun x hx => ih x hx (hp.part hx)
  | listComp _ clauses some targets _ _ ih ihSources ihConditions =>
    have hplain := plain_clauses hp rfl
    exact conciseSpells_listComp (ih (hp.part List.mem_cons_self)) some
      (conciseSpells_clauses targets (fun c hc => ihSources c hc (hplain c hc).1)
        fun c hc x hx => ihConditions c hc x hx ((hplain c hc).2 x hx))
  | generator _ clauses some targets _ _ ih ihSources ihConditions =>
    have hplain := plain_clauses hp rfl
    exact conciseSpells_generator (ih (hp.part List.mem_cons_self)) some
      (conciseSpells_clauses targets (fun c hc => ihSources c hc (hplain c hc).1)
        fun c hc x hx => ihConditions c hc x hx ((hplain c hc).2 x hx))
  | display h => exact absurd .self (hp.no_display _)

/-- A tree that was read from a text is read again from its concise text, unless it holds a
floating-point number or a construct that is not modelled. -/
theorem parse_conciseText {t : String} {e : Expr} (h : Expr.parse t = .ok e)
    (hdisplay : ∀ kind, ¬(Expr.display kind).Inside e)
    (hfloat : ∀ x, ¬(Expr.literal (.float x)).Inside e) : Expr.parse e.conciseText = .ok e := by
  have hspells := (parsed_of_parse h).conciseSpells ⟨hdisplay, hfloat⟩
  refine Spelling.parse ?_
  rw [Expr.conciseText, String.toList_ofList]
  exact hspells.place .expression

theorem parse_conciseText_mixed : ∃ e : Expr,
    Expr.parse "(a or -(b ** -1 .c)) * f(x for x in y)" = .ok e ∧
    (∀ kind, ¬(Expr.display kind).Inside e) ∧ (∀ x, ¬(Expr.literal (.float x)).Inside e) ∧
    e.conciseText = "(a or -b ** -1 .c) * f(x for x in y)" ∧
    Expr.parse e.conciseText = .ok e := by
  let field : Expr := .attr (.literal (.int 1)) "c"
  let power : Expr := .binary (.name "b") .pow (.unary .neg field)
  let choice : Expr := .boolean .or [.name "a", .unary .neg power]
  let elements : Expr := .generator (.name "x") [⟨"x", .name "y", []⟩]
  let call : Expr := .call (.name "f") [elements] []
  let e : Expr := .binary choice .mul call
  have hparse : Expr.parse "(a or -(b ** -1 .c)) * f(x for x in y)" = .ok e := by cbv
  have hinside : ∀ x : Expr, x.Inside e → x ∈ [e, choice, .unary .neg power, power,
      .unary .neg field, field, call, elements, .literal (.int 1), .name "a", .name "b", .name "f",
      .name "x", .name "y"] :=
    fun x hx => hx.mem_of_closed List.mem_cons_self
      (by simp [e, choice, power, field, call, elements, Expr.parts])
  have hdisplay : ∀ kind, ¬(Expr.display kind).Inside e := fun kind hk => by
    simpa [e, choice, power, field, call, elements] using hinside _ hk
  have hfloat : ∀ x, ¬(Expr.literal (.float x)).Inside e := fun x hx => by
    simpa [e, choice, power, field, call, elements] using hinside _ hx
  exact ⟨e, hparse, hdisplay, hfloat, by decide, parse_conciseText hparse hdisplay hfloat⟩

end DocQuery
