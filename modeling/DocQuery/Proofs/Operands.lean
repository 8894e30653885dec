import DocQuery.Proofs.References
import DocQuery.Proofs.Values

/-! # The texts of operands

An operand of an operator is a single primary of SQL: a string, a number or a name with dots, a call, a
`CASE`, parentheses, or a sign in front of one of these. The exceptions are negations, whose `NOT` is
written without parentheses, and attributes of finished SQL.

* `Gives.eval`: evaluation is what the rules say, if nothing is guaranteed.
* `Evaluates`: which expressions inside an expression are evaluated, each in its context.
* `IsPrimary`: the primaries.
* `Gives.isPrimary`, `Gives.not_isPrimary`: which operands are primaries.
-/

set_option autoImplicit false

namespace DocQuery

namespace Expr

def isNegation : Expr → Bool
  | unary .not _ => true
  | _ => false

/-- The name at the start of attributes and indices. -/
def root? : Expr → Option String
  | name id => some id
  | attr value _ => value.root?
  | subscript value _ => value.root?
  | _ => none

/-- Induction on attributes and indices of a name. -/
theorem root_induction {id : String} {motive : (e : Expr) → e.root? = some id → Prop}
    (name : motive (.name id) rfl)
    (attr : ∀ value label (h : value.root? = some id), motive value h → motive (.attr value label) h)
    (subscript : ∀ value index (h : value.root? = some id), motive value h →
      motive (.subscript value index) h)
    {e : Expr} (h : e.root? = some id) : motive e h := by
  fun_induction root? e with
  | case1 =>
    cases h
    exact name
  | case2 value label ih => exact attr value label h (ih h)
  | case3 value index ih => exact subscript value index h (ih h)
  | case4 e hname hattr hsubscript =>
    rw [root?] at h
    · cases h
    · exact hname
    · exact hattr
    · exact hsubscript

/-- Whether the expression is no attribute of finished SQL. -/
def isRooted : Expr → Bool
  | attr value _ => value.root?.isSome
  | _ => true

/-- The operands of an operator between two: of arithmetic, of comparisons and of tests of patterns. -/
def operands : Expr → List Expr
  | binary left _ right => [left, right]
  | compare left _ operands => left :: operands
  | call (attr value _) _ _ => [value]
  | _ => []

end Expr

namespace Sql

open Context

/-! ## The rules are those of evaluation -/

section Eval

variable {c : Context} {e : Expr} {v : Value} {ps : List Piece} {sql : String}

theorem compileAll_pieces (hvalues : ∀ p ∈ ps, c.eval p.expr = .ok p.value)
    (hsql : ∀ p ∈ ps, c.sqlOf p.expr p.value = .ok p.sql) :
    c.compileAll (ps.map (·.expr)) = .ok (ps.map (·.sql)) := by
  induction ps with
  | nil => rfl
  | cons p ps ih =>
    obtain ⟨hvalue, hvalues⟩ := List.forall_mem_cons.1 hvalues
    obtain ⟨htext, hsql⟩ := List.forall_mem_cons.1 hsql
    rw [List.map_cons, compileAll, hvalue, ih hvalues hsql]
    dsimp only [bind, Except.bind]
    rw [htext]
    rfl

theorem links_pieces {links : List (CmpOp × Piece)}
    (hvalues : ∀ l ∈ links, c.eval l.2.expr = .ok l.2.value)
    (hsql : ∀ l ∈ links, c.sqlOf l.2.expr l.2.value = .ok l.2.sql) (first : String) :
    c.links first (links.map (·.1)) (links.map (·.2.expr)) = .ok (linkTexts first links) := by
  induction links generalizing first with
  | nil => rfl
  | cons l links ih =>
    obtain ⟨hvalue, hvalues⟩ := List.forall_mem_cons.1 hvalues
    obtain ⟨htext, hsql⟩ := List.forall_mem_cons.1 hsql
    rw [List.map_cons, List.map_cons, Context.links, hvalue]
    dsimp only [bind, Except.bind]
    rw [htext]
    dsimp only
    rw [ih hvalues hsql]
    rfl

theorem conditionOf_eq (hv : v.isSatisfied = false) (h : c.sqlOf e v = .ok sql) :
    c.conditionOf e v = .ok (some sql) := by
  cases v with
  | satisfied => cases hv
  | _ =>
    rw [conditionOf, h]
    · rfl
    · simp

theorem conditions_pieces {op : BoolOp} (hvalues : ∀ p ∈ ps, c.eval p.expr = .ok p.value)
    (hsatisfied : ∀ p ∈ ps, p.value.isSatisfied = false)
    (hsql : ∀ p ∈ ps, c.sqlOf p.expr p.value = .ok p.sql) :
    c.conditions op (ps.map (·.expr)) = .ok (some (ps.map (·.sql))) := by
  induction ps with
  | nil => rfl
  | cons p ps ih =>
    obtain ⟨hvalue, hvalues⟩ := List.forall_mem_cons.1 hvalues
    obtain ⟨htext, hsql⟩ := List.forall_mem_cons.1 hsql
    obtain ⟨hp, hsatisfied⟩ := List.forall_mem_cons.1 hsatisfied
    rw [List.map_cons, conditions, hvalue]
    dsimp only [bind, Except.bind]
    rw [conditionOf_eq hp htext]
    dsimp only
    rw [ih hvalues hsatisfied hsql]
    rfl

theorem linked_of_links {left : Expr} {first : String} {links : List (CmpOp × Piece)} (hne : links ≠ [])
    (hleft : c.eval left = .ok v) (hfirst : c.sqlOf left v = .ok first)
    (hvalues : ∀ l ∈ links, c.eval l.2.expr = .ok l.2.value)
    (hsql : ∀ l ∈ links, c.sqlOf l.2.expr l.2.value = .ok l.2.sql) :
    linked c left (links.map (·.1)) (links.map (·.2.expr)) =
      .ok (.text (chained (linkTexts first links))) := by
  rw [linked, if_neg (by simp [hne]), hleft]
  dsimp only [bind, Except.bind]
  rw [hfirst]
  dsimp only
  rw [links_pieces hvalues hsql]
  rfl

theorem eval_of_links {left : Expr} {first : String} {links : List (CmpOp × Piece)} (hne : links ≠ [])
    (hg : c.isGuaranteed (.compare left (links.map (·.1)) (links.map (·.2.expr))) = false)
    (hplain : ∀ op p, links = [(op, p)] → membershipOp? [op] = some op →
      listed? p.expr = none ∧ (∀ text, left ≠ .literal (.str text)) ∧
      ∀ id path, left = .name id → (c.scope.resolve id).isUnbound = true → p.value ≠ .path path)
    (hleft : c.eval left = .ok v) (hfirst : c.sqlOf left v = .ok first)
    (hvalues : ∀ l ∈ links, c.eval l.2.expr = .ok l.2.value)
    (hsql : ∀ l ∈ links, c.sqlOf l.2.expr l.2.value = .ok l.2.sql) :
    c.eval (.compare left (links.map (·.1)) (links.map (·.2.expr))) =
      .ok (.text (chained (linkTexts first links))) := by
  have hlinked := linked_of_links hne hleft hfirst hvalues hsql
  rw [eval_compare, if_neg (by simp [hg])]
  split
  · rename_i op right hop hright
    obtain ⟨p, rfl, rfl⟩ := plain_of_links (membershipOp_eq_some hop) hright
    obtain ⟨hlist, htext, hname⟩ := hplain op p rfl hop
    rw [hlist]
    dsimp only
    rw [← hlinked]
    exact testedIn_eq_linked (hvalues (op, p) List.mem_cons_self) htext hname
  · exact hlinked

/-- The conditions of a quantifier, of which the value of its element is the first. -/
theorem existential_of_pieces {element array : Expr} {target : String} {filters : List Expr}
    {p : FieldPath} (harray : c.eval array = .ok (.path p))
    (hps : ps.map (·.expr) = Expr.elementConditions target element filters)
    (hvalues : ∀ p ∈ ps, (c.within target).eval p.expr = .ok p.value)
    (hsatisfied : ∀ p ∈ ps, p.value.isSatisfied = false)
    (hsql : ∀ p ∈ ps, (c.within target).sqlOf p.expr p.value = .ok p.sql) :
    existential c element target array filters = .ok (.text (existence p target (ps.map (·.sql)))) := by
  rw [existential, harray]
  dsimp only [bind, Except.bind, pathOf]
  rw [Expr.elementConditions] at hps
  split at hps
  · rename_i hname
    rw [if_pos hname, ← hps, conditions_pieces hvalues hsatisfied hsql]
    rfl
  · rename_i hname
    rw [if_neg hname]
    cases ps with
    | nil => cases hps
    | cons q qs =>
      obtain ⟨rfl, rfl⟩ := List.cons.inj hps
      simp only [List.forall_mem_cons] at hvalues hsatisfied hsql
      rw [hvalues.1]
      dsimp only
      rw [conditionOf_eq hsatisfied.1 hsql.1]
      dsimp only
      rw [conditions_pieces hvalues.2 hsatisfied.2 hsql.2]
      rfl

/-- Without a guarantee, what the rules say is what is evaluated. -/
theorem Gives.eval (h : Gives c e v) (hc : c.guaranteed = none) : c.eval e = .ok v := by
  induction h with
  | literal => rfl
  | name => rfl
  | attr _ _ h ih =>
    rw [Context.eval, ih hc]
    exact h
  | item _ hindex ih =>
    rw [Context.eval, ih hc]
    simp [bind, Except.bind, itemOf, hindex]
  | binary _ _ hl hr h ihLeft ihRight =>
    rw [Context.eval, ihLeft hc, ihRight hc]
    simp [bind, Except.bind, hl, hr, h, pure, Except.pure]
  | number c h hnumber => simp [Context.eval, hnumber]
  | noneOf _ hcall hsql ih =>
    rw [Context.eval, ih hc]
    simp [bind, Except.bind, hcall, hsql, pure, Except.pure]
  | @signed c op e v sql _ hnumber hcall hsatisfied hsql ih =>
    rw [Context.eval, ih hc, if_neg (by simpa using hnumber), if_neg (by simpa using hcall)]
    cases v with
    | satisfied => cases hsatisfied
    | _ => simp [bind, Except.bind, signedOf, hsql, pure, Except.pure]
  | guaranteed h =>
    rw [isGuaranteed, hc] at h
    cases h
  | listed items hg hop hlist _ hl _ hsql ihLeft ihItems =>
    rw [eval_compare, if_neg (by simp [hg]), hop]
    dsimp only
    rw [hlist, ihLeft hc]
    dsimp only
    rw [compileAll_pieces (fun p hp => ihItems p hp hc) hsql]
    simp [bind, Except.bind, hl, pure, Except.pure]
  | pattern hop hlist _ hr ih =>
    rw [eval_compare, if_neg (by simp [isGuaranteed, hc]), hop]
    dsimp only
    rw [hlist]
    simp [bind, Except.bind, testedIn, ih hc, hr, pure, Except.pure]
  | chain links hne hops hoperands hg hplain _ hfirst _ hsql ihLeft ihLinks =>
    subst hops hoperands
    exact eval_of_links hne hg hplain (ihLeft hc) hfirst (fun l hl => ihLinks l hl hc) hsql
  | connected ps hps _ _ hvalues hsql ih =>
    have hsatisfied := fun p hp => (hvalues p hp).isSatisfied_of_none hc
    rw [Context.eval, ← hps, conditions_pieces (fun p hp => ih p hp hc) hsatisfied hsql,
      conditionTexts_of_none hc hvalues]
    rfl
  | absorbed _ h => cases h.isSatisfied_of_none hc
  | conditional _ _ _ ht hb ho ihTest ihBody ihOtherwise =>
    rw [Context.eval, ihTest hc, ihBody hc, ihOtherwise hc]
    simp [bind, Except.bind, ht, hb, ho, pure, Except.pure]
  | length hid _ ih =>
    subst hid
    rw [Context.eval]
    simp [bind, Except.bind, ih hc, pure, Except.pure]
  | @quantified c id e element array target filters p ps hid _ hparts hchain _ hps hvalues hsql
      ihArray ih =>
    subst hid
    have hanswer := existential_of_pieces (ihArray hc) hps (fun p hp => ih p hp rfl)
      (fun p hp => (hvalues p hp).isSatisfied_of_none rfl) hsql
    have hquantified : c.quantified [e] = some (.ok (.text (existence p target (ps.map (·.sql))))) := by
      rw [quantified_singleton, hparts]
      dsimp only
      rw [if_pos hchain, hanswer]
    rw [Context.eval, conditionTexts_of_none (c := c.within target) rfl hvalues]
    simp [Expr.quantifierName, hquantified]
  | @method c value label text pattern v r hpattern _ hr ih =>
    have hmethod : (endPattern? label "").isSome = true := by
      unfold endPattern? at hpattern ⊢
      grind
    rw [Context.eval, ih hc]
    simp [bind, Except.bind, hmethod, hr, hpattern, pure, Except.pure]
  | list ps hps _ hsql ih =>
    rw [Context.eval, ← hps, compileAll_pieces (fun p hp => ih p hp hc) hsql]
    rfl
  | tuple ps hps _ hsql ih =>
    rw [Context.eval, ← hps, compileAll_pieces (fun p hp => ih p hp hc) hsql]
    rfl

end Eval

/-! ## What is evaluated -/

/-- `Evaluates c e d x`: to evaluate `e` in the context `c`, the expression `x` is evaluated in the
context `d`. -/
inductive Evaluates : Context → Expr → Context → Expr → Prop
  | self (c : Context) (e : Expr) : Evaluates c e c e
  | part {c d : Context} {e p x : Expr} (hp : p ∈ e.ownParts) (h : Evaluates c p d x) :
      Evaluates c e d x
  | inside {c d : Context} {e element array p x : Expr} {target : String} {filters : List Expr}
      (hparts : e.comprehensionParts? = some (element, [⟨target, array, filters⟩]))
      (hp : p ∈ Expr.elementConditions target element filters)
      (h : Evaluates (c.within target) p d x) :
      Evaluates c (.call (.name Expr.quantifierName) [e] []) d x

section Evaluates

variable {c d : Context} {e p x : Expr} {v : Value}

theorem exists_gives_of_listed {right : Expr} {ps : List Piece}
    (hlist : listed? right = some (ps.map (·.expr)))
    (hvalues : ∀ p ∈ ps, Gives c p.expr p.value)
    (hsql : ∀ p ∈ ps, c.sqlOf p.expr p.value = .ok p.sql) :
    ∃ w sql, Gives c right w ∧ c.sqlOf right w = .ok sql := by
  obtain rfl | rfl | ⟨rfl, -⟩ := listed_cases hlist
  · exact ⟨_, _, .list ps rfl hvalues hsql, rfl⟩
  · exact ⟨_, _, .tuple ps rfl hvalues hsql, rfl⟩
  · exact ⟨_, _, .literal c .none, rfl⟩

/-- The operands of an operator have values with texts. -/
theorem Gives.operand {o : Expr} (h : Gives c e v) (hc : c.guaranteed = none) (ho : o ∈ e.operands) :
    ∃ w sql, Gives c o w ∧ c.sqlOf o w = .ok sql := by
  cases h with
  | binary hleft hright hl hr =>
    simp only [Expr.operands, List.mem_cons, List.not_mem_nil, or_false] at ho
    rcases ho with rfl | rfl
    · exact ⟨_, _, hleft, hl⟩
    · exact ⟨_, _, hright, hr⟩
  | guaranteed h =>
    rw [isGuaranteed, hc] at h
    cases h
  | listed items _ _ hlist hleft hl hitems hsql =>
    simp only [Expr.operands, List.mem_cons, List.not_mem_nil, or_false] at ho
    rcases ho with rfl | rfl
    · exact ⟨_, _, hleft, hl⟩
    · exact exists_gives_of_listed hlist hitems hsql
  | @pattern _ text _ _ _ _ _ _ hright hr =>
    simp only [Expr.operands, List.mem_cons, List.not_mem_nil, or_false] at ho
    rcases ho with rfl | rfl
    · exact ⟨_, _, .literal c (.str text), rfl⟩
    · exact ⟨_, _, hright, hr⟩
  | chain links _ _ hoperands _ _ hleft hfirst hlinks hsql =>
    rcases List.mem_cons.1 ho with rfl | ho
    · exact ⟨_, _, hleft, hfirst⟩
    · rw [← hoperands] at ho
      obtain ⟨l, hl, rfl⟩ := List.mem_map.1 ho
      exact ⟨_, _, hlinks l hl, hsql l hl⟩
  | method _ hvalue hr =>
    cases List.mem_singleton.1 ho
    exact ⟨_, _, hvalue, hr⟩
  | _ => cases ho

theorem Gives.part (h : Gives c e v) (hc : c.guaranteed = none) (hp : p ∈ e.ownParts) :
    ∃ w, Gives c p w := by
  have hoperand : p ∈ e.operands → ∃ w, Gives c p w := by
    intro ho
    obtain ⟨w, -, hw, -⟩ := h.operand hc ho
    exact ⟨w, hw⟩
  have hpiece : ∀ {ps : List Piece}, (∀ q ∈ ps, Gives c q.expr q.value) → p ∈ ps.map (·.expr) →
      ∃ w, Gives c p w := by
    intro ps hvalues hp
    obtain ⟨q, hq, rfl⟩ := List.mem_map.1 hp
    exact ⟨_, hvalues q hq⟩
  cases h with
  | literal => cases hp
  | name => cases hp
  | attr _ hvalue =>
    cases List.mem_singleton.1 hp
    exact ⟨_, hvalue⟩
  | item hvalue =>
    cases List.mem_singleton.1 hp
    exact ⟨_, hvalue⟩
  | @number _ e hparsed hnumber =>
    cases List.mem_singleton.1 hp
    cases p with
    | literal l => exact ⟨_, .literal c hparsed⟩
    | _ => cases hnumber
  | noneOf he =>
    cases List.mem_singleton.1 hp
    exact ⟨_, he⟩
  | signed he =>
    cases List.mem_singleton.1 hp
    exact ⟨_, he⟩
  | connected ps hps _ _ hvalues => exact hpiece hvalues (hps ▸ hp)
  | absorbed _ h => cases h.isSatisfied_of_none hc
  | conditional htest hbody hotherwise =>
    simp only [Expr.ownParts, List.mem_cons, List.not_mem_nil, or_false] at hp
    rcases hp with rfl | rfl | rfl
    · exact ⟨_, htest⟩
    · exact ⟨_, hbody⟩
    · exact ⟨_, hotherwise⟩
  | length _ he =>
    obtain rfl : p = _ := by simpa [Expr.ownParts, he.comprehensionParts] using hp
    exact ⟨_, he⟩
  | quantified ps _ _ hparts _ harray =>
    obtain rfl : p = _ := by simpa [Expr.ownParts, hparts] using hp
    exact ⟨_, harray⟩
  | list ps hps hvalues => exact hpiece hvalues (hps ▸ hp)
  | tuple ps hps hvalues => exact hpiece hvalues (hps ▸ hp)
  | _ => exact hoperand hp

theorem Gives.condition {element array : Expr} {target : String} {filters : List Expr}
    (h : Gives c (.call (.name Expr.quantifierName) [e] []) v)
    (hparts : e.comprehensionParts? = some (element, [⟨target, array, filters⟩]))
    (hp : p ∈ Expr.elementConditions target element filters) : ∃ w, Gives (c.within target) p w := by
  cases h with
  | length hid => exact absurd hid (by decide)
  | quantified ps _ _ hparts' _ _ hps hvalues =>
    rw [hparts] at hparts'
    cases hparts'
    rw [← hps] at hp
    obtain ⟨q, hq, rfl⟩ := List.mem_map.1 hp
    exact ⟨_, hvalues q hq⟩

/-- What is evaluated has a value, and nothing is guaranteed where it stands. -/
theorem Evaluates.gives (hx : Evaluates c e d x) (hc : c.guaranteed = none) (h : Gives c e v) :
    d.guaranteed = none ∧ ∃ w, Gives d x w := by
  induction hx generalizing v with
  | self => exact ⟨hc, v, h⟩
  | part hp _ ih =>
    obtain ⟨w, hw⟩ := h.part hc hp
    exact ih hc hw
  | inside hparts hp _ ih =>
    obtain ⟨w, hw⟩ := h.condition hparts hp
    exact ih rfl hw

theorem Evaluates.mem_nodes (hx : Evaluates c e d x) : x ∈ e.nodes := by
  induction hx with
  | self => exact Expr.mem_nodes_self _
  | part hp _ ih => exact Expr.mem_nodes_of_ownParts hp ih
  | inside hparts hp _ ih =>
    simp only [Expr.nodes, Expr.nodesOfAll, List.mem_cons, List.mem_append]
    exact .inr (.inl (.inr (.inl (Expr.mem_nodes_of_condition hparts hp ih))))

end Evaluates

/-! ## Names with dots -/

/-- Whether a value is a document or a part of one. -/
def Value.isPlace : Value → Bool
  | path _ => true
  | table _ => true
  | _ => false

/-- The texts in a value are words with dots between them, of which the first has the property `P`. -/
def Value.Dotted (P : String → Prop) (c : Context) : Value → Prop
  | text sql => Sql.Dotted P (fun _ => True) sql
  | path p => Sql.Dotted P (fun _ => True) p.root.document
  | bound _ => True
  | table name => Sql.Dotted P (fun _ => True) (c.rootOf name).document
  | sequence _ => False
  | satisfied => False

section Dotted

variable {P : String → Prop} {c : Context} {e : Expr} {v w : Value} {id : String}

theorem dotted_table (hcolumn : P documentColumn) (h : IsWordText id) (hP : P id) (qualified : Bool) :
    Dotted P (fun _ => True) (Root.table id qualified).document := by
  have hword : IsWordText documentColumn := ⟨by decide, by decide⟩
  cases qualified with
  | true => exact .label (.word h hP) hword trivial
  | false => exact .word hword hcolumn

theorem dotted_element (h : IsWordText id) (hP : P id) :
    Dotted P (fun _ => True) (Root.element id).document := by
  have hvalue : IsWordText "value" := ⟨by decide, by decide⟩
  have htext : (Root.element id).document = id ++ "." ++ "value" := by
    rw [String.append_assoc]
    rfl
  rw [htext]
  exact .label (.word h hP) hvalue trivial

theorem dotted_attributeOf {whole : Expr} {label : String} (hlabel : IsWordText label)
    (hv : v.Dotted P c) (h : c.attributeOf whole label v = .ok w) : w.Dotted P c := by
  cases v with
  | text sql =>
    cases h
    exact .label hv hlabel trivial
  | path p =>
    cases h
    exact hv
  | bound value =>
    simp only [attributeOf] at h
    split at h
    · cases h
      trivial
    · cases h
  | table name =>
    cases h
    exact hv
  | sequence items => cases hv
  | satisfied => cases hv

/-- Attributes and indices of a name. -/
theorem Gives.dotted (hcolumn : P documentColumn) (h : Gives c e v) (hroot : e.root? = some id)
    (hP : P id) : v.Dotted P c := by
  induction h with
  | name c h =>
    cases hroot
    have hword := isWordText_of_isIdentifier h.1
    unfold Context.named
    split
    · exact dotted_element hword hP
    · trivial
    · exact dotted_table hcolumn hword hP _
    · exact .word hword hP
  | attr hlabel _ h ih => exact dotted_attributeOf (isWordText_of_isIdentifier hlabel.1) (ih hroot) h
  | item _ _ ih => exact ih hroot
  | _ => cases hroot

theorem isPlace_of_attributeOf {whole : Expr} {label : String} (h : c.attributeOf whole label v = .ok w)
    (hw : w.isPlace = true) : v.isPlace = true := by
  cases v with
  | path p => rfl
  | table name => rfl
  | text sql =>
    cases h
    cases hw
  | bound value =>
    simp only [attributeOf] at h
    split at h
    · cases h
      cases hw
    · cases h
  | sequence items => cases h
  | satisfied => cases h

/-- Documents and their parts are attributes and indices of a name. -/
theorem Gives.exists_root (h : Gives c e v) (hv : v.isPlace = true) : ∃ id, e.root? = some id := by
  induction h with
  | @name c id h => exact ⟨id, rfl⟩
  | attr _ _ h ih => exact ih (isPlace_of_attributeOf h hv)
  | item _ _ ih => exact ih rfl
  | @connected c op operands ps =>
    rcases hconditions : conditionTexts ps with _ | ⟨x, _ | ⟨y, rest⟩⟩ <;> rw [hconditions] at hv <;>
      cases hv
  | _ => cases hv

end Dotted

/-! ## Primaries -/

/-- The primaries of SQL. -/
inductive IsPrimary : String → Prop
  | string (s : String) : IsPrimary (quote s)
  /-- A name or a number. -/
  | dotted {text : String} (h : Dotted (fun _ => True) (fun _ => True) text) : IsPrimary text
  | call {f arguments : String} (hf : IsWordText f) (h : Fragment arguments) :
      IsPrimary (f ++ "(" ++ arguments ++ ")")
  | existence {body : String} (h : Fragment body) : IsPrimary ("EXISTS (" ++ body ++ ")")
  | choice {body : String} (h : Fragment body) : IsPrimary ("CASE " ++ body ++ " END")
  | group {body : String} (h : Fragment body) : IsPrimary ("(" ++ body ++ ")")
  | signed {s text : String} (hs : s ∈ ["-", "+", "~"]) (h : IsPrimary text) : IsPrimary (s ++ text)

theorem fragment_linkTexts {first : String} (hfirst : Fragment first) {links : List (CmpOp × Piece)}
    (hlinks : ∀ l ∈ links, Fragment l.2.sql) : ∀ t ∈ linkTexts first links, Fragment t := by
  induction links generalizing first with
  | nil => simp [linkTexts]
  | cons l links ih =>
    obtain ⟨hl, hlinks⟩ := List.forall_mem_cons.1 hlinks
    exact List.forall_mem_cons.2 ⟨fragment_link l.1 hfirst hl, ih hl hlinks⟩

/-- The texts in the value that the rules give are fragments. -/
theorem Gives.proper {c : Context} {e : Expr} {v : Value} (h : Gives c e v) : v.Proper := by
  have hpieces : ∀ {d : Context} {ps : List Piece}, (∀ p ∈ ps, p.value.Proper) →
      (∀ p ∈ ps, d.sqlOf p.expr p.value = .ok p.sql) → ∀ t ∈ ps.map (·.sql), Fragment t :=
    fun hvalues hsql => List.forall_mem_map.2 fun p hp => fragment_sqlOf (hvalues p hp) (hsql p hp)
  have hconditions : ∀ {d : Context} {ps : List Piece}, (∀ p ∈ ps, p.value.Proper) →
      (∀ p ∈ ps, d.sqlOf p.expr p.value = .ok p.sql) → ∀ t ∈ conditionTexts ps, Fragment t := by
    intro d ps hvalues hsql t ht
    obtain ⟨p, hp, rfl⟩ := mem_conditionTexts ht
    exact fragment_sqlOf (hvalues p hp) (hsql p hp)
  induction h with
  | literal c h => exact Literal.fragment_sql _
  | name c h => exact proper_named h
  | attr hlabel _ h ih => exact proper_attributeOf hlabel ih h
  | item _ _ ih => exact ih
  | binary _ _ hl hr h ihLeft ihRight =>
    exact fragment_arithmetic (fragment_sqlOf ihLeft hl) (fragment_sqlOf ihRight hr) h
  | number c h hnumber => exact (isWord_numberSql h hnumber).fragment_minus
  | @noneOf c e v sql _ _ hsql ih =>
    exact .ofParts [.word "NOT ", .hole sql] (by simp [Part.text]) rfl
      (by simp [fragment_sqlOf ih hsql])
  | @signed c op e v sql _ _ _ _ hsql ih =>
    exact .ofParts [.word (sign op), .word "(", .hole sql, .word ")"] (by simp [Part.text])
      (by cases op <;> rfl) (by simp [fragment_sqlOf ih hsql])
  | guaranteed => trivial
  | listed items _ _ _ _ hl _ hsql ihLeft ihItems =>
    exact proper_listTest _ (fragment_sqlOf ihLeft hl) (hpieces ihItems hsql)
  | pattern _ _ _ hr ih => exact proper_patternTest (fragment_sqlOf ih hr) _ _
  | @chain c left ops operands v first links _ _ _ _ _ _ hfirst _ hsql ihLeft ihLinks =>
    exact fragment_chained (fragment_linkTexts (fragment_sqlOf ihLeft hfirst) fun l hl =>
      fragment_sqlOf (ihLinks l hl) (hsql l hl))
  | connected ps _ _ _ _ hsql ih => exact proper_connected _ (hconditions ih hsql)
  | absorbed => trivial
  | @conditional c test body otherwise u v w t b o _ _ _ ht hb ho ihTest ihBody ihOtherwise =>
    exact .ofParts [.word "CASE WHEN ", .hole t, .word " THEN ", .hole b, .word " ELSE ", .hole o,
      .word " END"] (by simp [Part.text]) rfl
      (by simp [fragment_sqlOf ihTest ht, fragment_sqlOf ihBody hb, fragment_sqlOf ihOtherwise ho])
  | length _ _ ih => exact FieldPath.fragment_length ih
  | quantified ps _ htarget _ _ _ _ _ hsql ihArray ih =>
    exact fragment_existence ihArray (isWord_of_isIdentifier htarget.1).fragment (hconditions ih hsql)
  | method _ _ hr ih => exact proper_patternTest (fragment_sqlOf ih hr) _ _
  | list ps _ _ hsql ih => exact hpieces ih hsql
  | tuple ps _ _ hsql ih => exact hpieces ih hsql

section Texts

variable {l r sql : String} {texts : List String}

theorem IsPrimary.congr {text : String} (h : IsPrimary text) (heq : sql.toList = text.toList) :
    IsPrimary sql := by
  rwa [String.toList_inj.1 heq]

theorem isPrimary_arithmetic {op : BinaryOp} (hl : Fragment l) (hr : Fragment r)
    (h : arithmetic? op l r = some sql) : IsPrimary sql := by
  have hbetween : IsPrimary ("(" ++ l ++ " " ++ op.symbol ++ " " ++ r ++ ")") := by
    have hbody : Fragment (l ++ (" " ++ op.symbol ++ " ") ++ r) :=
      (hl.append (by cases op <;> exact fun _ => rfl)).append hr
    exact (IsPrimary.group hbody).congr (by simp)
  cases op with
  | pow =>
    cases h
    have hword : IsWordText "POW" := ⟨by decide, by decide⟩
    have hbody : Fragment (l ++ ", " ++ r) := (hl.append fun _ => rfl).append hr
    exact (IsPrimary.call hword hbody).congr (by simp)
  | floorDiv =>
    cases h
    have hword : IsWordText "CAST" := ⟨by decide, by decide⟩
    have hbody : Fragment ("(" ++ l ++ ") / (" ++ r ++ ") AS INTEGER") :=
      .ofParts [.word "(", .hole l, .word ") / (", .hole r, .word ") AS INTEGER"] (by simp [Part.text])
        rfl (by simp [hl, hr])
    exact (IsPrimary.call hword hbody).congr (by simp)
  | bitXor =>
    cases h
    have hbody : Fragment ("(" ++ l ++ " | " ++ r ++ ") - (" ++ l ++ " & " ++ r ++ ")") :=
      .ofParts [.word "(", .hole l, .word " | ", .hole r, .word ") - (", .hole l, .word " & ", .hole r,
        .word ")"] (by simp [Part.text]) rfl (by simp [hl, hr])
    exact (IsPrimary.group hbody).congr (by simp)
  | matMul => cases h
  | _ =>
    cases h
    exact hbetween

theorem isPrimary_link (op : CmpOp) (hl : Fragment l) (hr : Fragment r) :
    IsPrimary ("(" ++ l ++ " " ++ comparison op ++ " " ++ r ++ ")") := by
  have hbody : Fragment (l ++ (" " ++ comparison op ++ " ") ++ r) :=
    (hl.append (by cases op <;> exact fun _ => rfl)).append hr
  exact (IsPrimary.group hbody).congr (by simp)

theorem isPrimary_chained {links : List (CmpOp × Piece)} (hl : Fragment l)
    (hlinks : ∀ p ∈ links, Fragment p.2.sql) : IsPrimary (chained (linkTexts l links)) := by
  have htexts := fragment_linkTexts hl hlinks
  unfold chained
  split
  · rename_i link hlink
    cases links with
    | nil => cases hlink
    | cons p rest =>
      obtain ⟨rfl, -⟩ := List.cons.inj hlink
      exact isPrimary_link p.1 hl (hlinks p List.mem_cons_self)
  · exact .group (fragment_intercalate (fun _ => rfl) htexts)

theorem isPrimary_listTest (op : CmpOp) (hl : Fragment l) (h : ∀ t ∈ texts, Fragment t) :
    ∃ sql, listTest l op texts = .text sql ∧ IsPrimary sql := by
  have hbody : Fragment (l ++ " " ++ comparison op ++ " (" ++ Sql.sequence texts ++ ")") :=
    .ofParts [.hole l, .word " ", .word (comparison op), .word " (", .hole (Sql.sequence texts),
      .word ")"] (by simp [Part.text]) (by cases op <;> rfl) (by simp [hl, fragment_sequence h])
  exact ⟨_, rfl, (IsPrimary.group hbody).congr (by simp)⟩

theorem isPrimary_patternTest (hl : Fragment l) (negated : Bool) (pattern : String) :
    ∃ sql, patternTest l negated pattern = .text sql ∧ IsPrimary sql := by
  have hword : Fragment (if negated then " NOT LIKE " else " LIKE ") := by
    cases negated <;> exact fun _ => rfl
  have hbody := (hl.append hword).append (fragment_quote pattern)
  exact ⟨_, rfl, (IsPrimary.group hbody).congr (by simp)⟩

theorem isPrimary_existence {array : FieldPath} {target : String}
    (harray : Fragment array.root.document) (ht : Fragment target) (h : ∀ t ∈ texts, Fragment t) :
    IsPrimary (existence array target texts) := by
  have hexpansion := FieldPath.fragment_expansion harray ht
  have hconditions := proper_connected .and h
  unfold existence
  split
  · rename_i condition hc
    rw [hc] at hconditions
    replace hconditions : Fragment condition := hconditions
    have hbody : Fragment ("SELECT 1 FROM " ++ array.expansion target ++ " WHERE " ++ condition) :=
      .ofParts [.word "SELECT 1 FROM ", .hole (array.expansion target), .word " WHERE ",
        .hole condition] (by simp [Part.text]) rfl (by simp [hexpansion, hconditions])
    exact (IsPrimary.existence hbody).congr (by simp)
  · have hbody : Fragment ("SELECT 1 FROM " ++ array.expansion target) :=
      .ofParts [.word "SELECT 1 FROM ", .hole (array.expansion target)] (by simp [Part.text]) rfl
        (by simp [hexpansion])
    exact (IsPrimary.existence hbody).congr (by simp)

theorem isPrimary_literal (l : Literal) : IsPrimary l.sql := by
  have hconstant : ∀ {text}, IsConstant text → IsPrimary text :=
    fun h => .dotted (h.mono (fun _ _ => trivial) fun _ _ => trivial)
  rcases sql_literal l with ⟨s, hs⟩ | h | ⟨text, htext, h⟩
  · rw [hs]
    exact .string s
  · exact hconstant h
  · rw [htext]
    exact .signed (by simp) (hconstant h)

end Texts

section Primaries

variable {c : Context} {e : Expr} {v : Value} {sql : String}

theorem fragment_pieces {ps : List Piece} (hvalues : ∀ p ∈ ps, Gives c p.expr p.value)
    (hsql : ∀ p ∈ ps, c.sqlOf p.expr p.value = .ok p.sql) : ∀ t ∈ ps.map (·.sql), Fragment t :=
  List.forall_mem_map.2 fun p hp => fragment_sqlOf (hvalues p hp).proper (hsql p hp)

theorem Value.Dotted.isPrimary {P : String → Prop} (hv : v.Dotted P c) (hproper : v.Proper)
    (h : c.sqlOf e v = .ok sql) : IsPrimary sql := by
  have hdotted : ∀ {text}, Sql.Dotted P (fun _ => True) text → IsPrimary text :=
    fun h => .dotted (h.mono (fun _ _ => trivial) fun _ => id)
  cases v with
  | text s =>
    cases h
    exact hdotted hv
  | path p =>
    cases h
    unfold FieldPath.field
    split
    · exact hdotted hv
    · have hword : IsWordText "json_extract" := ⟨by decide, by decide⟩
      exact (IsPrimary.call hword (FieldPath.fragment_arguments hproper)).congr (by simp)
  | bound value =>
    cases value with
    | constant l =>
      cases h
      exact isPrimary_literal l
    | holder name members => cases h
  | table name =>
    cases h
    exact hdotted hv
  | sequence items => cases hv
  | satisfied => cases hv

/-- The text of an expression is a primary, if it is neither a negation nor an attribute of finished
SQL. -/
theorem Gives.isPrimary (h : Gives c e v) (hc : c.guaranteed = none) (hsql : c.sqlOf e v = .ok sql)
    (hnegation : e.isNegation = false) (hrooted : e.isRooted = true) : IsPrimary sql := by
  have hname : (∃ id, e.root? = some id) → IsPrimary sql := by
    rintro ⟨id, hroot⟩
    exact (h.dotted (P := fun _ => True) trivial hroot trivial).isPrimary h.proper hsql
  have hplace : v.isPlace = true → IsPrimary sql := fun hv => hname (h.exists_root hv)
  cases h with
  | literal c h =>
    cases hsql
    exact isPrimary_literal _
  | name c h => exact hname ⟨_, rfl⟩
  | attr => exact hname (Option.isSome_iff_exists.1 hrooted)
  | item => exact hplace rfl
  | binary hleft hright hl hr h =>
    cases hsql
    exact isPrimary_arithmetic (fragment_sqlOf hleft.proper hl) (fragment_sqlOf hright.proper hr) h
  | @number _ e h hnumber =>
    cases hsql
    cases e with
    | literal l => exact .signed (by simp) (isPrimary_literal l)
    | _ => cases hnumber
  | noneOf => cases hnegation
  | @signed _ op e v text he _ _ _ htext =>
    cases hsql
    have hgroup : IsPrimary ("(" ++ text ++ ")") := .group (fragment_sqlOf he.proper htext)
    have hsign : sign op ∈ ["-", "+", "~"] := by
      cases op with
      | not => cases hnegation
      | _ => decide
    exact (IsPrimary.signed hsign hgroup).congr (by simp)
  | guaranteed h =>
    rw [isGuaranteed, hc] at h
    cases h
  | listed items _ _ _ hleft hl hitems htexts =>
    obtain ⟨text, heq, htext⟩ := isPrimary_listTest _ (fragment_sqlOf hleft.proper hl)
      (fragment_pieces hitems htexts)
    rw [heq] at hsql
    cases hsql
    exact htext
  | pattern _ _ hright hr =>
    cases hsql
    obtain ⟨text, heq, htext⟩ := isPrimary_patternTest (fragment_sqlOf hright.proper hr) _ _
    cases heq
    exact htext
  | chain links _ _ _ _ _ hleft hfirst hlinks htexts =>
    cases hsql
    exact isPrimary_chained (fragment_sqlOf hleft.proper hfirst)
      fun l hl => fragment_sqlOf (hlinks l hl).proper (htexts l hl)
  | @connected _ op operands ps _ htwo _ hvalues htexts =>
    rw [conditionTexts_of_none hc hvalues] at hsql
    have hfragments := fragment_pieces hvalues htexts
    have hsep : Fragment (" " ++ Sql.connective op ++ " ") := by cases op <;> exact fun _ => rfl
    rcases ps with _ | ⟨p, _ | ⟨q, rest⟩⟩
    · cases htwo
    · simp at htwo
    · cases hsql
      exact .group (fragment_intercalate hsep hfragments)
  | absorbed _ h => cases h.isSatisfied_of_none hc
  | @conditional _ _ _ _ u v w t b o htest hbody hotherwise ht hb ho =>
    cases hsql
    have hfragment : Fragment ("WHEN " ++ t ++ " THEN " ++ b ++ " ELSE " ++ o) :=
      .ofParts [.word "WHEN ", .hole t, .word " THEN ", .hole b, .word " ELSE ", .hole o]
        (by simp [Part.text]) rfl (by simp [fragment_sqlOf htest.proper ht,
          fragment_sqlOf hbody.proper hb, fragment_sqlOf hotherwise.proper ho])
    exact (IsPrimary.choice hfragment).congr (by simp)
  | length _ he =>
    cases hsql
    have hword : IsWordText "json_array_length" := ⟨by decide, by decide⟩
    unfold FieldPath.length
    exact (IsPrimary.call hword (FieldPath.fragment_arguments he.proper)).congr (by simp)
  | quantified ps _ htarget _ _ harray _ hvalues htexts =>
    cases hsql
    rw [conditionTexts_of_none rfl hvalues]
    exact isPrimary_existence harray.proper (isWord_of_isIdentifier htarget.1).fragment
      (fragment_pieces hvalues htexts)
  | method _ hvalue hr =>
    cases hsql
    obtain ⟨text, heq, htext⟩ := isPrimary_patternTest (fragment_sqlOf hvalue.proper hr) false _
    cases heq
    exact htext
  | list ps _ hvalues htexts =>
    cases hsql
    exact .group (fragment_sequence (fragment_pieces hvalues htexts))
  | tuple ps _ hvalues htexts =>
    cases hsql
    exact .group (fragment_sequence (fragment_pieces hvalues htexts))

theorem dotted_chars {P Q : String → Prop} {text : String} (h : Dotted P Q text) :
    ∀ ch ∈ text.toList, isWordChar ch = true ∨ ch = '.' := by
  induction h with
  | word h => exact fun ch hch => .inl (h.chars ch hch)
  | label _ hlabel _ ih =>
    intro ch hch
    simp only [String.toList_append, List.mem_append] at hch
    rcases hch with (hch | hch) | hch
    · exact ih ch hch
    · exact .inr (by simpa using hch)
    · exact .inl (hlabel.chars ch hch)

/-- No primary starts with `NOT` and a blank. -/
theorem not_isPrimary_append (text : String) : ¬ IsPrimary ("NOT " ++ text) := by
  have hlist : ("NOT " ++ text).toList = 'N' :: 'O' :: 'T' :: ' ' :: text.toList := by simp
  generalize "NOT " ++ text = whole at hlist
  intro h
  cases h with
  | string s => simp [quote] at hlist
  | dotted h =>
    have hblank := dotted_chars h ' ' (by simp [hlist])
    exact absurd hblank (by decide)
  | @call f arguments hf =>
    -- The parenthesis follows the longest word at the start.
    have hspan := congrArg (List.dropWhile isWordChar) hlist
    have hdrop : f.toList.dropWhile isWordChar = [] := List.dropWhile_eq_nil_iff.2 hf.chars
    simp only [String.toList_append, List.append_assoc, List.dropWhile_append, hdrop] at hspan
    simp [isWordChar] at hspan
  | existence => simp at hlist
  | choice => simp at hlist
  | group => simp at hlist
  | signed hs =>
    simp only [List.mem_cons, List.not_mem_nil, or_false] at hs
    rcases hs with rfl | rfl | rfl <;> simp at hlist

theorem Gives.not_isPrimary (h : Gives c e v) (hsql : c.sqlOf e v = .ok sql)
    (hnegation : e.isNegation = true) : ¬ IsPrimary sql := by
  cases h with
  | noneOf =>
    cases hsql
    exact not_isPrimary_append _
  | @signed _ op e v text =>
    cases op with
    | not =>
      cases hsql
      rw [String.append_assoc, String.append_assoc]
      exact not_isPrimary_append _
    | _ => cases hnegation
  | _ => cases hnegation

end Primaries

end Sql

end DocQuery
