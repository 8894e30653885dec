import DocQuery.Proofs.Parsed
import DocQuery.Proofs.Evaluation

/-! # How values come about

The value of a tree of the grammar comes about from the values of its parts by one of a few rules.
Every operand that becomes part of a text is evaluated in the context of the whole, but for the
conditions on the elements of an array.

* `Sql.Gives c e v`: in the context `c` the expression `e` has the value `v`, by rules.
* `Parsed.gives`: evaluation follows the rules.
-/

set_option autoImplicit false

namespace DocQuery.Sql

open Context Token

/-- Whether a value is a condition that the statement guarantees. -/
def Value.isSatisfied : Value → Bool
  | satisfied => true
  | _ => false

/-- An expression with its value and the SQL for it. -/
structure Piece where
  expr : Expr
  value : Value
  sql : String

/-- The conditions that are left of several pieces. -/
def conditionTexts (ps : List Piece) : List String :=
  (ps.filter (!·.value.isSatisfied)).map (·.sql)

/-- The texts of the links of a comparison chain; `current` is the operand before them. -/
def linkTexts : String → List (CmpOp × Piece) → List String
  | _, [] => []
  | current, (op, p) :: links =>
    ("(" ++ current ++ " " ++ comparison op ++ " " ++ p.sql ++ ")") :: linkTexts p.sql links

/-- In the context `c` the tree `e` of the grammar has the value `v`. -/
inductive Gives : Context → Expr → Value → Prop
  | literal (c : Context) {l : Literal} (h : Parsed (.literal l)) : Gives c (.literal l) (.text l.sql)
  | name (c : Context) {id : String} (h : IsName id) : Gives c (.name id) (c.named id)
  | attr {c : Context} {value : Expr} {label : String} {v w : Value} (hlabel : IsName label)
      (hvalue : Gives c value v) (h : c.attributeOf (.attr value label) label v = .ok w) :
      Gives c (.attr value label) w
  | item {c : Context} {value index : Expr} {p : FieldPath} {s : Segment}
      (hvalue : Gives c value (.path p)) (hindex : segment? index = some s) :
      Gives c (.subscript value index) (.path (p.push s))
  | binary {c : Context} {left right : Expr} {op : BinaryOp} {v w : Value} {l r sql : String}
      (hleft : Gives c left v) (hright : Gives c right w) (hl : c.sqlOf left v = .ok l)
      (hr : c.sqlOf right w = .ok r) (h : arithmetic? op l r = some sql) :
      Gives c (.binary left op right) (.text sql)
  | number (c : Context) {e : Expr} (h : Parsed e) (hnumber : e.isNumber = true) :
      Gives c (.unary .neg e) (.text ("-" ++ numberSql e))
  | noneOf {c : Context} {e : Expr} {v : Value} {sql : String} (he : Gives c e v)
      (hcall : e.quantifierCall?.isSome = true) (hsql : c.sqlOf e v = .ok sql) :
      Gives c (.unary .not e) (.text ("NOT " ++ sql))
  | signed {c : Context} {op : UnaryOp} {e : Expr} {v : Value} {sql : String} (he : Gives c e v)
      (hnumber : ¬ (op = .neg ∧ e.isNumber = true))
      (hcall : ¬ (op = .not ∧ e.quantifierCall?.isSome = true))
      (hsatisfied : v.isSatisfied = false) (hsql : c.sqlOf e v = .ok sql) :
      Gives c (.unary op e) (.text (sign op ++ "(" ++ sql ++ ")"))
  | guaranteed {c : Context} {left : Expr} {ops : List CmpOp} {operands : List Expr}
      (h : c.isGuaranteed (.compare left ops operands) = true) :
      Gives c (.compare left ops operands) .satisfied
  | listed {c : Context} {left right : Expr} {op : CmpOp} {v : Value} {l : String}
      (items : List Piece) (hg : c.isGuaranteed (.compare left [op] [right]) = false)
      (hop : membershipOp? [op] = some op) (hlist : listed? right = some (items.map (·.expr)))
      (hleft : Gives c left v) (hl : c.sqlOf left v = .ok l)
      (hitems : ∀ p ∈ items, Gives c p.expr p.value)
      (hsql : ∀ p ∈ items, c.sqlOf p.expr p.value = .ok p.sql) :
      Gives c (.compare left [op] [right]) (listTest l op (items.map (·.sql)))
  | pattern {c : Context} {text : String} {right : Expr} {op : CmpOp} {v : Value} {r : String}
      (hop : membershipOp? [op] = some op) (hlist : listed? right = none)
      (hright : Gives c right v) (hr : c.sqlOf right v = .ok r) :
      Gives c (.compare (.literal (.str text)) [op] [right])
        (patternTest r (op = .notElemOf) ("%" ++ text ++ "%"))
  /-- No list and no pattern is on the right, nor a path beside a name that stands for nothing. -/
  | chain {c : Context} {left : Expr} {ops : List CmpOp} {operands : List Expr} {v : Value}
      {first : String} (links : List (CmpOp × Piece)) (hne : links ≠ [])
      (hops : links.map (·.1) = ops) (hoperands : links.map (·.2.expr) = operands)
      (hg : c.isGuaranteed (.compare left ops operands) = false)
      (hplain : ∀ op p, links = [(op, p)] → membershipOp? [op] = some op →
        listed? p.expr = none ∧ (∀ text, left ≠ .literal (.str text)) ∧
        ∀ id path, left = .name id → (c.scope.resolve id).isUnbound = true → p.value ≠ .path path)
      (hleft : Gives c left v) (hfirst : c.sqlOf left v = .ok first)
      (hlinks : ∀ l ∈ links, Gives c l.2.expr l.2.value)
      (hsql : ∀ l ∈ links, c.sqlOf l.2.expr l.2.value = .ok l.2.sql) :
      Gives c (.compare left ops operands) (.text (chained (linkTexts first links)))
  | connected {c : Context} {op : BoolOp} {operands : List Expr} (ps : List Piece)
      (hps : ps.map (·.expr) = operands) (htwo : 2 ≤ ps.length)
      (hor : op = .or → ∀ p ∈ ps, p.value.isSatisfied = false)
      (hvalues : ∀ p ∈ ps, Gives c p.expr p.value)
      (hsql : ∀ p ∈ ps, c.sqlOf p.expr p.value = .ok p.sql) :
      Gives c (.boolean op operands) (connected op (conditionTexts ps))
  | absorbed {c : Context} {operands : List Expr} {e : Expr} (he : e ∈ operands)
      (h : Gives c e .satisfied) : Gives c (.boolean .or operands) .satisfied
  | conditional {c : Context} {test body otherwise : Expr} {u v w : Value} {t b o : String}
      (htest : Gives c test u) (hbody : Gives c body v) (hotherwise : Gives c otherwise w)
      (ht : c.sqlOf test u = .ok t) (hb : c.sqlOf body v = .ok b)
      (ho : c.sqlOf otherwise w = .ok o) :
      Gives c (.conditional test body otherwise)
        (.text ("CASE WHEN " ++ t ++ " THEN " ++ b ++ " ELSE " ++ o ++ " END"))
  | length {c : Context} {id : String} {e : Expr} {p : FieldPath} (hid : id = "len")
      (he : Gives c e (.path p)) : Gives c (.call (.name id) [e] []) (.text p.length)
  | quantified {c : Context} {id : String} {e element array : Expr} {target : String}
      {filters : List Expr} {p : FieldPath} (ps : List Piece) (hid : id = Expr.quantifierName)
      (htarget : IsName target)
      (hparts : e.comprehensionParts? = some (element, [⟨target, array, filters⟩]))
      (hchain : array.chain?.isSome = true) (harray : Gives c array (.path p))
      (hps : ps.map (·.expr) = Expr.elementConditions target element filters)
      (hvalues : ∀ p ∈ ps, Gives (c.within target) p.expr p.value)
      (hsql : ∀ p ∈ ps, (c.within target).sqlOf p.expr p.value = .ok p.sql) :
      Gives c (.call (.name id) [e] []) (.text (existence p target (conditionTexts ps)))
  | method {c : Context} {value : Expr} {label text pattern : String} {v : Value} {r : String}
      (hpattern : endPattern? label text = some pattern) (hvalue : Gives c value v)
      (hr : c.sqlOf value v = .ok r) :
      Gives c (.call (.attr value label) [.literal (.str text)] []) (patternTest r false pattern)
  | list {c : Context} {items : List Expr} (ps : List Piece) (hps : ps.map (·.expr) = items)
      (hvalues : ∀ p ∈ ps, Gives c p.expr p.value)
      (hsql : ∀ p ∈ ps, c.sqlOf p.expr p.value = .ok p.sql) :
      Gives c (.list items) (.sequence (ps.map (·.sql)))
  | tuple {c : Context} {items : List Expr} (ps : List Piece) (hps : ps.map (·.expr) = items)
      (hvalues : ∀ p ∈ ps, Gives c p.expr p.value)
      (hsql : ∀ p ∈ ps, c.sqlOf p.expr p.value = .ok p.sql) :
      Gives c (.tuple items) (.sequence (ps.map (·.sql)))

/-! ## Lists of expressions -/

variable {c : Context} {e : Expr} {es : List Expr}

theorem exists_pieces_of_compileAll {items : List String} (h : c.compileAll es = .ok items) :
    ∃ ps : List Piece, ps.map (·.expr) = es ∧ ps.map (·.sql) = items ∧
      (∀ p ∈ ps, c.eval p.expr = .ok p.value) ∧ ∀ p ∈ ps, c.sqlOf p.expr p.value = .ok p.sql := by
  induction es generalizing items with
  | nil =>
    cases h
    exact ⟨[], rfl, rfl, by simp, by simp⟩
  | cons e es ih =>
    rw [compileAll] at h
    obtain ⟨v, hv, h⟩ := bind_eq_ok h
    obtain ⟨sql, hsql, h⟩ := bind_eq_ok h
    obtain ⟨rest, hrest, h⟩ := bind_eq_ok h
    cases h
    obtain ⟨ps, rfl, rfl, hvalues, htexts⟩ := ih hrest
    exact ⟨⟨e, v, sql⟩ :: ps, rfl, rfl, List.forall_mem_cons.2 ⟨hv, hvalues⟩,
      List.forall_mem_cons.2 ⟨hsql, htexts⟩⟩

theorem exists_pieces_of_links {ops : List CmpOp} (hlength : ops.length = es.length)
    {current : String} {items : List String} (h : c.links current ops es = .ok items) :
    ∃ links : List (CmpOp × Piece), links.map (·.1) = ops ∧ links.map (·.2.expr) = es ∧
      linkTexts current links = items ∧ (∀ l ∈ links, c.eval l.2.expr = .ok l.2.value) ∧
      ∀ l ∈ links, c.sqlOf l.2.expr l.2.value = .ok l.2.sql := by
  induction es generalizing ops current items with
  | nil =>
    obtain rfl := List.length_eq_zero_iff.1 hlength
    cases h
    exact ⟨[], rfl, rfl, rfl, by simp, by simp⟩
  | cons e es ih =>
    cases ops with
    | nil => cases hlength
    | cons op ops =>
      rw [links] at h
      obtain ⟨v, hv, h⟩ := bind_eq_ok h
      obtain ⟨sql, hsql, h⟩ := bind_eq_ok h
      obtain ⟨rest, hrest, h⟩ := bind_eq_ok h
      cases h
      obtain ⟨ls, rfl, rfl, rfl, hvalues, htexts⟩ := ih (Nat.succ.inj hlength) hrest
      exact ⟨(op, ⟨e, v, sql⟩) :: ls, rfl, rfl, rfl, List.forall_mem_cons.2 ⟨hv, hvalues⟩,
        List.forall_mem_cons.2 ⟨hsql, htexts⟩⟩

theorem exists_sql_of_conditionOf {v : Value} {condition : Option String}
    (h : c.conditionOf e v = .ok condition) : ∃ sql, c.sqlOf e v = .ok sql ∧
      condition = if v.isSatisfied then none else some sql := by
  cases v with
  | satisfied =>
    cases h
    exact ⟨_, rfl, rfl⟩
  | _ =>
    obtain ⟨sql, hsql, rfl⟩ := map_eq_ok h
    exact ⟨sql, hsql, rfl⟩

/-- Either every operand of a connective is evaluated, or one satisfies a disjunction. -/
theorem exists_pieces_of_conditions {op : BoolOp} {answer : Option (List String)}
    (h : c.conditions op es = .ok answer) :
    (∃ ps : List Piece, ps.map (·.expr) = es ∧ answer = some (conditionTexts ps) ∧
      (op = .or → ∀ p ∈ ps, p.value.isSatisfied = false) ∧
      (∀ p ∈ ps, c.eval p.expr = .ok p.value) ∧ ∀ p ∈ ps, c.sqlOf p.expr p.value = .ok p.sql) ∨
    (op = .or ∧ answer = none ∧ ∃ e ∈ es, c.eval e = .ok .satisfied) := by
  induction es generalizing answer with
  | nil =>
    cases h
    exact .inl ⟨[], rfl, rfl, by simp, by simp, by simp⟩
  | cons e es ih =>
    rw [conditions] at h
    obtain ⟨v, hv, h⟩ := bind_eq_ok h
    obtain ⟨condition, hcondition, h⟩ := bind_eq_ok h
    obtain ⟨sql, hsql, rfl⟩ := exists_sql_of_conditionOf hcondition
    cases hsatisfied : v.isSatisfied with
    | true =>
      rw [if_pos hsatisfied] at h
      dsimp only at h
      split at h
      · rename_i hor
        cases h
        cases v <;> cases hsatisfied
        exact .inr ⟨hor, rfl, e, List.mem_cons_self, hv⟩
      · rename_i hor
        rcases ih h with ⟨ps, rfl, rfl, -, hvalues, htexts⟩ | ⟨hop, -⟩
        · exact .inl ⟨⟨e, v, sql⟩ :: ps, rfl, by simp [conditionTexts, hsatisfied],
            fun hop => absurd hop hor, List.forall_mem_cons.2 ⟨hv, hvalues⟩,
            List.forall_mem_cons.2 ⟨hsql, htexts⟩⟩
        · exact absurd hop hor
    | false =>
      rw [if_neg (by simp [hsatisfied])] at h
      obtain ⟨rest, hrest, h⟩ := bind_eq_ok h
      cases h
      rcases ih hrest with ⟨ps, rfl, rfl, hor, hvalues, htexts⟩ | ⟨hop, rfl, e', he', hv'⟩
      · exact .inl ⟨⟨e, v, sql⟩ :: ps, rfl, by simp [conditionTexts, hsatisfied],
          fun hop => List.forall_mem_cons.2 ⟨hsatisfied, hor hop⟩,
          List.forall_mem_cons.2 ⟨hv, hvalues⟩, List.forall_mem_cons.2 ⟨hsql, htexts⟩⟩
      · exact .inr ⟨hop, rfl, e', List.mem_cons_of_mem _ he', hv'⟩

/-! ## Expressions -/

/-- The value of an expression follows the rules, wherever the expression stands: as a value, as the
argument of a quantifier, and as the method of a call, whose receiver counts. -/
structure Derives (e : Expr) : Prop where
  eval : ∀ (c : Context) (v : Value), c.eval e = .ok v → Gives c e v
  quantified : ∀ (c : Context) (v : Value), c.quantified [e] = some (.ok v) →
    Gives c (.call (.name Expr.quantifierName) [e] []) v
  receiver : ∀ value label, e = .attr value label →
    ∀ (c : Context) (v : Value), c.eval value = .ok v → Gives c value v

theorem Derives.of_eval (h : ∀ (c : Context) (v : Value), c.eval e = .ok v → Gives c e v)
    (hcomprehension : e.comprehensionParts? = none) (hreceiver : e.receiver? = none) :
    Derives e where
  eval := h
  quantified c v hq := by
    rw [quantified_singleton, hcomprehension] at hq
    cases hq
  receiver value label heq := by
    subst heq
    cases hreceiver

/-- The pieces of expressions whose values follow the rules. -/
theorem gives_of_pieces {ps : List Piece} (h : ∀ e ∈ ps.map (·.expr), Derives e)
    (hvalues : ∀ p ∈ ps, c.eval p.expr = .ok p.value) : ∀ p ∈ ps, Gives c p.expr p.value :=
  fun p hp => (h p.expr (List.mem_map_of_mem hp)).eval c p.value (hvalues p hp)

theorem membershipOp_eq_some {ops : List CmpOp} {op : CmpOp} (h : membershipOp? ops = some op) :
    ops = [op] := by
  rw [membershipOp?.eq_def] at h
  split at h <;> cases h <;> rfl

section Comparisons

variable {left right : Expr} {ops : List CmpOp} {op : CmpOp} {operands : List Expr} {v : Value}

theorem gives_linked (hleft : Derives left) (hoperands : ∀ e ∈ operands, Derives e)
    (hg : c.isGuaranteed (.compare left ops operands) = false)
    (hplain : ∀ op right, ops = [op] → operands = [right] → membershipOp? [op] = some op →
      listed? right = none ∧ (∀ text, left ≠ .literal (.str text)) ∧
      ∀ id path, left = .name id → (c.scope.resolve id).isUnbound = true →
        c.eval right ≠ .ok (.path path))
    (h : linked c left ops operands = .ok v) : Gives c (.compare left ops operands) v := by
  rw [linked] at h
  split at h
  · cases h
  rename_i hshape
  obtain ⟨hlength, hempty⟩ := not_or.1 hshape
  obtain ⟨w, hw, h⟩ := bind_eq_ok h
  obtain ⟨first, hfirst, h⟩ := bind_eq_ok h
  obtain ⟨items, hitems, h⟩ := bind_eq_ok h
  cases h
  obtain ⟨links, rfl, rfl, rfl, hvalues, htexts⟩ :=
    exists_pieces_of_links (not_not.1 hlength) hitems
  refine .chain links (by simpa using hempty) rfl rfl hg ?_ (hleft.eval c w hw) hfirst ?_ htexts
  · rintro op p rfl hop
    obtain ⟨hlist, htext, hname⟩ := hplain op p.expr rfl rfl hop
    refine ⟨hlist, htext, fun id path hid hunbound hpath => hname id path hid hunbound ?_⟩
    rw [hvalues (op, p) List.mem_cons_self, hpath]
  · intro l hl
    exact (hoperands _ (List.mem_map.2 ⟨l, hl, rfl⟩)).eval c _ (hvalues l hl)

theorem gives_testedIn (hleft : Derives left) (hright : Derives right)
    (hg : c.isGuaranteed (.compare left [op] [right]) = false) (hop : membershipOp? [op] = some op)
    (hlist : listed? right = none) (h : testedIn c left op [op] right = .ok v) :
    Gives c (.compare left [op] [right]) v := by
  have hlinked : (∀ text, left ≠ .literal (.str text)) → (∀ id path, left = .name id →
      (c.scope.resolve id).isUnbound = true → c.eval right ≠ .ok (.path path)) →
      linked c left [op] [right] = .ok v → Gives c (.compare left [op] [right]) v := by
    intro htext hname h
    refine gives_linked hleft (by simpa using hright) hg ?_ h
    rintro _ _ ⟨⟩ ⟨⟩ -
    exact ⟨hlist, htext, hname⟩
  cases left with
  | literal l =>
    cases l with
    | str text =>
      obtain ⟨w, hw, h⟩ := bind_eq_ok h
      obtain ⟨r, hr, h⟩ := bind_eq_ok h
      cases h
      exact .pattern hop hlist (hright.eval c w hw) hr
    | _ => exact hlinked (by simp) (by simp) h
  | name id =>
    rw [testedIn] at h
    split at h
    · obtain ⟨w, hw, h⟩ := bind_eq_ok h
      have hpath : ∀ path, w ≠ .path path := by
        rintro path rfl
        cases h
      refine hlinked (by simp) ?_ ?_
      · rintro _ path ⟨⟩ - hpath'
        exact hpath path (Except.ok.inj (hw.symm.trans hpath'))
      · cases w with
        | path path => exact absurd rfl (hpath path)
        | _ => exact h
    · rename_i hbound
      refine hlinked (by simp) ?_ h
      rintro _ path ⟨⟩ hunbound
      exact absurd hunbound hbound
  | _ => exact hlinked (by simp) (by simp) h

/-- The items of a list have values where the list has one. -/
theorem exists_pieces_of_listed {items : List Expr} {texts : List String} (hright : Derives right)
    (hitems : listed? right = some items) (h : c.compileAll items = .ok texts) :
    ∃ ps : List Piece, ps.map (·.expr) = items ∧ ps.map (·.sql) = texts ∧
      (∀ p ∈ ps, Gives c p.expr p.value) ∧ ∀ p ∈ ps, c.sqlOf p.expr p.value = .ok p.sql := by
  obtain rfl | rfl | ⟨-, rfl⟩ := listed_cases hitems
  · cases hright.eval c (.sequence texts) (by rw [eval, h]; rfl) with
    | list ps hps hvalues hsql => exact ⟨ps, hps, rfl, hvalues, hsql⟩
  · cases hright.eval c (.sequence texts) (by rw [eval, h]; rfl) with
    | tuple ps hps hvalues hsql => exact ⟨ps, hps, rfl, hvalues, hsql⟩
  · cases h
    exact ⟨[], rfl, rfl, by simp, by simp⟩

theorem gives_compare (hleft : Derives left) (hoperands : ∀ e ∈ operands, Derives e)
    (h : c.eval (.compare left ops operands) = .ok v) : Gives c (.compare left ops operands) v := by
  rw [eval_compare] at h
  split at h
  · cases h
    exact .guaranteed ‹_›
  rename_i hg
  rw [Bool.not_eq_true] at hg
  split at h
  · rename_i op right hop
    obtain rfl := membershipOp_eq_some hop
    split at h
    · rename_i items hitems
      obtain ⟨w, hw, h⟩ := bind_eq_ok h
      obtain ⟨l, hl, h⟩ := bind_eq_ok h
      obtain ⟨texts, htexts, h⟩ := bind_eq_ok h
      cases h
      have hright := hoperands right List.mem_cons_self
      obtain ⟨ps, rfl, rfl, hvalues, hsql⟩ := exists_pieces_of_listed hright hitems htexts
      exact .listed ps hg hop hitems (hleft.eval c w hw) hl hvalues hsql
    · rename_i hlist
      exact gives_testedIn hleft (hoperands right List.mem_cons_self) hg hop hlist h
  · rename_i hnone
    refine gives_linked hleft hoperands hg ?_ h
    rintro op right rfl rfl hop
    exact absurd rfl (hnone op right hop)

end Comparisons

theorem gives_unary {op : UnaryOp} {v : Value} (hparsed : Parsed e) (he : Derives e)
    (h : c.eval (.unary op e) = .ok v) : Gives c (.unary op e) v := by
  rw [eval] at h
  split at h
  · rename_i hnumber
    simp only [Bool.and_eq_true, decide_eq_true_eq] at hnumber
    obtain ⟨rfl, hnumber⟩ := hnumber
    cases h
    exact .number c hparsed hnumber
  rename_i hnumber
  split at h
  · rename_i hcall
    simp only [Bool.and_eq_true, decide_eq_true_eq] at hcall
    obtain ⟨rfl, hcall⟩ := hcall
    obtain ⟨w, hw, h⟩ := bind_eq_ok h
    obtain ⟨sql, hsql, h⟩ := bind_eq_ok h
    cases h
    exact .noneOf (he.eval c w hw) hcall hsql
  · rename_i hcall
    obtain ⟨w, hw, h⟩ := bind_eq_ok h
    rw [signedOf.eq_def] at h
    split at h
    · cases h
    · rename_i hsatisfied
      obtain ⟨sql, hsql, h⟩ := bind_eq_ok h
      cases h
      refine .signed (he.eval c w hw) (by simpa using hnumber) (by simpa using hcall) ?_ hsql
      cases w with
      | satisfied => exact absurd rfl hsatisfied
      | _ => rfl

theorem gives_boolean {op : BoolOp} {first second : Expr} {others : List Expr} {v : Value}
    (hoperands : ∀ e ∈ first :: second :: others, Derives e)
    (h : c.eval (.boolean op (first :: second :: others)) = .ok v) :
    Gives c (.boolean op (first :: second :: others)) v := by
  rw [eval] at h
  obtain ⟨answer, hanswer, h⟩ := bind_eq_ok h
  rcases exists_pieces_of_conditions hanswer with ⟨ps, hps, rfl, hor, hvalues, hsql⟩ |
    ⟨rfl, rfl, e, he, hsatisfied⟩
  · cases h
    rw [← hps] at hoperands
    refine .connected ps hps ?_ hor (gives_of_pieces hoperands hvalues) hsql
    have hlength := congrArg List.length hps
    simp only [List.length_map, List.length_cons] at hlength
    omega
  · cases h
    exact .absorbed he ((hoperands e he).eval c _ hsatisfied)

theorem gives_call {callee : Expr} {args : List Expr} {keywords : List (Keyword Expr)} {v : Value}
    (hcallee : Derives callee) (hargs : ∀ e ∈ args, Derives e)
    (h : c.eval (.call callee args keywords) = .ok v) : Gives c (.call callee args keywords) v := by
  rw [eval.eq_def] at h
  dsimp only at h
  split at h
  · cases h
  rename_i hkeywords
  obtain rfl : keywords = [] := by simpa using hkeywords
  split at h
  · rename_i id
    split at h
    · rename_i hlen
      subst hlen
      split at h
      · rename_i e
        obtain ⟨w, hw, h⟩ := bind_eq_ok h
        split at h
        · cases h
          exact .length rfl ((hargs e List.mem_cons_self).eval c _ hw)
        · cases h
      · cases h
    · split at h
      · rename_i answer hanswer
        subst h
        split at hanswer
        · rename_i hany
          subst hany
          obtain ⟨e, rfl⟩ := quantified_eq_some hanswer
          exact (hargs e List.mem_cons_self).quantified c v hanswer
        · cases hanswer
      · cases h
  · rename_i value label
    split at h
    · rename_i hmethod
      split at h
      · rename_i text
        obtain ⟨w, hw, h⟩ := bind_eq_ok h
        obtain ⟨r, hr, h⟩ := bind_eq_ok h
        cases h
        obtain ⟨pattern, hpattern⟩ : ∃ pattern, endPattern? label text = some pattern := by
          unfold endPattern? at hmethod ⊢
          split at hmethod
          · exact ⟨_, if_pos ‹_›⟩
          · split at hmethod
            · exact ⟨_, by rw [if_neg ‹_›, if_pos ‹_›]⟩
            · cases hmethod
        rw [hpattern]
        exact .method hpattern (hcallee.receiver _ _ rfl c w hw) hr
      · cases h
    · cases h
  · cases h

/-- The condition that an element is, unless it is the variable itself, and those of the clause. -/
theorem exists_pieces_of_element {element : Expr} {target : String} {filters : List Expr}
    {path : FieldPath} {v : Value}
    (h : (do
      let own ← if element.asName? = some target then pure none
        else c.conditionOf element (← c.eval element)
      let others ← c.conditions .and filters
      return Value.text (existence path target (own.toList ++ others.getD []))) = .ok v) :
    ∃ ps : List Piece, ps.map (·.expr) = Expr.elementConditions target element filters ∧
      v = .text (existence path target (conditionTexts ps)) ∧
      (∀ p ∈ ps, c.eval p.expr = .ok p.value) ∧ ∀ p ∈ ps, c.sqlOf p.expr p.value = .ok p.sql := by
  -- The conditions of the clause follow the one of the element, if it has one.
  have hothers : ∀ own : Option String, (do
      let others ← c.conditions .and filters
      return Value.text (existence path target (own.toList ++ others.getD []))) = .ok v →
      ∃ ps : List Piece, ps.map (·.expr) = filters ∧
        v = .text (existence path target (own.toList ++ conditionTexts ps)) ∧
        (∀ p ∈ ps, c.eval p.expr = .ok p.value) ∧
        ∀ p ∈ ps, c.sqlOf p.expr p.value = .ok p.sql := by
    intro own h
    obtain ⟨others, hothers, h⟩ := bind_eq_ok h
    cases h
    rcases exists_pieces_of_conditions hothers with ⟨ps, hps, rfl, -, hvalues, hsql⟩ | ⟨hop, -⟩
    · exact ⟨ps, hps, rfl, hvalues, hsql⟩
    · cases hop
  rw [Expr.elementConditions]
  dsimp only at h
  split at h
  · rename_i hname
    rw [if_pos hname]
    exact hothers none h
  · rename_i hname
    rw [if_neg hname]
    obtain ⟨u, hu, h⟩ := bind_eq_ok h
    obtain ⟨condition, hcondition, h⟩ := bind_eq_ok h
    obtain ⟨sql, hsql, rfl⟩ := exists_sql_of_conditionOf hcondition
    obtain ⟨ps, rfl, rfl, hvalues, htexts⟩ := hothers _ h
    refine ⟨⟨element, u, sql⟩ :: ps, rfl, ?_, List.forall_mem_cons.2 ⟨hu, hvalues⟩,
      List.forall_mem_cons.2 ⟨hsql, htexts⟩⟩
    cases hsatisfied : u.isSatisfied <;> simp [conditionTexts, hsatisfied]

/-- A comprehension has no value of its own; as the argument of a quantifier it needs one clause. -/
theorem derives_comprehension {element : Expr} {clauses : List (Clause Expr)}
    (hparts : e.comprehensionParts? = some (element, clauses)) (helement : Derives element)
    (targets : ∀ x ∈ clauses, IsName x.target) (hsources : ∀ x ∈ clauses, Derives x.source)
    (hconditions : ∀ x ∈ clauses, ∀ y ∈ x.conditions, Derives y) : Derives e where
  eval c v h := by
    cases e with
    | listComp => simp [Context.eval] at h
    | generator => simp [Context.eval] at h
    | _ => cases hparts
  quantified c v h := by
    rw [quantified_singleton, hparts] at h
    rcases clauses with _ | ⟨⟨target, array, filters⟩, _ | _⟩
    · cases h
    · dsimp only at h
      split at h
      · rename_i hchain
        obtain ⟨w, hw, h⟩ := bind_eq_ok (Option.some.inj h)
        obtain ⟨path, hpath, h⟩ := bind_eq_ok h
        have harray := (hsources _ List.mem_cons_self).eval c w hw
        obtain ⟨ps, hps, rfl, hvalues, hsql⟩ := exists_pieces_of_element h
        have hderives : ∀ y ∈ ps.map (·.expr), Derives y := by
          intro y hy
          rw [hps, Expr.elementConditions] at hy
          split at hy
          · exact hconditions _ List.mem_cons_self y hy
          · rcases List.mem_cons.1 hy with rfl | hy
            · exact helement
            · exact hconditions _ List.mem_cons_self y hy
        cases w with
        | path p =>
          cases hpath
          exact .quantified ps rfl (targets _ List.mem_cons_self) hparts hchain harray hps
            (gives_of_pieces hderives hvalues) hsql
        | _ => cases hpath
      · cases h
    · cases h
  receiver value label heq := by
    subst heq
    cases hparts

theorem derives_subscript {value index : Expr} (h : Derives value) :
    Derives (.subscript value index) := by
  refine .of_eval (fun c v hv => ?_) rfl rfl
  rw [eval] at hv
  obtain ⟨w, hw, hv⟩ := bind_eq_ok hv
  have hgives := h.eval c w hw
  cases w with
  | path p =>
    rw [itemOf] at hv
    split at hv
    · cases hv
      exact .item hgives ‹_›
    · cases hv
  | _ => cases hv

theorem derives_expr {a : Positional Expr} (h : Derives a.value) : Derives a.expr := by
  obtain ⟨spread, value⟩ := a
  cases spread with
  | false => exact h
  | true => exact .of_eval (fun c v hv => by simp [Positional.expr, Context.eval] at hv) rfl rfl

theorem derives_literal {l : Literal} (h : Parsed (.literal l)) : Derives (.literal l) := by
  refine .of_eval (fun c v hv => ?_) rfl rfl
  cases hv
  exact .literal c h

end DocQuery.Sql

namespace DocQuery

open Sql Context

theorem Parsed.derives {e : Expr} (h : Parsed e) : Derives e := by
  induction h with
  | lambda => exact .of_eval (fun c v hv => by simp [eval] at hv) rfl rfl
  | none => exact derives_literal .none
  | bool b => exact derives_literal (.bool b)
  | int n h => exact derives_literal (.int n h)
  | float digits exponent => exact derives_literal (.float digits exponent)
  | str s => exact derives_literal (.str s)
  | name h =>
    refine .of_eval (fun c v hv => ?_) rfl rfl
    cases hv
    exact .name c h
  | attr _ hlabel ih =>
    refine ⟨fun c v hv => ?_, fun c v hv => by simp [Context.quantified] at hv, ?_⟩
    · rw [eval] at hv
      obtain ⟨w, hw, hv⟩ := bind_eq_ok hv
      exact .attr hlabel (ih.eval c w hw) hv
    · rintro _ _ ⟨⟩
      exact ih.eval
  | binary op _ _ ihLeft ihRight =>
    refine .of_eval (fun c v hv => ?_) rfl rfl
    rw [eval] at hv
    obtain ⟨u, hu, hv⟩ := bind_eq_ok hv
    obtain ⟨l, hl, hv⟩ := bind_eq_ok hv
    obtain ⟨w, hw, hv⟩ := bind_eq_ok hv
    obtain ⟨r, hr, hv⟩ := bind_eq_ok hv
    split at hv
    · cases hv
      exact .binary (ihLeft.eval c u hu) (ihRight.eval c w hw) hl hr ‹_›
    · cases hv
  | unary op h ih => exact .of_eval (fun c v hv => gives_unary h ih hv) rfl rfl
  | compare _ links _ _ ihLeft ih =>
    refine .of_eval (fun c v hv => gives_compare ihLeft (fun e he => ?_) hv) rfl rfl
    obtain ⟨l, hl, rfl⟩ := List.mem_map.1 he
    exact ih l hl
  | boolean op first second others _ ih =>
    exact .of_eval (fun c v hv => gives_boolean ih hv) rfl rfl
  | conditional _ _ _ ihTest ihBody ihOtherwise =>
    refine .of_eval (fun c v hv => ?_) rfl rfl
    rw [eval] at hv
    obtain ⟨u, hu, hv⟩ := bind_eq_ok hv
    obtain ⟨t, ht, hv⟩ := bind_eq_ok hv
    obtain ⟨w, hw, hv⟩ := bind_eq_ok hv
    obtain ⟨b, hb, hv⟩ := bind_eq_ok hv
    obtain ⟨x, hx, hv⟩ := bind_eq_ok hv
    obtain ⟨o, ho, hv⟩ := bind_eq_ok hv
    cases hv
    exact .conditional (ihTest.eval c u hu) (ihBody.eval c w hw) (ihOtherwise.eval c x hx) ht hb ho
  | call _ args keywords _ _ _ ih ihArgs =>
    refine .of_eval (fun c v hv => gives_call ih (fun e he => ?_) hv) rfl rfl
    obtain ⟨a, ha, rfl⟩ := List.mem_map.1 he
    exact derives_expr (ihArgs a ha)
  | subscript _ i _ _ ih => exact derives_subscript ih
  | subscripts _ indices _ _ ih => exact derives_subscript ih
  | list items _ ih =>
    refine .of_eval (fun c v hv => ?_) rfl rfl
    rw [eval] at hv
    obtain ⟨texts, htexts, hv⟩ := bind_eq_ok hv
    cases hv
    obtain ⟨ps, rfl, rfl, hvalues, hsql⟩ := exists_pieces_of_compileAll htexts
    exact .list ps rfl (gives_of_pieces ih hvalues) hsql
  | tuple items _ ih =>
    refine .of_eval (fun c v hv => ?_) rfl rfl
    rw [eval] at hv
    obtain ⟨texts, htexts, hv⟩ := bind_eq_ok hv
    cases hv
    obtain ⟨ps, rfl, rfl, hvalues, hsql⟩ := exists_pieces_of_compileAll htexts
    exact .tuple ps rfl (gives_of_pieces ih hvalues) hsql
  | listComp _ clauses _ targets _ _ ih ihSources ihConditions =>
    exact derives_comprehension rfl ih targets ihSources ihConditions
  | generator _ clauses _ targets _ _ ih ihSources ihConditions =>
    exact derives_comprehension rfl ih targets ihSources ihConditions
  | display => exact .of_eval (fun c v hv => by simp [eval] at hv) rfl rfl

/-- Evaluation follows the rules. -/
theorem Parsed.gives {e : Expr} (h : Parsed e) {c : Context} {v : Value} (hv : c.eval e = .ok v) :
    Gives c e v :=
  h.derives.eval c v hv

end DocQuery
