import DocQuery.Proofs.Operands
import DocQuery.Proofs.TextTrees

/-! # Grouping

The text of an expression is grouped like the expression, unless a `NOT` without parentheses, a dot
behind finished SQL or a keyword in the place of a name comes between.

* `Expr.isTame`: whether none of these is at an expression.
* `Mirrors e t`: the tree `t` of SQL has the operators of the expression `e`.
* `Gives.groups`: the text of an expression has such a tree.
* `compile_grouping`: which operands are primaries, and the tree of what is compiled.
-/

set_option autoImplicit false

namespace DocQuery

namespace Expr

/-- The names that an expression itself puts into the text. -/
def ownWords : Expr → List String
  | name id => [id]
  | call _ [e] _ => (e.comprehensionParts?.map fun parts => parts.2.map (·.target)).getD []
  | _ => []

/-- Whether no operand is a negation, the expression is no attribute of finished SQL, and its names are
no keywords. -/
def isTame (e : Expr) : Bool :=
  e.operands.all (!·.isNegation) && e.isRooted && e.ownWords.all (!Sql.isKeyword ·.toList)

/-- Whether the expression is a constant or refers to a part of a document. -/
def isReference : Expr → Bool
  | literal _ => true
  | name _ => true
  | attr _ _ => true
  | subscript _ _ => true
  | call (name id) _ _ => id = "len"
  | _ => false

section Tame

variable {e o : Expr} {w : String}

theorem isNegation_of_isTame (h : e.isTame = true) (ho : o ∈ e.operands) : o.isNegation = false := by
  simp only [isTame, Bool.and_eq_true, List.all_eq_true, Bool.not_eq_true'] at h
  exact h.1.1 o ho

theorem isRooted_of_isTame (h : e.isTame = true) : e.isRooted = true := by
  simp only [isTame, Bool.and_eq_true] at h
  exact h.1.2

theorem isPlainWord_of_isTame (h : e.isTame = true) (hw : w ∈ e.ownWords) : Sql.IsPlainWord w := by
  simp only [isTame, Bool.and_eq_true, List.all_eq_true, Bool.not_eq_true'] at h
  exact h.2 w hw

end Tame

end Expr

namespace Sql

open Context

/-! ## The operators of an expression -/

/-- The links of a comparison chain; `current` is the operand before them. -/
def linkTrees : Tree → List (CmpOp × Tree) → List Tree
  | _, [] => []
  | current, (op, t) :: links => .binary (.comparison op) current t :: linkTrees t links

/-- The links of a comparison chain in one. -/
def chainTree (first : Tree) (links : List (CmpOp × Tree)) : Tree :=
  match linkTrees first links with
  | [] => first
  | t :: ts => .chain (.connective .and) t ts

/-- The tree of SQL has the operators of the expression, on the trees of the operands. -/
inductive Mirrors : Expr → Tree → Prop
  | reference {e : Expr} {t : Tree} (he : e.isReference = true) (ht : t.isAtom = true) : Mirrors e t
  | arithmetic {left right : Expr} {op : BinaryOp} {l r t : Tree} (hl : Mirrors left l)
      (hr : Mirrors right r) (ht : arithmeticTree? op l r = some t) : Mirrors (.binary left op right) t
  | sign (op : UnaryOp) {e : Expr} {t : Tree} (h : Mirrors e t) :
      Mirrors (.unary op e) (.unary (.sign op) t)
  | listed {left right : Expr} {op : CmpOp} {l : Tree} (items : List (Expr × Tree))
      (hop : membershipOp? [op] = some op) (hlist : listed? right = some (items.map (·.1)))
      (hl : Mirrors left l) (hitems : ∀ p ∈ items, Mirrors p.1 p.2) :
      Mirrors (.compare left [op] [right]) (.binary (.comparison op) l (.row (items.map (·.2))))
  | contained {text : String} {right : Expr} {op : CmpOp} {r : Tree}
      (hop : membershipOp? [op] = some op) (hlist : listed? right = none) (hr : Mirrors right r) :
      Mirrors (.compare (.literal (.str text)) [op] [right])
        (.binary (.pattern (op = .notElemOf)) r (.string ("%" ++ text ++ "%").toList))
  | chain {left : Expr} {l : Tree} (links : List (CmpOp × Expr × Tree)) (hne : links ≠ [])
      (hplain : ∀ op e t, links = [(op, e, t)] → membershipOp? [op] = some op →
        listed? e = none ∧ ∀ text, left ≠ .literal (.str text))
      (hl : Mirrors left l) (hlinks : ∀ p ∈ links, Mirrors p.2.1 p.2.2) :
      Mirrors (.compare left (links.map (·.1)) (links.map (·.2.1)))
        (chainTree l (links.map fun p => (p.1, p.2.2)))
  | connective (op : BoolOp) {e : Expr} {t : Tree} (others : List (Expr × Tree)) (h : Mirrors e t)
      (hothers : ∀ p ∈ others, Mirrors p.1 p.2) :
      Mirrors (.boolean op (e :: others.map (·.1))) (.chain (.connective op) t (others.map (·.2)))
  | choice {test body otherwise : Expr} {t b o : Tree} (ht : Mirrors test t) (hb : Mirrors body b)
      (ho : Mirrors otherwise o) :
      Mirrors (.conditional test body otherwise)
        (.choice (.binary (.clause .otherwise) (.binary (.clause .yields) (.unary .test t) b) o))
  | existence {e element array : Expr} {target : String} {filters : List Expr} {arrayTree : Tree}
      (conditions : List (Expr × Tree))
      (hparts : e.comprehensionParts? = some (element, [⟨target, array, filters⟩]))
      (harray : arrayTree.isAtom = true)
      (hconditions : conditions.map (·.1) = Expr.elementConditions target element filters)
      (h : ∀ p ∈ conditions, Mirrors p.1 p.2) :
      Mirrors (.call (.name Expr.quantifierName) [e] [])
        (.existence arrayTree target (conditions.map (·.2)))
  | matching {value : Expr} {label text pattern : String} {t : Tree}
      (hpattern : endPattern? label text = some pattern) (h : Mirrors value t) :
      Mirrors (.call (.attr value label) [.literal (.str text)] [])
        (.binary (.pattern false) t (.string pattern.toList))
  | list (items : List (Expr × Tree)) (h : ∀ p ∈ items, Mirrors p.1 p.2) :
      Mirrors (.list (items.map (·.1))) (.row (items.map (·.2)))
  | tuple (items : List (Expr × Tree)) (h : ∀ p ∈ items, Mirrors p.1 p.2) :
      Mirrors (.tuple (items.map (·.1))) (.row (items.map (·.2)))

/-- The text is grouped like the expression. Only a negation can be torn apart by what follows it. -/
def Groups (e : Expr) (sql : String) : Prop :=
  ∃ t, Mirrors e t ∧ Parses 4 sql t ∧ (e.isNegation = false → Parses 10 sql t)

/-- Everything that is evaluated for an expression is tame. -/
def Tame (c : Context) (e : Expr) : Prop := ∀ d x, Evaluates c e d x → x.isTame = true

section Groups

variable {c : Context} {e : Expr} {v : Value} {sql : String}

theorem Groups.of_tight {t : Tree} (h : Mirrors e t) (hparses : Parses 10 sql t) : Groups e sql :=
  ⟨t, h, hparses.mono (by decide), fun _ => hparses⟩

/-! ## Names and paths -/

/-- The name at the start of attributes and indices is evaluated with them. -/
theorem evaluates_root {id : String} (h : e.root? = some id) : Evaluates c e c (.name id) := by
  induction h using Expr.root_induction with
  | name => exact .self c _
  | attr value label _ ih => exact .part List.mem_cons_self ih
  | subscript value index _ ih => exact .part List.mem_cons_self ih

theorem Tame.part {p : Expr} (h : Tame c e) (hp : p ∈ e.ownParts) : Tame c p :=
  fun d x hx => h d x (.part hp hx)

/-- An operand of a tame expression does not come apart. -/
theorem Tame.tight {o : Expr} (h : Tame c e) (ho : o ∈ e.operands) (hgroups : Groups o sql) :
    ∃ t, Mirrors o t ∧ Parses 10 sql t := by
  obtain ⟨t, ht, -, hparses⟩ := hgroups
  exact ⟨t, ht, hparses (Expr.isNegation_of_isTame (h c e (.self c e)) ho)⟩

theorem Tame.isPlainWord {w : String} (h : Tame c e) (hw : w ∈ e.ownWords) : IsPlainWord w :=
  Expr.isPlainWord_of_isTame (h c e (.self c e)) hw

theorem Tame.dotted {id : String} (htame : Tame c e) (h : Gives c e v) (hroot : e.root? = some id) :
    v.Dotted IsPlainWord c :=
  h.dotted rfl hroot (Expr.isPlainWord_of_isTame (htame _ _ (evaluates_root hroot)) List.mem_cons_self)

theorem Tame.parses_root {p : FieldPath} (htame : Tame c e) (h : Gives c e (.path p)) :
    ∃ ws, ∀ level, Parses level p.root.document (.words ws) := by
  obtain ⟨id, hid⟩ := h.exists_root rfl
  have hdotted : Sql.Dotted IsPlainWord (fun _ => True) p.root.document := htame.dotted h hid
  exact hdotted.parses

theorem Value.Dotted.exists_atom (hv : v.Dotted IsPlainWord c) (h : c.sqlOf e v = .ok sql) :
    ∃ t, t.isAtom = true ∧ Parses 10 sql t := by
  have hdotted : ∀ {text}, Sql.Dotted IsPlainWord (fun _ => True) text →
      ∃ t, t.isAtom = true ∧ Parses 10 text t := by
    intro text htext
    obtain ⟨ws, hparses⟩ := htext.parses
    exact ⟨_, rfl, hparses 10⟩
  cases v with
  | text s =>
    cases h
    exact hdotted hv
  | path p =>
    cases h
    unfold FieldPath.field
    split
    · exact hdotted hv
    · obtain ⟨ws, hroot⟩ := Sql.Dotted.parses hv
      obtain ⟨t, ht, hparses⟩ := parses_applied hroot (f := "json_extract") (by simp)
      exact ⟨t, ht, hparses 10⟩
  | bound value =>
    cases value with
    | constant l =>
      cases h
      exact parses_literal l
    | holder name members => cases h
  | table name =>
    cases h
    exact hdotted hv
  | sequence items => cases hv
  | satisfied => cases hv

theorem Tame.groups_reference {id : String} (htame : Tame c e) (h : Gives c e v)
    (hroot : e.root? = some id) (he : e.isReference = true) (hsql : c.sqlOf e v = .ok sql) :
    Groups e sql := by
  obtain ⟨t, ht, hparses⟩ := (htame.dotted h hroot).exists_atom hsql
  exact .of_tight (.reference he ht) hparses

/-! ## Several expressions -/

theorem exists_trees {ps : List Piece} (h : ∀ p ∈ ps, Groups p.expr p.sql) :
    ∃ qs : List (Expr × Tree), qs.map (·.1) = ps.map (·.expr) ∧ (∀ q ∈ qs, Mirrors q.1 q.2) ∧
      List.Forall₂ (Parses 4) (ps.map (·.sql)) (qs.map (·.2)) := by
  induction ps with
  | nil => exact ⟨[], rfl, by simp, .nil⟩
  | cons p ps ih =>
    obtain ⟨⟨t, ht, hparses, -⟩, h⟩ := List.forall_mem_cons.1 h
    obtain ⟨qs, hqs, hmirrors, htexts⟩ := ih h
    exact ⟨(p.expr, t) :: qs, by simp [hqs], List.forall_mem_cons.2 ⟨ht, hmirrors⟩,
      .cons hparses htexts⟩

theorem exists_linkTrees {first : String} {l : Tree} (hfirst : Parses 10 first l)
    {links : List (CmpOp × Piece)}
    (h : ∀ p ∈ links, ∃ t, Mirrors p.2.expr t ∧ Parses 10 p.2.sql t) :
    ∃ qs : List (CmpOp × Expr × Tree),
      qs.map (fun q => (q.1, q.2.1)) = links.map (fun p => (p.1, p.2.expr)) ∧
      (∀ q ∈ qs, Mirrors q.2.1 q.2.2) ∧ ∀ level, List.Forall₂ (Parses level) (linkTexts first links)
        (linkTrees l (qs.map fun q => (q.1, q.2.2))) := by
  induction links generalizing first l with
  | nil => exact ⟨[], rfl, by simp, fun _ => .nil⟩
  | cons p links ih =>
    obtain ⟨⟨t, ht, hparses⟩, h⟩ := List.forall_mem_cons.1 h
    obtain ⟨qs, hqs, hmirrors, htexts⟩ := ih hparses h
    exact ⟨(p.1, p.2.expr, t) :: qs, by simp [hqs], List.forall_mem_cons.2 ⟨ht, hmirrors⟩,
      fun level => .cons (parses_link p.1 hfirst hparses fun _ => by decide) (htexts level)⟩

theorem parses_chained {texts : List String} {first : Tree} {links : List (CmpOp × Tree)}
    (hne : links ≠ []) (h : ∀ level, List.Forall₂ (Parses level) texts (linkTrees first links)) :
    Parses 10 (chained texts) (chainTree first links) := by
  unfold chainTree
  cases links with
  | nil => exact absurd rfl hne
  | cons link links =>
    dsimp only [linkTrees] at h ⊢
    generalize linkTrees link.2 links = ts at h ⊢
    cases h 10 with
    | @cons x _ xs _ hx hxs =>
      cases hxs with
      | nil => exact hx
      | cons hy hys => exact .ofSeparated (separates_connective .and) (h 4)

theorem groups_chain {left : Expr} {ops : List CmpOp} {operands : List Expr} {first : String}
    {links : List (CmpOp × Piece)} (hne : links ≠ []) (hops : links.map (·.1) = ops)
    (hoperands : links.map (·.2.expr) = operands)
    (hplain : ∀ op p, links = [(op, p)] → membershipOp? [op] = some op →
      listed? p.expr = none ∧ ∀ text, left ≠ .literal (.str text))
    (hleft : ∃ t, Mirrors left t ∧ Parses 10 first t)
    (hlinks : ∀ p ∈ links, ∃ t, Mirrors p.2.expr t ∧ Parses 10 p.2.sql t) :
    Groups (.compare left ops operands) (chained (linkTexts first links)) := by
  subst hops hoperands
  obtain ⟨l, hl, hfirst⟩ := hleft
  obtain ⟨qs, hqs, hmirrors, htexts⟩ := exists_linkTrees hfirst hlinks
  have hops : links.map (·.1) = qs.map (·.1) := by
    simpa [Function.comp_def] using congrArg (List.map Prod.fst) hqs.symm
  have hoperands : links.map (·.2.expr) = qs.map (·.2.1) := by
    simpa [Function.comp_def] using congrArg (List.map Prod.snd) hqs.symm
  have hne' : qs ≠ [] := fun hnil => hne (by simpa [hnil] using hops)
  rw [hops, hoperands]
  refine .of_tight (.chain qs hne' ?_ hl hmirrors) (parses_chained (by simpa using hne') htexts)
  rintro op e t rfl hop
  obtain ⟨⟨op', p⟩, rfl⟩ : ∃ p, links = [p] := by
    rw [← List.length_eq_one_iff]
    simpa using congrArg List.length hops
  simp only [List.map_cons, List.map_nil, List.cons.injEq, Prod.mk.injEq, and_true] at hqs
  obtain ⟨rfl, rfl⟩ := hqs
  exact hplain op p rfl hop

theorem groups_listed {left right : Expr} {op : CmpOp} {l : String} {items : List Piece}
    (hop : membershipOp? [op] = some op) (hlist : listed? right = some (items.map (·.expr)))
    (hleft : ∃ t, Mirrors left t ∧ Parses 10 l t) (hitems : ∀ p ∈ items, Groups p.expr p.sql)
    (hsql : c.sqlOf e (listTest l op (items.map (·.sql))) = .ok sql) :
    Groups (.compare left [op] [right]) sql := by
  cases hsql
  obtain ⟨t, ht, hparses⟩ := hleft
  obtain ⟨qs, hqs, hmirrors, htexts⟩ := exists_trees hitems
  have hrow : Parses 10 ("(" ++ Sql.sequence (items.map (·.sql)) ++ ")") (.row (qs.map (·.2))) :=
    parses_row htexts
  have htext : "(" ++ l ++ " " ++ comparison op ++ " (" ++ Sql.sequence (items.map (·.sql)) ++ "))" =
      "(" ++ l ++ " " ++ comparison op ++ " " ++
        ("(" ++ Sql.sequence (items.map (·.sql)) ++ ")") ++ ")" :=
    String.toList_inj.1 (by simp)
  refine .of_tight (.listed qs hop (hqs ▸ hlist) ht hmirrors) ?_
  rw [htext]
  exact parses_link op hparses hrow fun _ => by decide

theorem groups_connected {op : BoolOp} {ps : List Piece} (htwo : 2 ≤ ps.length)
    (h : ∀ p ∈ ps, Groups p.expr p.sql)
    (hsql : c.sqlOf e (connected op (ps.map (·.sql))) = .ok sql) :
    Groups (.boolean op (ps.map (·.expr))) sql := by
  obtain ⟨qs, hqs, hmirrors, htexts⟩ := exists_trees h
  have hlength : qs.length = ps.length := by simpa using congrArg List.length hqs
  cases qs with
  | nil =>
    rw [List.length_nil] at hlength
    omega
  | cons q qs =>
    obtain ⟨hq, hmirrors⟩ := List.forall_mem_cons.1 hmirrors
    obtain ⟨s, heq, -, hparses⟩ := parses_connected op htexts
    have hothers : qs.map (·.2) ≠ [] := by
      rw [ne_eq, List.map_eq_nil_iff]
      rintro rfl
      rw [List.length_singleton] at hlength
      omega
    rw [heq] at hsql
    cases hsql
    rw [← hqs]
    exact .of_tight (.connective op qs hq hmirrors) (hparses hothers)

/-! ## One node -/

theorem groups_arithmetic {left right : Expr} {op : BinaryOp} {l r : String}
    (hl : ∃ t, Mirrors left t ∧ Parses 10 l t) (hr : ∃ t, Mirrors right t ∧ Parses 10 r t)
    (h : arithmetic? op l r = some sql) : Groups (.binary left op right) sql := by
  obtain ⟨tl, htl, hparsesl⟩ := hl
  obtain ⟨tr, htr, hparsesr⟩ := hr
  obtain ⟨t, ht, hparses⟩ := parses_arithmetic (hparsesl.mono (by decide))
    (hparsesr.mono (by decide)) (fun _ _ => hparsesl) h
  exact .of_tight (.arithmetic htl htr ht) hparses

theorem groups_number (h : e.isNumber = true) : Groups (.unary .neg e) ("-" ++ numberSql e) := by
  cases e with
  | literal l =>
    obtain ⟨t, ht, hparses⟩ := parses_literal l
    exact .of_tight (.sign .neg (.reference rfl ht)) (parses_signed .neg hparses)
  | _ => cases h

theorem groups_noneOf (h : Groups e sql) (hcall : e.quantifierCall?.isSome = true) :
    Groups (.unary .not e) ("NOT " ++ sql) := by
  obtain ⟨t, ht, -, hparses⟩ := h
  have hnegation : e.isNegation = false := by
    cases e with
    | unary => cases hcall
    | _ => rfl
  exact ⟨_, .sign .not ht, parses_signed .not (hparses hnegation), fun h => by cases h⟩

theorem groups_signed (h : Groups e sql) (op : UnaryOp) :
    Groups (.unary op e) (sign op ++ "(" ++ sql ++ ")") := by
  obtain ⟨t, ht, hparses, -⟩ := h
  have hgroup : Parses 10 ("(" ++ sql ++ ")") t := hparses.group
  have hsigned := parses_signed op hgroup
  rw [← String.append_assoc, ← String.append_assoc] at hsigned
  refine ⟨_, .sign op ht, hsigned.mono (by cases op <;> decide), fun hnegation => ?_⟩
  cases op with
  | not => cases hnegation
  | _ => exact hsigned

/-- Text that is looked for in text. -/
theorem groups_contained {right : Expr} {op : CmpOp} {text r : String}
    (hop : membershipOp? [op] = some op) (hlist : listed? right = none)
    (h : ∃ t, Mirrors right t ∧ Parses 10 r t)
    (hsql : c.sqlOf e (patternTest r (op = .notElemOf) ("%" ++ text ++ "%")) = .ok sql) :
    Groups (.compare (.literal (.str text)) [op] [right]) sql := by
  obtain ⟨t, ht, hparses⟩ := h
  obtain ⟨s, heq, hpattern⟩ := parses_pattern hparses (op = .notElemOf) ("%" ++ text ++ "%")
  rw [heq] at hsql
  cases hsql
  exact .of_tight (.contained hop hlist ht) hpattern

theorem groups_matching {value : Expr} {label text pattern r : String}
    (hpattern : endPattern? label text = some pattern) (h : ∃ t, Mirrors value t ∧ Parses 10 r t)
    (hsql : c.sqlOf e (patternTest r false pattern) = .ok sql) :
    Groups (.call (.attr value label) [.literal (.str text)] []) sql := by
  obtain ⟨t, ht, hparses⟩ := h
  obtain ⟨s, heq, htext⟩ := parses_pattern hparses false pattern
  rw [heq] at hsql
  cases hsql
  exact .of_tight (.matching hpattern ht) htext

theorem groups_length {p : FieldPath} (h : ∃ ws, ∀ level, Parses level p.root.document (.words ws)) :
    Groups (.call (.name "len") [e] []) p.length := by
  obtain ⟨ws, hroot⟩ := h
  obtain ⟨t, ht, hparses⟩ := parses_applied hroot (f := "json_array_length") (by simp)
  exact .of_tight (.reference rfl ht) (hparses 10)

theorem groups_conditional {test body otherwise : Expr} {t b o : String} (ht : Groups test t)
    (hb : Groups body b) (ho : Groups otherwise o) :
    Groups (.conditional test body otherwise)
      ("CASE WHEN " ++ t ++ " THEN " ++ b ++ " ELSE " ++ o ++ " END") := by
  obtain ⟨_, htest, hparsest, -⟩ := ht
  obtain ⟨_, hbody, hparsesb, -⟩ := hb
  obtain ⟨_, hother, hparseso, -⟩ := ho
  exact .of_tight (.choice htest hbody hother) (parses_conditional hparsest hparsesb hparseso)

theorem groups_existence {element array : Expr} {target : String} {filters : List Expr} {p : FieldPath}
    {ps : List Piece} (hparts : e.comprehensionParts? = some (element, [⟨target, array, filters⟩]))
    (hword : IsWordText target) (hplain : IsPlainWord target)
    (harray : ∃ ws, ∀ level, Parses level p.root.document (.words ws))
    (hps : ps.map (·.expr) = Expr.elementConditions target element filters)
    (h : ∀ p ∈ ps, Groups p.expr p.sql) :
    Groups (.call (.name Expr.quantifierName) [e] []) (existence p target (ps.map (·.sql))) := by
  obtain ⟨ws, hroot⟩ := harray
  obtain ⟨t, ht, hexpansion⟩ := parses_applied hroot (f := "json_each") (by simp)
  obtain ⟨qs, hqs, hmirrors, hparses⟩ := exists_trees h
  exact .of_tight (.existence qs hparts ht (hqs.trans hps) hmirrors)
    (parses_existence (hexpansion 10) hword hplain hparses)

section Items

variable {ps : List Piece} (h : ∀ p ∈ ps, Groups p.expr p.sql)

include h

theorem groups_list :
    Groups (.list (ps.map (·.expr))) ("(" ++ Sql.sequence (ps.map (·.sql)) ++ ")") := by
  obtain ⟨qs, hqs, hmirrors, hparses⟩ := exists_trees h
  rw [← hqs]
  exact .of_tight (.list qs hmirrors) (parses_row hparses)

theorem groups_tuple :
    Groups (.tuple (ps.map (·.expr))) ("(" ++ Sql.sequence (ps.map (·.sql)) ++ ")") := by
  obtain ⟨qs, hqs, hmirrors, hparses⟩ := exists_trees h
  rw [← hqs]
  exact .of_tight (.tuple qs hmirrors) (parses_row hparses)

end Items

/-! ## Every expression -/

theorem Tame.condition {element array p : Expr} {target : String} {filters : List Expr}
    (h : Tame c (.call (.name Expr.quantifierName) [e] []))
    (hparts : e.comprehensionParts? = some (element, [⟨target, array, filters⟩]))
    (hp : p ∈ Expr.elementConditions target element filters) : Tame (c.within target) p :=
  fun d x hx => h d x (.inside hparts hp hx)

theorem Tame.item {left right p : Expr} {op : CmpOp} {items : List Expr}
    (h : Tame c (.compare left [op] [right])) (hlist : listed? right = some items) (hp : p ∈ items) :
    Tame c p := by
  have hright : Tame c right := h.part (by simp [Expr.ownParts])
  obtain rfl | rfl | ⟨-, rfl⟩ := listed_cases hlist
  · exact hright.part hp
  · exact hright.part hp
  · cases hp

/-- The text of an expression is grouped like the expression. -/
theorem Gives.groups (h : Gives c e v) (hc : c.guaranteed = none) (htame : Tame c e)
    (hsql : c.sqlOf e v = .ok sql) : Groups e sql := by
  -- Operands beside an operator must not come apart and are read at level 10; everything between
  -- words or parentheses may be a negation and is read at level 4.
  induction h generalizing sql with
  | literal c h =>
    cases hsql
    obtain ⟨t, ht, hparses⟩ := parses_literal _
    exact .of_tight (.reference rfl ht) hparses
  | name c h => exact htame.groups_reference (.name c h) rfl rfl hsql
  | attr hlabel hvalue h =>
    obtain ⟨id, hid⟩ := Option.isSome_iff_exists.1 (Expr.isRooted_of_isTame (htame _ _ (.self _ _)))
    exact htame.groups_reference (.attr hlabel hvalue h) hid rfl hsql
  | item hvalue hindex =>
    obtain ⟨id, hid⟩ := hvalue.exists_root rfl
    exact htame.groups_reference (.item hvalue hindex) hid rfl hsql
  | binary _ _ hl hr h ihLeft ihRight =>
    cases hsql
    have hleft := ihLeft hc (htame.part (by simp [Expr.ownParts])) hl
    have hright := ihRight hc (htame.part (by simp [Expr.ownParts])) hr
    exact groups_arithmetic (htame.tight (by simp [Expr.operands]) hleft)
      (htame.tight (by simp [Expr.operands]) hright) h
  | number c h hnumber =>
    cases hsql
    exact groups_number hnumber
  | noneOf he hcall htext ih =>
    cases hsql
    exact groups_noneOf (ih hc (htame.part (by simp [Expr.ownParts])) htext) hcall
  | signed he _ _ _ htext ih =>
    cases hsql
    exact groups_signed (ih hc (htame.part (by simp [Expr.ownParts])) htext) _
  | guaranteed h =>
    rw [isGuaranteed, hc] at h
    cases h
  | @listed c left right op v l items _ hop hlist _ hl _ htexts ihLeft ihItems =>
    have hleft := htame.tight (by simp [Expr.operands])
      (ihLeft hc (htame.part (by simp [Expr.ownParts])) hl)
    have hitems : ∀ p ∈ items, Groups p.expr p.sql := fun p hp =>
      ihItems p hp hc (htame.item hlist (List.mem_map_of_mem hp)) (htexts p hp)
    exact groups_listed hop hlist hleft hitems hsql
  | pattern hop hlist _ hr ih =>
    have hright := ih hc (htame.part (by simp [Expr.ownParts])) hr
    exact groups_contained hop hlist (htame.tight (by simp [Expr.operands]) hright) hsql
  | @chain c left ops operands v first links hne hops hoperands _ hplain _ hfirst _ htexts ihLeft
      ihLinks =>
    cases hsql
    have hlinks : ∀ p ∈ links, p.2.expr ∈ (Expr.compare left ops operands).operands := by
      intro p hp
      exact List.mem_cons_of_mem _ (hoperands ▸ List.mem_map_of_mem hp)
    refine groups_chain hne hops hoperands (fun op p hp hop => ?_) ?_ fun p hp => ?_
    · exact (hplain op p hp hop).imp_right And.left
    · exact htame.tight List.mem_cons_self (ihLeft hc (htame.part List.mem_cons_self) hfirst)
    · exact htame.tight (hlinks p hp) (ihLinks p hp hc (htame.part (hlinks p hp)) (htexts p hp))
  | connected ps hps htwo _ hvalues htexts ih =>
    subst hps
    rw [conditionTexts_of_none hc hvalues] at hsql
    refine groups_connected htwo (fun p hp => ?_) hsql
    exact ih p hp hc (htame.part (List.mem_map_of_mem hp)) (htexts p hp)
  | absorbed _ h => cases h.isSatisfied_of_none hc
  | conditional _ _ _ ht hb ho ihTest ihBody ihOtherwise =>
    cases hsql
    exact groups_conditional (ihTest hc (htame.part (by simp [Expr.ownParts])) ht)
      (ihBody hc (htame.part (by simp [Expr.ownParts])) hb)
      (ihOtherwise hc (htame.part (by simp [Expr.ownParts])) ho)
  | length hid he ih =>
    subst hid
    cases hsql
    exact groups_length
      (Tame.parses_root (htame.part (by simp [Expr.ownParts, he.comprehensionParts])) he)
  | @quantified c id e element array target filters p ps hid htarget hparts _ harray hps hvalues
      htexts ihArray ih =>
    subst hid
    cases hsql
    rw [conditionTexts_of_none (c := c.within target) rfl hvalues]
    exact groups_existence hparts (isWordText_of_isIdentifier htarget.1)
      (htame.isPlainWord (by simp [Expr.ownWords, hparts]))
      (Tame.parses_root (htame.part (by simp [Expr.ownParts, hparts])) harray) hps fun p hp =>
        ih p hp rfl (htame.condition hparts (hps ▸ List.mem_map_of_mem hp)) (htexts p hp)
  | method hpattern _ hr ih =>
    have hvalue := ih hc (htame.part (by simp [Expr.ownParts])) hr
    exact groups_matching hpattern (htame.tight (by simp [Expr.operands]) hvalue) hsql
  | list ps hps _ htexts ih =>
    subst hps
    cases hsql
    exact groups_list fun p hp => ih p hp hc (htame.part (List.mem_map_of_mem hp)) (htexts p hp)
  | tuple ps hps _ htexts ih =>
    subst hps
    cases hsql
    exact groups_tuple fun p hp => ih p hp hc (htame.part (List.mem_map_of_mem hp)) (htexts p hp)

end Groups

/-! ## What is compiled -/

/-- An operand is a primary of SQL exactly if it is no negation, and where no operand is one the SQL is
grouped like the expression. -/
theorem compile_grouping {text : String} {e : Expr} (he : Expr.parse text = .ok e) {c : Context}
    (hc : c.guaranteed = none) {sql : String} (h : c.compile e = .ok sql) :
    (∀ d x o, Evaluates c e d x → o ∈ x.operands → ∃ operand, d.compile o = .ok operand ∧
      (o.isRooted = true → (IsPrimary operand ↔ o.isNegation = false))) ∧
    (Tame c e → ∃ t, Mirrors e t ∧ tree? sql = some t) := by
  obtain ⟨v, hv, hsql⟩ := bind_eq_ok h
  have hgives : Gives c e v := (parsed_of_parse he).gives hv
  constructor
  · intro d x o hx ho
    obtain ⟨hd, w, hw⟩ := hx.gives hc hgives
    obtain ⟨u, operand, hu, hoperand⟩ := hw.operand hd ho
    refine ⟨operand, compile_eq_ok (hu.eval hd) hoperand, fun hrooted => ⟨fun hprimary => ?_, ?_⟩⟩
    · rw [← Bool.not_eq_true]
      exact fun hnegation => hu.not_isPrimary hoperand hnegation hprimary
    · exact fun hnegation => hu.isPrimary hd hoperand hnegation hrooted
  · intro htame
    obtain ⟨t, ht, hparses, -⟩ := hgives.groups hc htame hsql
    exact ⟨t, ht, hparses.tree⟩

theorem compile_grouping_nested : ∃ (e : Expr) (t : Tree),
    let c := Context.of "person" .empty (.ofNames ["person"])
    Expr.parse "-person.a * 2 < (b if not c else 5)" = .ok e ∧ Tame c e ∧ Mirrors e t ∧
    tree? "((-(json_extract(json_data, '$.a')) * 2) < CASE WHEN NOT (c) THEN b ELSE 5 END)" = some t ∧
    IsPrimary "CASE WHEN NOT (c) THEN b ELSE 5 END" := by
  let c := Context.of "person" .empty (.ofNames ["person"])
  let product : Expr := .binary (.unary .neg (.attr (.name "person") "a")) .mul (.literal (.int 2))
  let choice : Expr := .conditional (.unary .not (.name "c")) (.name "b") (.literal (.int 5))
  let e : Expr := .compare product [.lt] [choice]
  have hchoice : c.compile choice = .ok "CASE WHEN NOT (c) THEN b ELSE 5 END" := by cbv
  have hcompile : c.compile e =
      .ok "((-(json_extract(json_data, '$.a')) * 2) < CASE WHEN NOT (c) THEN b ELSE 5 END)" := by cbv
  have hparse : Expr.parse "-person.a * 2 < (b if not c else 5)" = .ok e := by cbv
  have hnodes : ∀ x ∈ e.nodes, x.isTame = true := List.all_eq_true.1 (by decide)
  have htame : Tame c e := fun d x hx => hnodes x hx.mem_nodes
  obtain ⟨hoperands, htree⟩ := compile_grouping hparse rfl hcompile
  obtain ⟨t, ht, hsql⟩ := htree htame
  obtain ⟨operand, hoperand, hprimary⟩ := hoperands c e choice (.self c e) (by simp [e, Expr.operands])
  rw [hchoice] at hoperand
  cases hoperand
  exact ⟨e, t, hparse, htame, ht, hsql, (hprimary rfl).2 rfl⟩

/-- A negation on the left of a comparison becomes one of the comparison. -/
example : tree? "(NOT (a) = b)" = some (.unary (.sign .not)
    (.binary (.comparison .eq) (.words ["a".toList]) (.words ["b".toList]))) := by
  decide

end Sql

end DocQuery
