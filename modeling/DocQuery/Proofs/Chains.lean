import DocQuery.Proofs.Growth

/-! # Comparison chains

A chain is a conjunction of links, each of which compares an operand with the next one. A comparison
that stands alone is written like a link, unless it is a membership test with a form of its own: one
in nothing, one of a text, which becomes a pattern test, or one that is refused.

* `Comparison`: a single comparison; `Comparison.ofChain` gives those of a chain.
* `Comparison.Rewritten`, `Comparison.Nested`: the tests that are written in another way, or
  refused, when they stand alone.
* `Sql.compile_chain`: a chain is the conjunction of its comparisons exactly if none is of these.
-/

set_option autoImplicit false

namespace DocQuery

/-- A single comparison. -/
structure Comparison where
  left : Expr
  op : CmpOp
  right : Expr

namespace Comparison

def expr (s : Comparison) : Expr := .compare s.left [s.op] [s.right]

/-- The comparisons of a chain: each operand with the next one. -/
def ofChain : Expr → List CmpOp → List Expr → List Comparison
  | left, op :: ops, right :: operands => ⟨left, op, right⟩ :: ofChain right ops operands
  | _, _, _ => []

theorem length_ofChain {ops : List CmpOp} {operands : List Expr}
    (h : ops.length = operands.length) (left : Expr) :
    (ofChain left ops operands).length = ops.length := by
  induction ops generalizing left operands with
  | nil => simp [ofChain]
  | cons op ops ih =>
    cases operands with
    | nil => cases h
    | cons right operands => rw [ofChain, List.length_cons, ih (Nat.succ.inj h), List.length_cons]

/-- The comparison asks whether something is in something, or is not. -/
def IsMembership (s : Comparison) : Prop := s.op = .elemOf ∨ s.op = .notElemOf

/-- The membership tests that are written in another way when they stand alone: those in nothing,
and those of a text in what is no list. -/
def Rewritten (s : Comparison) : Prop :=
  s.IsMembership ∧ (s.right = .literal .none ∨
    (Sql.listed? s.right = none ∧ ∃ text, s.left = .literal (.str text)))

/-- The membership tests that are refused when they stand alone: those of a name that stands for
nothing in a field. -/
def Nested (c : Sql.Context) (s : Comparison) : Prop :=
  s.IsMembership ∧ ∃ id path, s.left = .name id ∧ (c.scope.resolve id).isUnbound = true ∧
    c.eval s.right = .ok (.path path)

end Comparison

namespace Sql

open Context

variable {c : Context} {left right : Expr} {op : CmpOp} {ops : List CmpOp} {operands : List Expr}
  {l r current : String} {items : List String}

/-! ## Links -/

def linkText (l : String) (op : CmpOp) (r : String) : String :=
  "(" ++ l ++ " " ++ comparison op ++ " " ++ r ++ ")"

theorem links_cons (op : CmpOp) (ops : List CmpOp) (e : Expr) (es : List Expr) :
    c.links current (op :: ops) (e :: es) = (do
      let next ← c.compile e
      return linkText current op next :: (← c.links next ops es)) := by
  rw [links, compile, bind_assoc]
  rfl

theorem linked_eq (hlength : ops.length = operands.length) (hne : ops ≠ []) :
    linked c left ops operands = (do
      let first ← c.compile left
      return .text (chained (← c.links first ops operands))) := by
  rw [linked, if_neg (by simp [hlength, hne]), compile, bind_assoc]

theorem exists_compile_of_linked {v : Value} (h : linked c left [op] [right] = .ok v) :
    (∃ l, c.compile left = .ok l) ∧ ∃ r, c.compile right = .ok r := by
  rw [linked_eq rfl (by simp)] at h
  obtain ⟨l, hl, h⟩ := bind_eq_ok h
  obtain ⟨items, hitems, -⟩ := bind_eq_ok h
  rw [links_cons] at hitems
  obtain ⟨r, hr, -⟩ := bind_eq_ok hitems
  exact ⟨⟨l, hl⟩, r, hr⟩

theorem linked_single (hl : c.compile left = .ok l) (hr : c.compile right = .ok r) :
    linked c left [op] [right] = .ok (.text (linkText l op r)) := by
  rw [linked_eq rfl (by simp), hl]
  change (do return Value.text (chained (← c.links l [op] [right]))) = _
  rw [links_cons, hr]
  rfl

/-! ## Comparisons that stand alone -/

theorem membershipOp?_of_isMembership {s : Comparison} (h : s.IsMembership) :
    membershipOp? [s.op] = some s.op := by
  rcases h with h | h <;> rw [h] <;> rfl

theorem membershipOp?_eq_none {s : Comparison} (h : ¬ s.IsMembership) :
    membershipOp? [s.op] = none := by
  obtain ⟨hin, hnot⟩ := not_or.1 h
  cases hop : s.op with
  | elemOf => exact absurd hop hin
  | notElemOf => exact absurd hop hnot
  | _ => rfl

theorem not_isGuaranteed (hc : c.guaranteed = none) (e : Expr) : c.isGuaranteed e = false := by
  rw [isGuaranteed, hc]
  rfl

/-- What a test can list is nothing, or the items of a list. -/
theorem eval_of_listed {e : Expr} {es : List Expr} (hlist : listed? e = some es) :
    (e = .literal .none ∧ es = []) ∨
      (e ≠ .literal .none ∧ c.eval e = (do return .sequence (← c.compileAll es))) := by
  obtain rfl | rfl | hnone := listed_cases hlist
  · exact .inr ⟨by simp, by rw [eval]⟩
  · exact .inr ⟨by simp, by rw [eval]⟩
  · exact .inl hnone

theorem eval_ne_path_of_listed {e : Expr} {es : List Expr} (hlist : listed? e = some es)
    (path : FieldPath) : c.eval e ≠ .ok (.path path) := by
  intro h
  rcases eval_of_listed hlist with ⟨rfl, -⟩ | ⟨-, heval⟩
  · cases h
  · rw [heval] at h
    obtain ⟨ts, -, h⟩ := bind_eq_ok h
    cases h

/-- What a test can list compiles exactly if all items do. -/
theorem exists_compile_iff_of_listed {e : Expr} {es : List Expr} (hlist : listed? e = some es) :
    (∃ r, c.compile e = .ok r) ↔ ∃ ts, c.compileAll es = .ok ts := by
  rcases eval_of_listed (c := c) hlist with ⟨rfl, rfl⟩ | ⟨-, heval⟩
  · exact iff_of_true ⟨_, rfl⟩ ⟨[], by rw [compileAll]⟩
  · rw [compile, heval]
    cases c.compileAll es with
    | error e => exact iff_of_false (by rintro ⟨r, ⟨⟩⟩) (by rintro ⟨ts, ⟨⟩⟩)
    | ok ts => exact iff_of_true ⟨_, rfl⟩ ⟨ts, rfl⟩

/-- Where a test in what is no list has a value, its operands compile. -/
theorem exists_compile_of_testedIn {v : Value} (h : testedIn c left op [op] right = .ok v) :
    (∃ l, c.compile left = .ok l) ∧ ∃ r, c.compile right = .ok r := by
  cases left with
  | literal k =>
    cases k with
    | str text =>
      obtain ⟨w, hw, h⟩ := bind_eq_ok h
      obtain ⟨r, hr, -⟩ := bind_eq_ok h
      exact ⟨⟨_, rfl⟩, r, compile_eq_ok hw hr⟩
    | _ => exact exists_compile_of_linked h
  | name id =>
    rw [testedIn] at h
    split at h
    · obtain ⟨w, hw, h⟩ := bind_eq_ok h
      cases w with
      | path path => cases h
      | _ => exact exists_compile_of_linked h
    · exact exists_compile_of_linked h
  | _ => exact exists_compile_of_linked h

/-- The pattern of a text is longer than the text, and its test longer than a link. -/
theorem length_linkText_lt (hop : op = .elemOf ∨ op = .notElemOf) (text r : String) :
    (linkText (quote text) op r).length <
      ("(" ++ r ++ (if decide (op = .notElemOf) then " NOT LIKE " else " LIKE ") ++
        quote ("%" ++ text ++ "%") ++ ")").length := by
  have hquote : (quote text).length + 2 ≤ (quote ("%" ++ text ++ "%")).length := by
    have hdoubled := length_le_doubled text.toList ['%']
    have hpattern : ("%" ++ text ++ "%").toList = '%' :: (text.toList ++ ['%']) := by simp
    have hpercent : (doubled ('%' :: (text.toList ++ ['%']))).length =
        (doubled (text.toList ++ ['%'])).length + 1 := rfl
    rw [length_quote, length_quote, hpattern, hpercent]
    simp only [List.length_cons, List.length_nil] at hdoubled
    omega
  have hspelling : (" ".length + (comparison op).length + " ".length) + 2 =
      (if decide (op = .notElemOf) then " NOT LIKE " else " LIKE ").length := by
    rcases hop with rfl | rfl <;> rfl
  simp only [linkText, String.length_append]
  omega

/-- Beside a link of a chain, its comparison alone: it is refused if it is nested, and otherwise it
is written like the link, or longer if it is rewritten. -/
def Matches (c : Context) (link : String) (s : Comparison) : Prop :=
  (s.Nested c ∧ ∃ e, c.compile s.expr = .error e) ∨
    (¬ s.Nested c ∧ ∃ t, c.compile s.expr = .ok t ∧ Longer s.Rewritten link t)

section Single

variable (hc : c.guaranteed = none) {s : Comparison}
include hc

theorem eval_plain (hop : ¬ s.IsMembership) :
    c.eval s.expr = linked c s.left [s.op] [s.right] := by
  rw [Comparison.expr, eval_compare, not_isGuaranteed hc, membershipOp?_eq_none hop]
  rfl

theorem eval_listed (hop : s.IsMembership) {es : List Expr} (hlist : listed? s.right = some es) :
    c.eval s.expr = (do
      let l ← c.compile s.left
      return listTest l s.op (← c.compileAll es)) := by
  rw [Comparison.expr, eval_compare, not_isGuaranteed hc, membershipOp?_of_isMembership hop]
  simp only [hlist, compile, bind_assoc]
  rfl

theorem eval_tested (hop : s.IsMembership) (hlist : listed? s.right = none) :
    c.eval s.expr = testedIn c s.left s.op [s.op] s.right := by
  rw [Comparison.expr, eval_compare, not_isGuaranteed hc, membershipOp?_of_isMembership hop]
  simp only [hlist]
  rfl

/-- A membership test in a list is written like a link, and one in nothing in parentheses. -/
theorem compile_listed (hop : s.IsMembership) {es : List Expr} (hlist : listed? s.right = some es)
    (hl : c.compile s.left = .ok l) (hr : c.compile s.right = .ok r) :
    ∃ t, c.compile s.expr = .ok t ∧ Longer (s.right = .literal .none) (linkText l s.op r) t := by
  have heval := eval_listed hc hop hlist
  rw [hl] at heval
  rcases eval_of_listed (c := c) hlist with ⟨hnone, rfl⟩ | ⟨hnone, hright⟩
  · rw [hnone] at hr
    cases hr
    rw [compileAll] at heval
    refine ⟨_, compile_eq_ok heval rfl, .more hnone ?_⟩
    have hopen : " (".length = " ".length + 1 := rfl
    have hclose : "))".length = ")".length + 1 := rfl
    have hnull : (sequence []).length = Literal.none.sql.length := rfl
    simp only [linkText, String.length_append, hopen, hclose, hnull]
    omega
  · obtain ⟨ts, hts⟩ := (exists_compile_iff_of_listed hlist).1 ⟨r, hr⟩
    rw [compile, hright, hts] at hr
    rw [hts] at heval
    cases hr
    refine ⟨_, compile_eq_ok heval rfl, .same hnone ?_⟩
    rw [← String.toList_inj]
    simp [linkText]

/-- A membership test in what is no list is refused, is a pattern test or is written like a link. -/
theorem compile_tested (hop : s.IsMembership) (hlist : listed? s.right = none)
    (hl : c.compile s.left = .ok l) (hr : c.compile s.right = .ok r) :
    (s.Nested c ∧ ∃ e, c.compile s.expr = .error e) ∨
      (¬ s.Nested c ∧ ∃ t, c.compile s.expr = .ok t ∧
        Longer (∃ text, s.left = .literal (.str text)) (linkText l s.op r) t) := by
  have heval := eval_tested hc hop hlist
  obtain ⟨v, hv, hsql⟩ := bind_eq_ok hr
  by_cases hnested : s.Nested c
  · refine .inl ⟨hnested, ?_⟩
    obtain ⟨-, id, path, hname, hunbound, hpath⟩ := hnested
    rw [hname, testedIn, if_pos hunbound, hpath] at heval
    exact ⟨_, by rw [compile, heval]; rfl⟩
  · refine .inr ⟨hnested, ?_⟩
    by_cases htext : ∃ text, s.left = .literal (.str text)
    · obtain ⟨text, hleft⟩ := htext
      rw [hleft] at heval hl
      cases hl
      rw [testedIn, hv] at heval
      change _ = (do return patternTest (← c.sqlOf s.right v) _ _) at heval
      rw [hsql] at heval
      exact ⟨_, compile_eq_ok heval rfl, .more ⟨text, hleft⟩ (length_linkText_lt hop text r)⟩
    · have hname : ∀ id path, s.left = .name id → (c.scope.resolve id).isUnbound = true →
          v ≠ .path path := by
        rintro id path hleft hunbound rfl
        exact hnested ⟨hop, id, path, hleft, hunbound, hv⟩
      rw [testedIn_eq_linked hv (not_exists.1 htext) hname, linked_single hl hr] at heval
      exact ⟨_, compile_eq_ok heval rfl, .same htext rfl⟩

theorem matches_comparison (hl : c.compile s.left = .ok l) (hr : c.compile s.right = .ok r) :
    Matches c (linkText l s.op r) s := by
  by_cases hop : s.IsMembership
  · cases hlist : listed? s.right with
    | some es =>
      have hnested : ¬ s.Nested c := by
        rintro ⟨-, id, path, -, -, hpath⟩
        exact eval_ne_path_of_listed hlist path hpath
      have hrewritten : s.Rewritten ↔ s.right = .literal .none := by
        simp [Comparison.Rewritten, hop, hlist]
      rw [Matches, hrewritten]
      exact .inr ⟨hnested, compile_listed hc hop hlist hl hr⟩
    | none =>
      have hright : s.right ≠ .literal .none := by
        intro hright
        rw [hright] at hlist
        cases hlist
      have hrewritten : s.Rewritten ↔ ∃ text, s.left = .literal (.str text) := by
        simp [Comparison.Rewritten, hop, hlist, hright]
      rw [Matches, hrewritten]
      exact compile_tested hc hop hlist hl hr
  · have hplain := (eval_plain hc hop).trans (linked_single hl hr)
    refine .inr ⟨fun hnested => hop hnested.1, _, compile_eq_ok hplain rfl, .same ?_ rfl⟩
    exact fun hrewritten => hop hrewritten.1

/-- The operands of a comparison that compiles or is refused as nested compile. -/
theorem exists_compile_operands
    (h : (∃ t, c.compile s.expr = .ok t) ∨ s.Nested c) :
    (∃ l, c.compile s.left = .ok l) ∧ ∃ r, c.compile s.right = .ok r := by
  rcases h with ⟨t, ht⟩ | ⟨-, id, path, hleft, hunbound, hright⟩
  · obtain ⟨v, hv, -⟩ := bind_eq_ok ht
    by_cases hop : s.IsMembership
    · cases hlist : listed? s.right with
      | some es =>
        rw [eval_listed hc hop hlist] at hv
        obtain ⟨l, hl, hv⟩ := bind_eq_ok hv
        obtain ⟨ts, hts, -⟩ := bind_eq_ok hv
        exact ⟨⟨l, hl⟩, (exists_compile_iff_of_listed hlist).2 ⟨ts, hts⟩⟩
      | none =>
        rw [eval_tested hc hop hlist] at hv
        exact exists_compile_of_testedIn hv
    · rw [eval_plain hc hop] at hv
      exact exists_compile_of_linked hv
  · refine ⟨?_, _, compile_eq_ok hright rfl⟩
    rw [hleft, compile, eval, named]
    cases hid : c.scope.resolve id with
    | unbound => exact ⟨_, rfl⟩
    | _ =>
      rw [hid] at hunbound
      cases hunbound

/-! ## Chains -/

/-- The links of a chain and its comparisons, one by one. -/
theorem links_matches (hlength : ops.length = operands.length)
    (hleft : c.compile left = .ok current)
    (h : c.links current ops operands = .ok items) :
    List.Forall₂ (Matches c) items (Comparison.ofChain left ops operands) := by
  induction operands generalizing left ops current items with
  | nil =>
    obtain rfl := List.length_eq_zero_iff.1 hlength
    cases h
    exact .nil
  | cons right operands ih =>
    cases ops with
    | nil => cases hlength
    | cons op ops =>
      rw [links_cons] at h
      obtain ⟨next, hnext, h⟩ := bind_eq_ok h
      obtain ⟨rest, hrest, h⟩ := bind_eq_ok h
      cases h
      exact .cons (matches_comparison hc (s := ⟨left, op, right⟩) hleft hnext)
        (ih (Nat.succ.inj hlength) hnext hrest)

/-- If all comparisons of a chain compile or are refused as nested, its links compile. -/
theorem exists_links (hlength : ops.length = operands.length) (hleft : c.compile left = .ok current)
    (h : ∀ s ∈ Comparison.ofChain left ops operands,
      (∃ t, c.compile s.expr = .ok t) ∨ s.Nested c) :
    ∃ items, c.links current ops operands = .ok items := by
  induction operands generalizing left ops current with
  | nil =>
    obtain rfl := List.length_eq_zero_iff.1 hlength
    exact ⟨[], rfl⟩
  | cons right operands ih =>
    cases ops with
    | nil => cases hlength
    | cons op ops =>
      obtain ⟨hs, hrest⟩ := List.forall_mem_cons.1 h
      obtain ⟨-, next, hnext⟩ := exists_compile_operands hc hs
      obtain ⟨items, hitems⟩ := ih (Nat.succ.inj hlength) hnext hrest
      refine ⟨linkText current op next :: items, ?_⟩
      rw [links_cons, hnext]
      change (do return _ :: (← c.links next ops operands)) = _
      rw [hitems]
      rfl

/-- A chain of at least two links compiles to their conjunction. -/
theorem compile_compare_eq_ok (hlength : ops.length = operands.length) (hmany : 2 ≤ ops.length)
    {sql : String} : c.compile (.compare left ops operands) = .ok sql ↔
      ∃ first items, c.compile left = .ok first ∧ c.links first ops operands = .ok items ∧
        sql = "(" ++ " AND ".intercalate items ++ ")" := by
  have hop : membershipOp? ops = none := by
    cases hop : membershipOp? ops with
    | none => rfl
    | some op =>
      rw [membershipOp_eq_some hop] at hmany
      simp at hmany
  have heval : c.eval (.compare left ops operands) = linked c left ops operands := by
    rw [eval_compare, not_isGuaranteed hc, hop]
    rfl
  have hchained : ∀ {first items}, c.compile left = .ok first →
      c.links first ops operands = .ok items →
      chained items = "(" ++ " AND ".intercalate items ++ ")" := by
    intro first items hfirst hitems
    have hcount := (links_matches hc hlength hfirst hitems).length_eq
    rw [Comparison.length_ofChain hlength] at hcount
    rcases items with _ | ⟨a, _ | ⟨b, rest⟩⟩
    · simp only [List.length_nil] at hcount
      omega
    · simp only [List.length_cons, List.length_nil] at hcount
      omega
    · rfl
  rw [linked_eq hlength (by rintro rfl; simp at hmany)] at heval
  constructor
  · intro h
    obtain ⟨v, hv, hsql⟩ := bind_eq_ok h
    rw [heval] at hv
    obtain ⟨first, hfirst, hv⟩ := bind_eq_ok hv
    obtain ⟨items, hitems, hv⟩ := bind_eq_ok hv
    cases hv
    cases hsql
    exact ⟨first, items, hfirst, hitems, hchained hfirst hitems⟩
  · rintro ⟨first, items, hfirst, hitems, rfl⟩
    rw [hfirst] at heval
    change _ = (do return Value.text (chained (← c.links first ops operands))) at heval
    rw [hitems] at heval
    rw [compile_eq_ok heval rfl, hchained hfirst hitems]

end Single

/-- Comparisons that compile alone are together at least as long as the links, and longer if one of
them is rewritten. -/
theorem total_le_of_matches {comparisons : List Comparison} {parts : List String}
    (h : List.Forall₂ (Matches c) items comparisons)
    (hparts : List.Forall₂ (fun s part => c.compile s.expr = .ok part) comparisons parts) :
    (∀ s ∈ comparisons, ¬ s.Nested c) ∧ items.length = parts.length ∧ total items ≤ total parts ∧
      ((∃ s ∈ comparisons, s.Rewritten) → total items < total parts) := by
  induction h generalizing parts with
  | nil =>
    cases hparts
    simp
  | @cons link s items comparisons hmatch _ ih =>
    obtain ⟨part, parts, hpart, hrest, rfl⟩ := List.forall₂_cons_left_iff.1 hparts
    obtain ⟨hnested, hlength, hle, hlt⟩ := ih hrest
    rcases hmatch with ⟨-, e, he⟩ | ⟨hs, t, ht, hlonger⟩
    · rw [hpart] at he
      cases he
    · rw [hpart] at ht
      cases ht
      have hfirst := hlonger.length_le
      simp only [total, List.map_cons, List.sum_cons] at hle hlt ⊢
      refine ⟨List.forall_mem_cons.2 ⟨hs, hnested⟩, by simp [hlength], by omega, ?_⟩
      rintro ⟨s', hs', hrewritten⟩
      rcases List.mem_cons.1 hs' with rfl | hs'
      · have hmore := hlonger.length_lt hrewritten
        omega
      · have hmore := hlt ⟨s', hs', hrewritten⟩
        omega

/-- Comparisons that are neither nested nor rewritten are written like the links. -/
theorem compile_of_matches {comparisons : List Comparison}
    (h : List.Forall₂ (Matches c) items comparisons)
    (hplain : ∀ s ∈ comparisons, ¬ s.Nested c ∧ ¬ s.Rewritten) :
    List.Forall₂ (fun s part => c.compile s.expr = .ok part) comparisons items := by
  induction h with
  | nil => exact .nil
  | cons hmatch _ ih =>
    obtain ⟨hs, hrest⟩ := List.forall_mem_cons.1 hplain
    rcases hmatch with ⟨hnested, -⟩ | ⟨-, t, ht, hlonger⟩
    · exact absurd hnested hs.1
    · rw [hlonger.eq hs.2]
      exact .cons ht (ih hrest)

theorem exists_of_matches {comparisons : List Comparison}
    (h : List.Forall₂ (Matches c) items comparisons) :
    ∀ s ∈ comparisons, (∃ t, c.compile s.expr = .ok t) ∨ s.Nested c := by
  induction h with
  | nil => simp
  | cons hmatch _ ih =>
    refine List.forall_mem_cons.2 ⟨?_, ih⟩
    rcases hmatch with ⟨hnested, -⟩ | ⟨-, t, ht, -⟩
    · exact .inr hnested
    · exact .inl ⟨t, ht⟩

/-- Where no membership test is guaranteed, a chain compiles exactly if each of its comparisons does
or is refused as nested. It is then the conjunction of what its comparisons compile to exactly if
none of them is nested or rewritten. -/
theorem compile_chain (c : Context) (hc : c.guaranteed = none) (left : Expr) (ops : List CmpOp)
    (operands : List Expr) (hlength : ops.length = operands.length) (hmany : 2 ≤ ops.length) :
    ((∃ sql, c.compile (.compare left ops operands) = .ok sql) ↔
      ∀ s ∈ Comparison.ofChain left ops operands,
        (∃ sql, c.compile s.expr = .ok sql) ∨ s.Nested c) ∧
    ∀ sql, c.compile (.compare left ops operands) = .ok sql →
      ((∃ parts, List.Forall₂ (fun s part => c.compile s.expr = .ok part)
          (Comparison.ofChain left ops operands) parts ∧
          sql = "(" ++ " AND ".intercalate parts ++ ")") ↔
        ∀ s ∈ Comparison.ofChain left ops operands, ¬ s.Nested c ∧ ¬ s.Rewritten) := by
  refine ⟨⟨?_, fun h => ?_⟩, fun sql hsql => ?_⟩
  · rintro ⟨sql, hsql⟩
    obtain ⟨first, items, hfirst, hitems, -⟩ := (compile_compare_eq_ok hc hlength hmany).1 hsql
    exact exists_of_matches (links_matches hc hlength hfirst hitems)
  · obtain ⟨first, hfirst⟩ : ∃ first, c.compile left = .ok first := by
      cases ops with
      | nil => simp at hmany
      | cons op ops =>
        cases operands with
        | nil => cases hlength
        | cons right operands => exact (exists_compile_operands hc (h _ List.mem_cons_self)).1
    obtain ⟨items, hitems⟩ := exists_links hc hlength hfirst h
    exact ⟨_, (compile_compare_eq_ok hc hlength hmany).2 ⟨first, items, hfirst, hitems, rfl⟩⟩
  · obtain ⟨first, items, hfirst, hitems, rfl⟩ := (compile_compare_eq_ok hc hlength hmany).1 hsql
    have hmatches := links_matches hc hlength hfirst hitems
    constructor
    · rintro ⟨parts, hparts, htext⟩
      obtain ⟨hnested, hcount, -, hlonger⟩ := total_le_of_matches hmatches hparts
      refine fun s hs => ⟨hnested s hs, fun hrewritten => ?_⟩
      have htotal := congrArg String.length htext
      simp only [String.length_append, length_intercalate, hcount] at htotal
      have hmore := hlonger ⟨s, hs, hrewritten⟩
      omega
    · intro hplain
      exact ⟨items, compile_of_matches hmatches hplain, rfl⟩

/-- A chain that ends in a list is the conjunction of its comparisons, and one that starts with a
text is not. -/
theorem compile_chain_text :
    let c := Context.of "person" .empty (.ofNames ["person"])
    let ofNumber := Comparison.ofChain (.literal (.int 1)) [.lt, .elemOf]
      [.name "x", .list [.literal (.int 2)]]
    let ofText := Comparison.ofChain (.literal (.str "x")) [.elemOf, .eq] [.name "a", .name "b"]
    (∃ parts, List.Forall₂ (fun s part => c.compile s.expr = .ok part) ofNumber parts ∧
      "((1 < x) AND (x IN (2)))" = "(" ++ " AND ".intercalate parts ++ ")") ∧
    ¬ ∃ parts, List.Forall₂ (fun s part => c.compile s.expr = .ok part) ofText parts ∧
      "(('x' IN a) AND (a = b))" = "(" ++ " AND ".intercalate parts ++ ")" := by
  intro c ofNumber ofText
  have hnumber : c.compile (.compare (.literal (.int 1)) [.lt, .elemOf]
      [.name "x", .list [.literal (.int 2)]]) = .ok "((1 < x) AND (x IN (2)))" := by cbv
  have htext : c.compile (.compare (.literal (.str "x")) [.elemOf, .eq] [.name "a", .name "b"]) =
      .ok "(('x' IN a) AND (a = b))" := by cbv
  constructor
  · refine ((compile_chain c rfl _ _ _ rfl (by decide)).2 _ hnumber).2 fun s hs => ?_
    simp only [Comparison.ofChain, List.mem_cons, List.not_mem_nil, or_false] at hs
    rcases hs with rfl | rfl
    · have hop : ¬ Comparison.IsMembership ⟨.literal (.int 1), .lt, .name "x"⟩ := by
        simp [Comparison.IsMembership]
      exact ⟨fun h => hop h.1, fun h => hop h.1⟩
    · refine ⟨?_, by simp [Comparison.Rewritten, listed?]⟩
      rintro ⟨-, id, path, -, -, hpath⟩
      exact eval_ne_path_of_listed rfl path hpath
  · intro h
    have hplain := ((compile_chain c rfl _ _ _ rfl (by decide)).2 _ htext).1 h _ List.mem_cons_self
    exact hplain.2 ⟨.inl rfl, .inr ⟨rfl, "x", rfl⟩⟩

end Sql

end DocQuery
