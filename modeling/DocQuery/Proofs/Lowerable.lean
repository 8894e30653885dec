import DocQuery.Proofs.Places
import DocQuery.Proofs.Recovery

/-! # What can be lowered

An expression has steps exactly if nothing in it is of a form that lowering refuses. A list or a tuple
of constants is loaded as a whole, but then there is nothing in it to be refused.

* `Expr.hasSteps`: the forms that have steps, if their parts have.
* `Expr.exists_lower_iff`: an expression has steps if it is of such a form and its parts have steps.
* `Expr.isRefused`: the forms of the grammar that have no steps.
* `exists_ofText_iff`: a text has a trace if it is read and nothing in its body is refused.
-/

set_option autoImplicit false

namespace DocQuery

namespace Expr

/-! ## Expressions -/

/-- The expression has steps. -/
def IsLowered (e : Expr) : Prop := ∃ steps, e.lower = .ok steps

/-- Whether an expression of this form has steps, if its parts have. -/
def hasSteps : Expr → Bool
  | compare _ ops operands => ops.length == 1 && operands.length == 1
  | call _ _ keywords => keywords.isEmpty
  | lambda _ _ _ _ => false
  | conditional _ _ _ => false
  | starred _ => false
  | slice _ _ _ => false
  | listComp _ _ => false
  | generator _ _ => false
  | display _ => false
  | _ => true

theorem not_isLowered {e : Expr} {refusal : Error} (h : e.lower = .error refusal) :
    ¬ e.IsLowered := by
  rintro ⟨steps, hsteps⟩
  rw [h] at hsteps
  cases hsteps

theorem isLowered_literal (l : Literal) : (literal l).IsLowered := ⟨_, rfl⟩

/-- The steps of two expressions in one. -/
theorem exists_bind_iff {x y : Except Error (List Step)} {f : List Step → List Step → List Step} :
    (∃ steps, (do let a ← x; let b ← y; return f a b) = .ok steps) ↔
      (∃ a, x = .ok a) ∧ ∃ b, y = .ok b := by
  constructor
  · rintro ⟨steps, h⟩
    obtain ⟨a, ha, h⟩ := bind_eq_ok h
    obtain ⟨b, hb, -⟩ := bind_eq_ok h
    exact ⟨⟨a, ha⟩, b, hb⟩
  · rintro ⟨⟨a, rfl⟩, b, rfl⟩
    exact ⟨f a b, rfl⟩

theorem exists_map_iff {α β : Type} {x : Except Error α} {f : α → β} :
    (∃ b, (do return f (← x)) = .ok b) ↔ ∃ a, x = .ok a := by
  constructor
  · rintro ⟨b, h⟩
    obtain ⟨a, ha, -⟩ := bind_eq_ok h
    exact ⟨a, ha⟩
  · rintro ⟨a, rfl⟩
    exact ⟨f a, rfl⟩

theorem exists_lowerAll_iff (es : List Expr) :
    (∃ steps, lowerAll es = .ok steps) ↔ ∀ e ∈ es, e.IsLowered := by
  induction es with
  | nil => simp [lowerAll]
  | cons e es ih => rw [lowerAll, exists_bind_iff, ih, List.forall_mem_cons, IsLowered]

theorem exists_lowerChain_iff (op : BoolOp) (es : List Expr) :
    (∃ steps, lowerChain op es = .ok steps) ↔ ∀ e ∈ es, e.IsLowered := by
  induction es with
  | nil => simp [lowerChain]
  | cons e es ih =>
    cases es with
    | nil => simp [lowerChain, IsLowered]
    | cons e' es =>
      rw [lowerChain, List.forall_mem_cons, ← ih]
      · exact exists_bind_iff
      · simp

/-- Constants have steps, whether they are loaded one by one or as a whole. -/
theorem isLowered_of_literals? {es : List Expr} {ls : List Literal} (h : literals? es = some ls) :
    ∀ e ∈ es, e.IsLowered := by
  rw [eq_map_of_literals? h]
  exact List.forall_mem_map.2 fun l _ => isLowered_literal l

theorem isLowered_items_iff {e : Expr} {items : List Expr} (he : e = list items ∨ e = tuple items) :
    e.IsLowered ↔ ∀ item ∈ items, item.IsLowered := by
  rcases he with rfl | rfl <;>
  · rw [IsLowered, lower]
    split
    · rename_i hconstants
      exact iff_of_true ⟨_, rfl⟩ (isLowered_of_literals? hconstants)
    · rw [exists_map_iff, exists_lowerAll_iff]

theorem isLowered_subscript_iff (value index : Expr) :
    (subscript value index).IsLowered ↔ value.IsLowered ∧ index.IsLowered := by
  by_cases hslice : ∃ lower upper step, index = slice lower upper step
  · obtain ⟨lower, upper, step, rfl⟩ := hslice
    exact iff_of_false (not_isLowered rfl) fun h => not_isLowered rfl h.2
  · rw [IsLowered, lower]
    · exact exists_bind_iff
    · rintro lower upper step rfl
      exact hslice ⟨lower, upper, step, rfl⟩

theorem isLowered_call_iff (callee : Expr) (args : List Expr) (keywords : List (Keyword Expr)) :
    (call callee args keywords).IsLowered ↔
      keywords = [] ∧ callee.IsLowered ∧ ∀ e ∈ args, e.IsLowered := by
  rw [IsLowered, lower]
  split
  · rename_i hrefused
    refine iff_of_false ?_ ?_
    · rintro ⟨steps, h⟩
      cases h
    rintro ⟨rfl, -, hargs⟩
    -- A spread argument has no steps of its own either.
    simp only [List.isEmpty_nil, Bool.not_true, Bool.false_or, List.any_eq_true] at hrefused
    obtain ⟨a, ha, hstarred⟩ := hrefused
    cases a with
    | starred value => exact not_isLowered rfl (hargs _ ha)
    | _ => cases hstarred
  · rename_i hplain
    rw [exists_bind_iff, exists_lowerAll_iff]
    simp only [Bool.or_eq_true, not_or, Bool.not_eq_true', Bool.not_eq_true] at hplain
    have hkeywords : keywords = [] := by simpa using hplain.1
    exact (and_iff_right hkeywords).symm

theorem isLowered_compare_iff (left : Expr) (ops : List CmpOp) (operands : List Expr) :
    (compare left ops operands).IsLowered ↔ (ops.length = 1 ∧ operands.length = 1) ∧
      ∀ e ∈ left :: operands, e.IsLowered := by
  by_cases hone : ops.length = 1 ∧ operands.length = 1
  · obtain ⟨op, rfl⟩ := List.length_eq_one_iff.1 hone.1
    obtain ⟨right, rfl⟩ := List.length_eq_one_iff.1 hone.2
    rw [IsLowered, lower, exists_bind_iff]
    simp [IsLowered]
  · have hchain : (compare left ops operands).lower =
        .error (.unsupported (compare left ops operands).render .chainedLowering) := by
      rw [lower]
      rintro op right rfl rfl
      exact hone ⟨rfl, rfl⟩
    exact iff_of_false (not_isLowered hchain) fun h => hone h.1

/-- An expression has steps exactly if it is of a form that has steps and its parts have. -/
theorem exists_lower_iff (e : Expr) :
    e.IsLowered ↔ e.hasSteps = true ∧ ∀ p ∈ e.parts, p.IsLowered := by
  cases e with
  | literal l => simp [isLowered_literal, hasSteps, parts]
  | name id => simp [IsLowered, lower, hasSteps, parts]
  | attr value label =>
    rw [IsLowered, lower, exists_map_iff]
    simp [IsLowered, hasSteps, parts]
  | binary left op right =>
    rw [IsLowered, lower, exists_bind_iff]
    simp [IsLowered, hasSteps, parts]
  | unary op operand =>
    rw [IsLowered, lower, exists_map_iff]
    simp [IsLowered, hasSteps, parts]
  | compare left ops operands => simp [isLowered_compare_iff, hasSteps, parts]
  | boolean op operands => simp [IsLowered, lower, exists_lowerChain_iff, hasSteps, parts]
  | call callee args keywords =>
    rw [isLowered_call_iff]
    simp only [hasSteps, parts, List.isEmpty_iff]
    refine and_congr_right ?_
    rintro rfl
    simp
  | subscript value index => simp [isLowered_subscript_iff, hasSteps, parts]
  | list items => simp [isLowered_items_iff (.inl rfl), hasSteps, parts]
  | tuple items => simp [isLowered_items_iff (.inr rfl), hasSteps, parts]
  | lambda params rest named body =>
    refine iff_of_false ?_ (by simp [hasSteps])
    cases params <;> cases rest <;> cases named <;> exact not_isLowered rfl
  | _ => exact iff_of_false (not_isLowered rfl) (by simp [hasSteps])

/-- An expression has steps exactly if everything inside it is of a form that has steps. -/
theorem isLowered_iff_inside (e : Expr) :
    e.IsLowered ↔ ∀ x : Expr, x.Inside e → x.hasSteps = true := by
  induction e using Expr.inside_induction with
  | step e ih =>
    rw [exists_lower_iff]
    constructor
    · rintro ⟨hself, hparts⟩ x hx
      cases hx with
      | self => exact hself
      | part hp hx => exact (ih _ hp _ .self).1 (hparts _ hp) x hx
    · intro h
      exact ⟨h e .self, fun p hp => (ih p hp p .self).2 fun x hx => h x (.part hp hx)⟩

/-! ## Trees of the grammar -/

/-- Whether the expression is of a form that is refused: a chain of several comparisons, a call with
keyword or spread arguments, a slice, a function, a conditional, a comprehension or a display. -/
def isRefused : Expr → Bool
  | compare _ ops _ => 1 < ops.length
  | call _ args keywords => !keywords.isEmpty || args.any isStarred
  | slice _ _ _ => true
  | lambda _ _ _ _ => true
  | conditional _ _ _ => true
  | listComp _ _ => true
  | generator _ _ => true
  | display _ => true
  | _ => false

/-- The body of a function, and any other expression itself. -/
def body : Expr → Expr
  | lambda _ _ _ body => body
  | e => e

theorem Inside.trans {x y e : Expr} (hx : x.Inside y) (hy : y.Inside e) : x.Inside e := by
  induction hy with
  | self => exact hx
  | part hp _ ih => exact .part hp ih

theorem hasSteps_of_isRefused {x : Expr} (hx : x.isRefused = true)
    (hargs : ∀ p ∈ x.parts, p.hasSteps = true) : x.hasSteps = false := by
  cases x with
  | compare left ops operands =>
    have htwo : 1 < ops.length := by simpa [isRefused] using hx
    simp only [hasSteps, Bool.and_eq_false_iff, beq_eq_false_iff_ne]
    exact .inl (by omega)
  | call callee args keywords =>
    simp only [isRefused, Bool.or_eq_true, List.any_eq_true] at hx
    rcases hx with hkeywords | ⟨a, ha, hstarred⟩
    · simpa [hasSteps] using hkeywords
    · have hsteps := hargs a (by simp [parts, ha])
      cases a with
      | starred value => cases hsteps
      | _ => cases hstarred
  | _ => simp [isRefused, hasSteps] at hx ⊢

end Expr

open DocQuery.Expr

namespace Site

/-- What stands where an argument does is the whole, or an argument of a call. -/
theorem eq_or_exists_call {x s : Site} (hx : x.Occurs s) (hplace : x.place = .argument) :
    x = s ∨ ∃ callee args keywords,
      (call callee args keywords).Inside s.expr ∧ x.expr ∈ args := by
  induction hx with
  | self => exact .inl rfl
  | @part s p hp _ ih =>
    right
    rcases ih with rfl | ⟨callee, args, keywords, hinside, hmem⟩
    · obtain ⟨place, e⟩ := s
      cases e with
      | call callee args keywords =>
        refine ⟨callee, args, keywords, .self, ?_⟩
        simp only [parts, List.mem_cons, List.mem_append, List.mem_map] at hp
        rcases hp with rfl | ⟨a, ha, rfl⟩ | ⟨k, _, rfl⟩
        · cases hplace
        · exact ha
        · cases hplace
      | subscript value index =>
        simp only [parts, List.mem_cons, List.not_mem_nil, or_false] at hp
        rcases hp with rfl | rfl <;> cases hplace
      | tuple items =>
        cases place <;> obtain ⟨a, _, rfl⟩ := List.mem_map.1 hp <;> cases hplace
      | _ =>
        obtain ⟨a, _, rfl⟩ := List.mem_map.1 hp
        cases hplace
    · refine ⟨callee, args, keywords, .part ?_ hinside, hmem⟩
      rw [← map_expr_parts]
      exact List.mem_map_of_mem hp

/-- In a well-formed tree, where nothing is refused everything is of a form that has steps. -/
theorem Sound.hasSteps {place : Role} {e x : Expr} (h : Sound ⟨place, e⟩)
    (hplace : place ≠ .argument) (hrefused : ∀ y : Expr, y.Inside e → y.isRefused = false)
    (hx : x.Inside e) : x.hasSteps = true := by
  obtain ⟨q, hoccurs⟩ := (inside_iff_exists_occurs place).1 hx
  have hwell := h _ hoccurs
  have hself := hrefused x hx
  cases x with
  | compare left ops operands =>
    obtain ⟨hlength, hone⟩ := hwell
    have hsingle : ¬ 1 < ops.length := by simpa [isRefused] using hself
    simp only [Expr.hasSteps, Bool.and_eq_true, beq_iff_eq]
    omega
  | call callee args keywords =>
    simp only [isRefused, Bool.or_eq_false_iff] at hself
    simpa [Expr.hasSteps] using hself.1
  | starred value =>
    -- It is an argument, so the call around it is refused.
    rcases eq_or_exists_call hoccurs hwell with heq | ⟨callee, args, keywords, hinside, hmem⟩
    · cases heq
      exact absurd hwell hplace
    · have hcall := hrefused _ hinside
      simp only [isRefused, Bool.or_eq_false_iff, List.any_eq_false] at hcall
      exact absurd rfl (hcall.2 _ hmem)
  | _ => simp [isRefused, Expr.hasSteps] at hself ⊢

/-- A well-formed tree has steps exactly if nothing in it is refused. -/
theorem Sound.isLowered_iff {place : Role} {e : Expr} (h : Sound ⟨place, e⟩)
    (hplace : place ≠ .argument) :
    e.IsLowered ↔ ∀ x : Expr, x.Inside e → x.isRefused = false := by
  rw [isLowered_iff_inside]
  constructor
  · intro hsteps x hx
    by_contra hrefused
    have hparts : ∀ p ∈ x.parts, p.hasSteps = true :=
      fun p hp => hsteps p (.trans (.part hp .self) hx)
    have hself := hasSteps_of_isRefused (by simpa using hrefused) hparts
    simp [hsteps x hx] at hself
  · exact fun hrefused x hx => h.hasSteps hplace hrefused hx

end Site

/-! ## Texts -/

/-- The body of a tree of the grammar is well-formed. -/
theorem Parsed.sound_body {e : Expr} (h : Parsed e) : Site.Sound ⟨.elsewhere, e.body⟩ := by
  have hsound := h.sound .elsewhere
  cases e with
  | lambda params rest named body =>
    refine (Site.forall_occurs_iff.1 hsound).2 ⟨.elsewhere, body⟩ ?_
    simp [Site.parts, parts]
  | _ => exact hsound

theorem exists_ofBody_iff (params : List String) (e : Expr) :
    (∃ trace, Trace.ofBody params e = .ok trace) ↔ e.IsLowered :=
  exists_map_iff

theorem exists_ofExpr_iff (e : Expr) : (∃ trace, Trace.ofExpr e = .ok trace) ↔ e.body.IsLowered := by
  cases e with
  | lambda params rest named body => exact exists_ofBody_iff _ _
  | _ => exact exists_ofBody_iff _ _

/-- A text has a trace exactly if it is read and nothing in its body, at any depth, is a chain of
comparisons, a call with keyword or spread arguments, a slice, a function, a conditional, a
comprehension or a display. -/
theorem exists_ofText_iff (t : String) :
    (∃ trace, Trace.ofText t = .ok trace) ↔
      ∃ e, Expr.parse t = .ok e ∧ ∀ x : Expr, x.Inside e.body → x.isRefused = false := by
  constructor
  · rintro ⟨trace, h⟩
    obtain ⟨e, hparse, htrace⟩ := bind_eq_ok h
    have hlowered := (exists_ofExpr_iff e).1 ⟨trace, htrace⟩
    exact ⟨e, hparse, ((parsed_of_parse hparse).sound_body.isLowered_iff (by decide)).1 hlowered⟩
  · rintro ⟨e, hparse, hrefused⟩
    have hlowered := ((parsed_of_parse hparse).sound_body.isLowered_iff (by decide)).2 hrefused
    obtain ⟨trace, htrace⟩ := (exists_ofExpr_iff e).2 hlowered
    refine ⟨trace, ?_⟩
    rw [Trace.ofText, hparse]
    exact htrace

end DocQuery
