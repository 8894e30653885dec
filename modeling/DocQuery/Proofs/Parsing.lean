import Mathlib
import DocQuery.Parsing.Parser

/-! # What the combinators read

The statements about parsers that the proofs on the grammar are built from. A parser can be known
by what it does at one place (`Fails`, an equation with `Reply.ok`), by a run of readings one after
the other (`Steps`), or by what holds of every value that it answers with (`Ensures`).

* `many_of_steps`, `sepBy1_of_steps`: a run that cannot go on is what a repetition reads.
* `Ensures.bind`, `Ensures.many`, …: values keep a property through the combinators.
-/

set_option autoImplicit false

namespace DocQuery.Parser

variable {α β : Type} {p q : Parser α} {s s' r r' : List Char} {a : α} {as : List α}

/-! ## Readings at one place -/

/-- The parser cannot read anything at the start of `s`. -/
def Fails (p : Parser α) (s : List Char) : Prop := ∃ place, p s = .error place

theorem fails_bind (h : Fails p s) (f : α → Parser β) : Fails (p >>= f) s := by
  obtain ⟨place, h⟩ := h
  exact ⟨place, bind_error h f⟩

theorem fails_bind_ok {f : α → Parser β} (h : p s = .ok a r) (hf : Fails (f a) r) :
    Fails (p >>= f) s := by
  obtain ⟨place, hf⟩ := hf
  exact ⟨place, by rw [bind_ok h, hf]⟩

theorem orElse_ok (h : p s = .ok a r) : (p <|> q) s = .ok a r := by
  change orElse p q s = _
  rw [orElse, h]

theorem orElse_of_fails (h : Fails p s) : (p <|> q) s = q s := by
  obtain ⟨place, h⟩ := h
  change orElse p q s = _
  rw [orElse, h]

theorem fails_orElse (hp : Fails p s) (hq : Fails q s) : Fails (p <|> q) s := by
  obtain ⟨place, hq⟩ := hq
  exact ⟨place, by rw [orElse_of_fails hp, hq]⟩

theorem opt_ok (h : p s = .ok a r) : opt p s = .ok (some a) r := by rw [opt, h]

theorem opt_of_fails (h : Fails p s) : opt p s = .ok none s := by
  obtain ⟨place, h⟩ := h
  rw [opt, h]

theorem refine_ok {check : α → List Char → Option β} {b : β} (h : p s = .ok a r)
    (hc : check a r = some b) : refine p check s = .ok b r := by
  simp only [refine, h, hc]

theorem fails_refine (h : Fails p s) (check : α → List Char → Option β) :
    Fails (refine p check) s := by
  obtain ⟨place, h⟩ := h
  exact ⟨place, by simp only [refine, h]⟩

theorem fails_refine_none {check : α → List Char → Option β} (h : p s = .ok a r)
    (hc : check a r = none) : Fails (refine p check) s :=
  ⟨s, by simp only [refine, h, hc]⟩

/-! ## Runs -/

/-- `p` reads the values `as` one after the other, from `s` to `r`, and takes something for each. -/
inductive Steps (p : Parser α) : List α → List Char → List Char → Prop
  | done (s : List Char) : Steps p [] s s
  | more {a : α} {as : List α} {s s' r : List Char} (h : p s = .ok a s')
      (shorter : s'.length < s.length) (rest : Steps p as s' r) : Steps p (a :: as) s r

theorem Steps.snoc (h : Steps p as s r) (hr : p r = .ok a r') (shorter : r'.length < r.length) :
    Steps p (as ++ [a]) s r' := by
  induction h with
  | done s => exact .more hr shorter (.done _)
  | more h shorter' _ ih => exact .more h shorter' (ih hr shorter)

/-- A run that cannot go on is all that a repetition reads. -/
theorem repeated_of_steps (h : Steps p as s r) (hr : Fails p r) (fuel : Nat)
    (enough : s.length ≤ fuel) : repeated p fuel s = .ok as r := by
  induction h generalizing fuel with
  | done s =>
    obtain ⟨place, hr⟩ := hr
    cases fuel with
    | zero => rfl
    | succ fuel => rw [repeated, hr]
  | more h shorter _ ih =>
    cases fuel with
    | zero => omega
    | succ fuel => simp only [repeated, h, ih hr fuel (by omega)]

theorem many_of_steps (h : Steps p as s r) (hr : Fails p r) : many p s = .ok as r :=
  repeated_of_steps h hr s.length (Nat.le_refl _)

theorem many_of_fails (h : Fails p s) : many p s = .ok [] s := many_of_steps (.done s) h

theorem many1_of_steps (h : p s = .ok a s') (hs : Steps p as s' r) (hr : Fails p r) :
    many1 p s = .ok (a :: as) r := by
  rw [many1, bind_ok h, bind_ok (many_of_steps hs hr)]
  rfl

theorem sepBy1_of_steps {sep : Parser β} (h : p s = .ok a s')
    (hs : Steps (do let _ ← sep; p) as s' r) (hr : Fails (do let _ ← sep; p) r) :
    sepBy1 p sep s = .ok (a :: as) r := by
  rw [sepBy1, bind_ok h, bind_ok (many_of_steps hs hr)]
  rfl

theorem sepBy_of_steps {sep : Parser β} (h : p s = .ok a s')
    (hs : Steps (do let _ ← sep; p) as s' r) (hr : Fails (do let _ ← sep; p) r) :
    sepBy p sep s = .ok (a :: as) r := by
  rw [sepBy, bind_ok (opt_ok (sepBy1_of_steps h hs hr))]
  rfl

theorem sepBy_of_fails {sep : Parser β} (h : Fails p s) : sepBy p sep s = .ok [] s := by
  have hs : Fails (sepBy1 p sep) s := fails_bind h _
  rw [sepBy, bind_ok (opt_of_fails hs)]
  rfl

/-! ## Properties of values -/

/-- Every value that `p` answers with has the property. -/
def Ensures (p : Parser α) (P : α → Prop) : Prop := ∀ ⦃s a r⦄, p s = .ok a r → P a

variable {P : α → Prop} {Q : β → Prop}

theorem Ensures.trivial (p : Parser α) : Ensures p fun _ => True := fun _ _ _ _ => True.intro

theorem ensures_pure {b : α} (h : P b) : Ensures (pure b : Parser α) P := by
  intro s a r hs
  cases hs
  exact h

theorem ensures_fail : Ensures (fail : Parser α) P := by
  intro s a r hs
  cases hs

theorem Ensures.bind {f : α → Parser β} (h : Ensures p P) (hf : ∀ a, P a → Ensures (f a) Q) :
    Ensures (p >>= f) Q := by
  intro s b r hs
  rw [bind_apply] at hs
  split at hs
  · exact hf _ (h ‹_›) hs
  · cases hs

theorem Ensures.orElse (hp : Ensures p P) (hq : Ensures q P) : Ensures (p <|> q) P := by
  intro s a r hs
  change Parser.orElse p q s = _ at hs
  rw [Parser.orElse] at hs
  split at hs
  · cases hs
    exact hp ‹_›
  · exact hq hs

theorem Ensures.opt (h : Ensures p P) : Ensures (opt p) fun o => ∀ a ∈ o, P a := by
  intro s o r hs a ha
  rw [Parser.opt] at hs
  split at hs
  · cases hs
    cases ha
    exact h ‹_›
  · cases hs
    cases ha

theorem Ensures.repeated (h : Ensures p P) (fuel : Nat) :
    Ensures (repeated p fuel) fun as => ∀ a ∈ as, P a := by
  induction fuel with
  | zero =>
    intro s as r hs
    cases hs
    simp
  | succ fuel ih =>
    intro s as r hs
    rw [Parser.repeated] at hs
    split at hs
    · rename_i first rest hfirst
      have hP := h hfirst
      split at hs
      · cases hs
        simpa [hP] using ih ‹_›
      · cases hs
        simpa using hP
    · cases hs
      simp

theorem Ensures.many (h : Ensures p P) : Ensures (many p) fun as => ∀ a ∈ as, P a :=
  fun s _ _ hs => h.repeated s.length hs

theorem Ensures.many1 (h : Ensures p P) :
    Ensures (many1 p) fun as => as ≠ [] ∧ ∀ a ∈ as, P a := by
  refine h.bind fun a ha => h.many.bind fun as has => ensures_pure ⟨by simp, ?_⟩
  simpa [ha] using has

theorem Ensures.sepBy1 (h : Ensures p P) (sep : Parser β) :
    Ensures (sepBy1 p sep) fun as => as ≠ [] ∧ ∀ a ∈ as, P a := by
  have hlink : Ensures (do let _ ← sep; p) P := (Ensures.trivial sep).bind fun _ _ => h
  refine h.bind fun a ha => hlink.many.bind fun as has => ensures_pure ⟨by simp, ?_⟩
  simpa [ha] using has

theorem Ensures.sepBy (h : Ensures p P) (sep : Parser β) :
    Ensures (sepBy p sep) fun as => ∀ a ∈ as, P a := by
  refine (h.sepBy1 sep).opt.bind fun o ho => ensures_pure ?_
  cases o with
  | none => simp
  | some as => exact (ho as rfl).2

theorem Ensures.refine {check : α → List Char → Option β} (h : Ensures p P)
    (hc : ∀ a r b, P a → check a r = some b → Q b) : Ensures (refine p check) Q := by
  intro s b r hs
  rw [Parser.refine] at hs
  split at hs
  · rename_i a r' ha
    split at hs
    · cases hs
      exact hc _ _ _ (h ha) ‹_›
    · cases hs
  · cases hs

end DocQuery.Parser
