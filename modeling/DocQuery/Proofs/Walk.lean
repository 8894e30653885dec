import DocQuery.Trace.Lower
import DocQuery.Proofs.Moves

/-! # Walking through lowered code

A segment of lowered code has the same effect wherever it stands: it pushes one text, whatever the
stack holds, whatever the range of the walk, and wherever its jumps lead in terms of offsets.

* `Routine.FitsAt`: the steps of a segment stand in the code from an index on.
* `Routine.Regular`: offsets and indices of the code belong together.
* `Routine.Walked`: all that can happen next in a walk that succeeds.
* `Pushes`: the steps of a segment push a text; one lemma for each way to build a segment.
-/

set_option autoImplicit false

namespace DocQuery

namespace Routine

/-- The instructions of the steps stand in the code from the index `i` on. Offsets are even, and the
first one belongs to an instruction without effect. -/
def FitsAt (r : Routine) (i : Nat) (steps : List Step) : Prop :=
  ∀ k s, steps[k]? = some s → r.code[i + k]? = some (s.toInstruction (2 * (i + k + 1)))

/-- Every instruction is found under its offset, and offsets are small. -/
structure Regular (r : Routine) : Prop where
  index : ∀ j, j < r.code.length → r.index? (2 * (j + 1)) = some j
  small : 2 * r.code.length < Width.unsigned32

variable {r : Routine} {start stop i : Nat} {stack : List String}

theorem FitsAt.left {a b : List Step} (h : r.FitsAt i (a ++ b)) : r.FitsAt i a := by
  intro k s hk
  refine h k s ?_
  obtain ⟨hlt, -⟩ := List.getElem?_eq_some_iff.1 hk
  rw [List.getElem?_append_left hlt, hk]

theorem FitsAt.right {a b : List Step} (h : r.FitsAt i (a ++ b)) : r.FitsAt (i + a.length) b := by
  intro k s hk
  have hs := h (a.length + k) s (by rw [List.getElem?_append_right (by omega)]; simpa using hk)
  rw [← Nat.add_assoc] at hs
  exact hs

theorem FitsAt.head {s : Step} {steps : List Step} (h : r.FitsAt i (s :: steps)) :
    r.code[i]? = some (s.toInstruction (2 * (i + 1))) :=
  h 0 s rfl

/-! ## Steps of a walk -/

theorem walk_apply {ins : Instruction} {stack' : List String} (hi : i < stop)
    (hins : r.code[i]? = some ins)
    (hop : ins.opcode ∉ [Opcode.returnValue, .returnConst, .copy, .dupTop])
    (h : ins.apply stack = .ok stack') :
    r.walk ⟨start, stop, i, stack⟩ = r.walk ⟨start, stop, i + 1, stack'⟩ := by
  rw [walk_eq_run, move, if_pos hi]
  dsimp only
  rw [hins]
  dsimp only
  split
  · rename_i heq
    exact absurd (by rw [heq]; decide) hop
  · rename_i heq
    exact absurd (by rw [heq]; decide) hop
  · rename_i heq
    exact absurd (by rw [heq]; decide) hop
  · rename_i heq
    exact absurd (by rw [heq]; decide) hop
  · rw [h]
    rfl

theorem walk_stop (stack : List String) :
    r.walk ⟨start, stop, stop, stack⟩ = result start stop stack := by
  rw [walk_eq_run, move, if_neg (Nat.lt_irrefl _)]
  rfl

theorem walk_return {ins : Instruction} (hi : i < stop) (hins : r.code[i]? = some ins)
    (hop : ins.opcode = .returnValue) :
    r.walk ⟨start, stop, i, stack⟩ = result start stop stack := by
  rw [walk_eq_run, move, if_pos hi]
  dsimp only
  rw [hins]
  dsimp only
  rw [hop]
  rfl

theorem landing_eq (branch : Instruction) {here target : Nat} (hr : r.Regular)
    (hoperand : branch.operand = .int (2 * (target + 1) : Nat)) (h : here < r.code.length)
    (ahead : here < target) (htarget : target < r.code.length) :
    r.landing branch here h = .ok ⟨target, ahead⟩ := by
  have hsmall := hr.small
  have hnatural : branch.operand.natural? = some (2 * (target + 1)) := by
    rw [hoperand]
    rfl
  rw [landing, hnatural]
  dsimp only
  rw [if_neg (by omega), hr.index target htarget]
  dsimp only
  rw [dif_pos ahead]

theorem branchMove_eq_ok {s : Stage} {ins branch : Instruction} {op : BoolOp} {target : Nat}
    {left : String} {rest : List String} {ahead : s.cursor + 1 < target}
    (hnext : s.cursor + 1 < s.stop) (hbranch : r.code[s.cursor + 1]? = some branch)
    (hop : branch.opcode.branch? = some op) (hstack : s.stack = left :: rest)
    (hlanding : ∀ h, r.landing branch (s.cursor + 1) h = .ok ⟨target, ahead⟩) :
    r.branchMove s ins =
      .ok (.descend (.ofRange (r.operandStart (s.cursor + 1)) (min target s.stop)) fun right =>
        s.goTo (min target s.stop)
          (("(" ++ left ++ " " ++ op.keyword ++ " " ++ right ++ ")") :: rest)) := by
  rw [branchMove, if_pos hnext]
  split
  · rename_i hnone
    rw [hnone] at hbranch
    cases hbranch
  · rename_i branch' known
    obtain rfl : branch' = branch := Option.some.inj (known.symm.trans hbranch)
    rw [hop, hstack]
    simp only [Instruction.pop, hlanding, bind, Except.bind]
    rfl

/-- Where the value on top is copied and tested, the right operand is recovered on a stack of its own,
up to the target of the jump. -/
theorem walk_branch {ins branch : Instruction} {op : BoolOp} {target : Nat} {left right : String}
    {ahead : i + 1 < target} (hi : i + 1 < stop) (hins : r.code[i]? = some ins)
    (hcopy : ins.opcode = .copy) (hbranch : r.code[i + 1]? = some branch)
    (hop : branch.opcode.branch? = some op)
    (hlanding : ∀ h, r.landing branch (i + 1) h = .ok ⟨target, ahead⟩) (htarget : target ≤ stop)
    (hright : r.walk (.ofRange (r.operandStart (i + 1)) target) = .ok right) :
    r.walk ⟨start, stop, i, left :: stack⟩ = r.walk ⟨start, stop, target,
      ("(" ++ left ++ " " ++ op.keyword ++ " " ++ right ++ ")") :: stack⟩ := by
  have hmin : min target stop = target := Nat.min_eq_left htarget
  rw [walk_eq_run, move, if_pos (by simp; omega)]
  dsimp only
  rw [hins]
  dsimp only
  rw [hcopy]
  dsimp only
  rw [branchMove_eq_ok (s := ⟨start, stop, i, left :: stack⟩) hi hbranch hop rfl hlanding, Move.ofExcept,
    Move.run]
  dsimp only
  rw [hmin, hright]
  rfl

/-! ## Walks that succeed -/

theorem eq_of_result {text : String} (h : result start stop stack = .ok text) : stack = [text] := by
  rw [result.eq_def] at h
  split at h
  · cases h
    rfl
  · cases h

/-- All that can happen next in a walk that succeeds. -/
inductive Walked (r : Routine) (start stop i : Nat) (stack : List String) (text : String) : Prop
  | done (hi : stop ≤ i ∨ r.code.length ≤ i) (hstack : stack = [text])
  | returned {ins : Instruction} (hi : i < stop) (hins : r.code[i]? = some ins)
      (hop : ins.opcode = .returnValue) (hstack : stack = [text])
  | constant {ins : Instruction} (hi : i < stop) (hins : r.code[i]? = some ins)
      (hop : ins.opcode = .returnConst) (hoperand : ins.operand.constantText = .ok text)
      (hstack : stack = [])
  | branch {ins branch : Instruction} {op : BoolOp} {left right : String} {rest : List String}
      {target : Nat} (ahead : i + 1 < target) (h : i + 1 < r.code.length) (hi : i + 1 < stop)
      (hins : r.code[i]? = some ins) (hcopy : ins.opcode = .copy ∨ ins.opcode = .dupTop)
      (hbranch : r.code[i + 1]? = some branch) (hop : branch.opcode.branch? = some op)
      (hstack : stack = left :: rest) (hlanding : r.landing branch (i + 1) h = .ok ⟨target, ahead⟩)
      (hright : r.walk (.ofRange (r.operandStart (i + 1)) (min target stop)) = .ok right)
      (hrest : r.walk ⟨start, stop, min target stop,
        ("(" ++ left ++ " " ++ op.keyword ++ " " ++ right ++ ")") :: rest⟩ = .ok text)
  | applied {ins : Instruction} {stack' : List String} (hi : i < stop)
      (hins : r.code[i]? = some ins)
      (hop : ins.opcode ∉ [Opcode.returnValue, .returnConst, .copy, .dupTop])
      (happly : ins.apply stack = .ok stack') (hrest : r.walk ⟨start, stop, i + 1, stack'⟩ = .ok text)

theorem eq_of_pop {ins : Instruction} {rest : List String} {a : String}
    (h : ins.pop stack = .ok (a, rest)) : stack = a :: rest := by
  cases stack with
  | nil => cases h
  | cons b stack =>
    cases h
    rfl

theorem walked_of_branchMove {ins : Instruction} {text : String} (hins : r.code[i]? = some ins)
    (hcopy : ins.opcode = .copy ∨ ins.opcode = .dupTop)
    (h : (Move.ofExcept (r.branchMove ⟨start, stop, i, stack⟩ ins)).run r.walk = .ok text) :
    r.Walked start stop i stack text := by
  obtain ⟨m, hm, h⟩ := exists_of_run_ofExcept h
  rw [branchMove] at hm
  split at hm
  · rename_i hnext
    split at hm
    · cases hm
    · rename_i branch hbranch
      split at hm
      · cases hm
      · rename_i op hop
        obtain ⟨⟨left, rest⟩, hpop, hm⟩ := bind_eq_ok hm
        obtain ⟨⟨target, ahead⟩, hlanding, hm⟩ := bind_eq_ok hm
        cases hm
        obtain ⟨right, hright, hrest⟩ := bind_eq_ok h
        exact .branch ahead _ hnext hins hcopy hbranch hop (eq_of_pop hpop) hlanding hright hrest
  · cases hm

theorem walked_of_walk {text : String} (h : r.walk ⟨start, stop, i, stack⟩ = .ok text) :
    r.Walked start stop i stack text := by
  rw [walk_eq_run, move] at h
  split at h
  · rename_i hi
    split at h
    · rename_i hnone
      exact .done (.inr (List.getElem?_eq_none_iff.1 hnone)) (eq_of_result h)
    · rename_i ins hins
      split at h
      case h_1 hop => exact .returned hi hins hop (eq_of_result h)
      case h_2 hop =>
        obtain ⟨value, hvalue, h⟩ := bind_eq_ok h
        have hstack := eq_of_result h
        simp only [List.cons.injEq] at hstack
        obtain ⟨rfl, rfl⟩ := hstack
        exact .constant hi hins hop hvalue rfl
      case h_3 hcopy => exact walked_of_branchMove hins (.inl hcopy) h
      case h_4 hcopy => exact walked_of_branchMove hins (.inr hcopy) h
      case h_5 hreturn hconst hcopy hdup =>
        obtain ⟨m, hm, h⟩ := exists_of_run_ofExcept h
        obtain ⟨stack', happly, hm⟩ := bind_eq_ok hm
        cases hm
        exact .applied hi hins (by simpa using ⟨hreturn, hconst, hcopy, hdup⟩) happly h
  · rename_i hi
    exact .done (.inl (Nat.not_lt.1 hi)) (eq_of_result h)

end Routine

/-! ## Segments -/

/-- The steps all have an effect, and push the texts in order wherever they stand in some code. -/
structure Pushes (steps : List Step) (texts : List String) : Prop where
  effective : ∀ s ∈ steps, s.opcode.isNoop = false
  walk : ∀ ⦃r : Routine⦄, r.Regular → ∀ ⦃i : Nat⦄, r.FitsAt i steps →
    i + steps.length < r.code.length → ∀ start stop stack, i + steps.length ≤ stop →
      r.walk ⟨start, stop, i, stack⟩ = r.walk ⟨start, stop, i + steps.length, texts.reverse ++ stack⟩

theorem pushes_nil : Pushes [] [] := ⟨nofun, fun _ _ _ _ _ _ _ _ _ => rfl⟩

theorem Pushes.append {a b : List Step} {ds es : List String} (ha : Pushes a ds) (hb : Pushes b es) :
    Pushes (a ++ b) (ds ++ es) := by
  refine ⟨fun s hs => (List.mem_append.1 hs).elim (ha.effective s) (hb.effective s), ?_⟩
  intro r hr i hfits hlength start stop stack hstop
  rw [List.length_append] at hlength hstop ⊢
  rw [ha.walk hr hfits.left (by omega) start stop stack (by omega),
    hb.walk hr hfits.right (by omega) start stop _ (by omega), List.reverse_append,
    List.append_assoc, Nat.add_assoc]

theorem Step.opcode_toInstruction (s : Step) (offset : Nat) :
    (s.toInstruction offset).opcode = s.opcode := by
  rw [toInstruction]
  split <;> rfl

/-- A step that replaces the texts of a segment by one text. -/
theorem Pushes.step {a : List Step} {ds : List String} {s : Step} {d : String} (ha : Pushes a ds)
    (heffect : s.opcode.isNoop = false)
    (hop : s.opcode ∉ [Opcode.returnValue, .returnConst, .copy, .dupTop])
    (h : ∀ offset stack, (s.toInstruction offset).apply (ds.reverse ++ stack) = .ok (d :: stack)) :
    Pushes (a ++ [s]) [d] := by
  refine ⟨fun s' hs => (List.mem_append.1 hs).elim (ha.effective s') fun hs => ?_, ?_⟩
  · cases List.mem_singleton.1 hs
    exact heffect
  · intro r hr i hfits hlength start stop stack hstop
    rw [List.length_append, List.length_singleton] at hlength hstop ⊢
    rw [ha.walk hr hfits.left (by omega) start stop stack (by omega),
      Routine.walk_apply (by omega) hfits.right.head
        (by rw [Step.opcode_toInstruction]; exact hop) (h _ stack)]
    rfl

/-- An operand, the test of its value, and the other operand. -/
theorem Pushes.chain {a b : List Step} {left right : String} (op : BoolOp) (ha : Pushes a [left])
    (hb : Pushes b [right]) :
    Pushes (a ++ [.counting .copy 1, ⟨op.opcode, none, .jump (b.length + 2)⟩, .plain .popTop] ++ b)
      ["(" ++ left ++ " " ++ op.keyword ++ " " ++ right ++ ")"] := by
  refine ⟨fun s hs => ?_, ?_⟩
  · simp only [List.mem_append, List.mem_cons, List.not_mem_nil, or_false] at hs
    rcases hs with (hs | rfl | rfl | rfl) | hs
    · exact ha.effective s hs
    · rfl
    · cases op <;> rfl
    · rfl
    · exact hb.effective s hs
  intro r hr i hfits hlength start stop stack hstop
  simp only [List.length_append, List.length_cons, List.length_nil] at hlength hstop ⊢
  -- The jump stands after the copy; its target is the end of the segment.
  have hcopy := hfits.left.right.head
  have hjump : r.code[i + a.length + 1]? = some (Step.toInstruction
      ⟨op.opcode, none, .jump (b.length + 2)⟩ (2 * (i + a.length + 1 + 1))) := hfits.left.right 1 _ rfl
  have hpop : r.code[i + a.length + 1 + 1]? = some ((Step.plain .popTop).toInstruction
      (2 * (i + a.length + 2 + 1))) := hfits.left.right 2 _ rfl
  have hfitsRight : r.FitsAt (i + a.length + 3) b := by
    have hlen : i + (a ++ [Step.counting .copy 1, ⟨op.opcode, none, .jump (b.length + 2)⟩,
        Step.plain .popTop]).length = i + a.length + 3 := by
      simp only [List.length_append, List.length_cons, List.length_nil]
      omega
    rw [← hlen]
    exact hfits.right
  have hstart : r.operandStart (i + a.length + 1) = i + a.length + 3 := by
    rw [Routine.operandStart, hpop]
    rfl
  have hwalk : r.walk (.ofRange (i + a.length + 3) (i + a.length + 3 + b.length)) = .ok right := by
    rw [Routine.Stage.ofRange, hb.walk hr hfitsRight (by omega) _ _ _ (Nat.le_refl _), Routine.walk_stop]
    rfl
  have ahead : i + a.length + 1 < i + a.length + 3 + b.length := by omega
  have hoffset : 2 * (i + a.length + 1 + 1) + 2 * (b.length + 2) =
      2 * (i + a.length + 3 + b.length + 1) := by omega
  have hlanding := fun h => Routine.landing_eq (Step.toInstruction
    ⟨op.opcode, none, .jump (b.length + 2)⟩ (2 * (i + a.length + 1 + 1))) hr
    (by rw [← hoffset]; rfl) h ahead (by omega)
  have hop : op.opcode.branch? = some op := by cases op <;> rfl
  have hend : i + (a.length + (0 + 1 + 1 + 1) + b.length) = i + a.length + 3 + b.length := by omega
  rw [ha.walk hr hfits.left.left (by omega) start stop stack (by omega), hend]
  exact Routine.walk_branch (by omega) hcopy rfl hjump hop hlanding (by omega)
    (by rw [hstart]; exact hwalk)

/-! ## Whole traces -/

namespace Step

theorem length_place (offset : Nat) (steps : List Step) :
    (place offset steps).length = steps.length := by
  induction steps generalizing offset with
  | nil => rfl
  | cons s steps ih => rw [place, List.length_cons, ih, List.length_cons]

theorem getElem?_place (offset k : Nat) (steps : List Step) :
    (place offset steps)[k]? = steps[k]?.map (·.toInstruction (offset + 2 * k)) := by
  induction steps generalizing offset k with
  | nil => rfl
  | cons s steps ih =>
    cases k with
    | zero => rfl
    | succ k =>
      have hoffset : offset + 2 + 2 * k = offset + 2 * (k + 1) := by omega
      rw [place, List.getElem?_cons_succ, List.getElem?_cons_succ, ih, hoffset]

theorem filter_place {steps : List Step} (h : ∀ s ∈ steps, s.opcode.isNoop = false)
    (offset : Nat) : (place offset steps).filter (!·.opcode.isNoop) = place offset steps := by
  induction steps generalizing offset with
  | nil => rfl
  | cons s steps ih =>
    have hs : (s.toInstruction offset).opcode.isNoop = false := by
      rw [opcode_toInstruction]
      exact h s List.mem_cons_self
    rw [place, List.filter_cons_of_pos (by simp [hs]),
      ih fun s' hs' => h s' (List.mem_cons_of_mem s hs')]

/-- Where all instructions have an effect, the offsets lead to the indices in order. -/
theorem mem_targetsFrom_place {steps : List Step} (h : ∀ s ∈ steps, s.opcode.isNoop = false)
    (offset kept : Nat) (p : Nat × Nat) :
    p ∈ Routine.targetsFrom kept (place offset steps) ↔
      ∃ m, m < steps.length ∧ p = (offset + 2 * m, kept + m) := by
  induction steps generalizing offset kept with
  | nil => simp [place, Routine.targetsFrom]
  | cons s steps ih =>
    have hs : (s.toInstruction offset).opcode.isNoop = false := by
      rw [opcode_toInstruction]
      exact h s List.mem_cons_self
    have hoffset : (s.toInstruction offset).offset = offset := by
      rw [toInstruction]
      split <;> rfl
    rw [place, Routine.targetsFrom, List.mem_cons, hs, hoffset, if_neg Bool.false_ne_true,
      ih fun s' hs' => h s' (List.mem_cons_of_mem s hs')]
    constructor
    · rintro (rfl | ⟨m, hm, rfl⟩)
      · exact ⟨0, by simp, rfl⟩
      · exact ⟨m + 1, by simpa using hm, by simp only [Prod.mk.injEq]; omega⟩
    · rintro ⟨m, hm, rfl⟩
      cases m with
      | zero => exact .inl rfl
      | succ m =>
        refine .inr ⟨m, by simpa using hm, ?_⟩
        simp only [Prod.mk.injEq]
        omega

end Step

/-- The only pair with a key is the one that is found. -/
theorem find?_key {l : List (Nat × Nat)} {a b : Nat} (hmem : (a, b) ∈ l)
    (hunique : ∀ p ∈ l, p.1 = a → p = (a, b)) : l.find? (·.1 == a) = some (a, b) := by
  cases hfind : l.find? (·.1 == a) with
  | none =>
    have hno := List.find?_eq_none.1 hfind _ hmem
    simp at hno
  | some p =>
    have hkey : p.1 = a := by simpa using List.find?_some hfind
    rw [hunique p (List.mem_of_find?_eq_some hfind) hkey]

/-- The code of a whole trace: the first instruction has no effect, the last one returns. -/
def Step.whole (steps : List Step) : List Instruction :=
  place 0 ([.counting .resume 0] ++ steps ++ [.plain .returnValue])

section Whole

variable {steps : List Step}

theorem effective_return (h : ∀ s ∈ steps, s.opcode.isNoop = false) :
    ∀ s ∈ steps ++ [Step.plain .returnValue], s.opcode.isNoop = false := by
  intro s hs
  rcases List.mem_append.1 hs with hs | hs
  · exact h s hs
  · cases List.mem_singleton.1 hs
    rfl

theorem code_whole (h : ∀ s ∈ steps, s.opcode.isNoop = false) :
    (Routine.ofCode (Step.whole steps)).code = Step.place 2 (steps ++ [.plain .returnValue]) := by
  rw [← Step.filter_place (effective_return h) 2]
  rfl

theorem length_whole (h : ∀ s ∈ steps, s.opcode.isNoop = false) :
    (Routine.ofCode (Step.whole steps)).code.length = steps.length + 1 := by
  rw [code_whole h, Step.length_place, List.length_append, List.length_singleton]

theorem regular_whole (h : ∀ s ∈ steps, s.opcode.isNoop = false)
    (hsmall : (Step.whole steps).length < Width.signed32) :
    (Routine.ofCode (Step.whole steps)).Regular := by
  have hlength := length_whole h
  have hmem : ∀ p, p ∈ (Routine.ofCode (Step.whole steps)).targets.reverse ↔
      p = (0, 0) ∨ ∃ m, m < (steps ++ [Step.plain .returnValue]).length ∧
        p = (2 + 2 * m, 0 + m) := by
    intro p
    rw [List.mem_reverse, ← Step.mem_targetsFrom_place (effective_return h) 2 0 p]
    exact List.mem_cons
  constructor
  · intro j hj
    have hoffset : 2 * (j + 1) = 2 + 2 * j := by omega
    have hfind : (Routine.ofCode (Step.whole steps)).targets.reverse.find? (·.1 == 2 + 2 * j) =
        some (2 + 2 * j, j) := by
      refine find?_key ((hmem _).2 (.inr ⟨j, by simp; omega, by simp⟩)) fun p hp hkey => ?_
      rcases (hmem p).1 hp with rfl | ⟨m, -, rfl⟩
      · simp only at hkey
        omega
      · simp only [Prod.mk.injEq] at hkey ⊢
        omega
    rw [Routine.index?, hoffset, hfind]
    rfl
  · rw [Step.whole, Step.length_place] at hsmall
    simp only [List.length_append, List.length_singleton] at hsmall
    have hwidth : Width.unsigned32 = 2 * Width.signed32 := rfl
    omega

/-- The text of a whole trace is the one that its steps push. -/
theorem text_whole {d : String} (h : Pushes steps [d])
    (hsmall : (Step.whole steps).length < Width.signed32) :
    (Trace.mk [] (Step.whole steps)).text = .ok d := by
  have hget : ∀ (k : Nat) (s : Step), (steps ++ [Step.plain .returnValue])[k]? = some s →
      (Routine.ofCode (Step.whole steps)).code[k]? = some (s.toInstruction (2 * (k + 1))) := by
    intro k s hk
    have hoffset : 2 * (k + 1) = 2 + 2 * k := by omega
    rw [code_whole h.effective, Step.getElem?_place, hk, hoffset]
    rfl
  have hfits : (Routine.ofCode (Step.whole steps)).FitsAt 0 steps := by
    intro k s hk
    obtain ⟨hlt, -⟩ := List.getElem?_eq_some_iff.1 hk
    rw [Nat.zero_add]
    exact hget k s (by rw [List.getElem?_append_left hlt, hk])
  have hlength := length_whole h.effective
  have hreturn := hget steps.length (.plain .returnValue) (by simp)
  have hwalk := h.walk (regular_whole h.effective hsmall) hfits (by omega) 0 (steps.length + 1) []
    (by omega)
  rw [Nat.zero_add] at hwalk
  change (Routine.ofCode (Step.whole steps)).walk ⟨0, _, 0, []⟩ = _
  rw [hlength, hwalk, Routine.walk_return (by omega) hreturn rfl]
  rfl

end Whole

end DocQuery
