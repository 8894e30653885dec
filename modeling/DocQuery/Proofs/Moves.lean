import Mathlib
import DocQuery.Trace.Recover
import DocQuery.Proofs.Outcome

/-! # The moves of a walk

A walk goes through a range of instructions from stage to stage. At each stage it is over, goes on to
the next instruction, or recovers the operand of a connective by a walk of its own before it goes on
behind it. The ranges come from the targets of jumps, which may be anything; still no walk leaves the
code or comes back to an instruction.

* `Routine.walk_eq_run`: a walk is made of its moves.
* `Routine.Runs`: a whole walk with all instructions that are executed, those of the operands
  included.
* `runs_whole`: every walk ends, stays inside the code and only goes ahead.
-/

set_option autoImplicit false

namespace DocQuery

namespace Routine

/-- The answer of a walk that begins with a move. -/
def Move.run (walk : Stage → Except Error String) : Move → Except Error String
  | finish answer => answer
  | advance next => walk next
  | descend operand resume => do
    let text ← walk operand
    walk (resume text)

variable {r : Routine} {s : Stage}

/-- A walk is made of its moves. -/
theorem walk_eq_run (r : Routine) (s : Stage) : r.walk s = (r.move s).run r.walk := by
  show r.walk s = (r.step s).1.run r.walk
  rw [walk]
  generalize r.step s = x
  obtain ⟨m, -⟩ := x
  cases m <;> rfl

/-- Where a walk succeeds, so does its first move. -/
theorem exists_of_run_ofExcept {x : Except Error Move} {walk : Stage → Except Error String}
    {text : String} (h : (Move.ofExcept x).run walk = .ok text) :
    ∃ m, x = .ok m ∧ m.run walk = .ok text := by
  cases x with
  | error e => cases h
  | ok m => exact ⟨m, rfl, h⟩

/-! ## One move -/

/-- The value that an operand drops first is dropped by an instruction of the code. -/
theorem operandStart_le {here : Nat} (h : here < r.code.length) :
    r.operandStart here ≤ r.code.length := by
  rw [operandStart]
  split
  · rename_i hins
    obtain ⟨hlt, -⟩ := List.getElem?_eq_some_iff.1 hins
    split <;> omega
  · omega

/-- What holds at a stage, whatever the code: the instructions that are looked at are there, the walk
goes ahead in its range, and an operand is a smaller part of that range. -/
structure Stage.Sound (r : Routine) (s : Stage) : Prop where
  current : ∃ ins, r.code[s.cursor]? = some ins
  following : s.cursor + 1 < s.stop → ∃ ins, r.code[s.cursor + 1]? = some ins
  advance : ∀ next, r.move s = .advance next →
    next.start = s.start ∧ next.stop = s.stop ∧ s.cursor < next.cursor
  descend : ∀ operand resume, r.move s = .descend operand resume →
    operand.cursor = operand.start ∧ operand.start ≤ r.code.length ∧
    operand.stop ≤ r.code.length ∧ Set.Ico operand.start operand.stop ⊂ Set.Ico s.start s.stop ∧
    ∀ text, (resume text).start = s.start ∧ (resume text).stop = s.stop ∧
      s.cursor < (resume text).cursor

/-- A stage is sound wherever its range is inside the code. -/
theorem sound_of_le (hstart : s.start ≤ s.cursor) (hcursor : s.cursor < s.stop)
    (hstop : s.stop ≤ r.code.length) : s.Sound r where
  current := ⟨_, List.getElem?_eq_getElem (hcursor.trans_le hstop)⟩
  following h := ⟨_, List.getElem?_eq_getElem (h.trans_le hstop)⟩
  advance next hmove := by
    cases moves_of_move hmove
    exact ⟨rfl, rfl, Nat.lt_succ_self _⟩
  descend operand resume hmove := by
    cases moves_of_move hmove with
    | @descend stop ahead hle stack =>
      have hoperand := r.le_operandStart (s.cursor + 1)
      refine ⟨rfl, operandStart_le (by omega), hle.trans hstop, ?_, fun text => ⟨rfl, rfl, ?_⟩⟩
      · -- The current instruction is in the range of the stage but not in that of the operand.
        refine ⟨Set.Ico_subset_Ico ?_ hle, fun h => ?_⟩
        · change s.start ≤ r.operandStart (s.cursor + 1)
          omega
        · have hmem : r.operandStart (s.cursor + 1) ≤ s.cursor := (h ⟨hstart, hcursor⟩).1
          omega
      · exact Nat.lt_of_succ_lt ahead

/-! ## Whole walks -/

/-- A walk from a stage to its answer. It lists the stages at which an instruction is executed, in the
order of execution and with those of the walks through operands. -/
inductive Runs (r : Routine) : Stage → List Stage → Except Error String → Prop
  | ended {s : Stage} (h : s.stop ≤ s.cursor) : Runs r s [] s.result
  | finish {s : Stage} {answer : Except Error String} (h : s.cursor < s.stop)
      (hmove : r.move s = .finish answer) : Runs r s [s] answer
  | advance {s next : Stage} {visited : List Stage} {answer : Except Error String}
      (hmove : r.move s = .advance next) (hnext : Runs r next visited answer) :
      Runs r s (s :: visited) answer
  | fail {s operand : Stage} {resume : String → Stage} {visited : List Stage} {e : Error}
      (hmove : r.move s = .descend operand resume) (hoperand : Runs r operand visited (.error e)) :
      Runs r s (s :: visited) (.error e)
  | resume {s operand : Stage} {resume : String → Stage} {inner visited : List Stage} {text : String}
      {answer : Except Error String} (hmove : r.move s = .descend operand resume)
      (hoperand : Runs r operand inner (.ok text)) (hresume : Runs r (resume text) visited answer) :
      Runs r s (s :: (inner ++ visited)) answer

theorem move_of_le (h : s.stop ≤ s.cursor) : r.move s = .finish s.result := by
  rw [move, if_neg (Nat.not_lt.2 h)]

/-- Every walk ends, with the text or the failure that is computed. -/
theorem exists_runs (r : Routine) (s : Stage) : ∃ visited, r.Runs s visited (r.walk s) := by
  induction hn : s.stop - s.cursor using Nat.strong_induction_on generalizing s with
  | _ n ih =>
    have hless : ∀ next : Stage, next.stop - next.cursor < n →
        ∃ visited, r.Runs next visited (r.walk next) := fun next hlt => ih _ hlt next rfl
    rw [walk_eq_run]
    rcases Nat.lt_or_ge s.cursor s.stop with hcursor | hended
    · generalize hmove : r.move s = m
      cases moves_of_move hmove with
      | finish answer => exact ⟨_, .finish hcursor hmove⟩
      | advance _ stack =>
        obtain ⟨visited, hvisited⟩ := hless (s.goTo (s.cursor + 1) stack) (by simp; omega)
        exact ⟨_, .advance hmove hvisited⟩
      | @descend stop ahead hle stack =>
        have hstart := r.le_operandStart (s.cursor + 1)
        obtain ⟨inner, hinner⟩ := hless (.ofRange (r.operandStart (s.cursor + 1)) stop)
          (by simp; omega)
        rw [Move.run]
        cases hanswer : r.walk (.ofRange (r.operandStart (s.cursor + 1)) stop) with
        | error e => exact ⟨_, .fail hmove (hanswer ▸ hinner)⟩
        | ok text =>
          obtain ⟨visited, hvisited⟩ := hless (s.goTo stop (stack text)) (by simp; omega)
          exact ⟨_, .resume hmove (hanswer ▸ hinner) hvisited⟩
    · rw [move_of_le hended]
      exact ⟨[], .ended hended⟩

/-- A walk gives no other answer than the one that is computed. -/
theorem Runs.answer_eq {visited : List Stage} {answer : Except Error String}
    (h : r.Runs s visited answer) : answer = r.walk s := by
  induction h with
  | ended h => rw [walk_eq_run, move_of_le h, Move.run]
  | finish _ hmove => rw [walk_eq_run, hmove, Move.run]
  | advance hmove _ ih => rw [walk_eq_run, hmove, Move.run, ih]
  | fail hmove _ ih =>
    rw [walk_eq_run, hmove, Move.run, ← ih]
    rfl
  | resume hmove _ _ ih ih' =>
    rw [walk_eq_run, hmove, Move.run, ← ih, ih']
    rfl

/-- A walk that does not end at a stage has an instruction there. -/
theorem Moves.cursor_lt {m : Move} (h : r.Moves s m) (hm : ∀ answer, m ≠ .finish answer) :
    s.cursor < s.stop := by
  cases h with
  | finish answer => exact absurd rfl (hm answer)
  | advance h => exact h
  | descend ahead h => omega

/-- What holds of a stage and is kept by every move holds wherever an instruction is executed. -/
theorem Runs.forall_visited {P : Stage → Prop}
    (hadvance : ∀ s next, P s → r.move s = .advance next → P next)
    (hdescend : ∀ s operand resume, P s → r.move s = .descend operand resume →
      P operand ∧ ∀ text, P (resume text))
    {visited : List Stage} {answer : Except Error String} (h : r.Runs s visited answer) (hs : P s) :
    ∀ x ∈ visited, x.cursor < x.stop ∧ P x := by
  induction h with
  | ended => simp
  | finish hcursor => simpa using ⟨hcursor, hs⟩
  | advance hmove _ ih =>
    have hcursor := (moves_of_move hmove).cursor_lt (by simp)
    exact List.forall_mem_cons.2 ⟨⟨hcursor, hs⟩, ih (hadvance _ _ hs hmove)⟩
  | fail hmove _ ih =>
    have hcursor := (moves_of_move hmove).cursor_lt (by simp)
    exact List.forall_mem_cons.2 ⟨⟨hcursor, hs⟩, ih (hdescend _ _ _ hs hmove).1⟩
  | resume hmove _ _ ih ih' =>
    have hcursor := (moves_of_move hmove).cursor_lt (by simp)
    obtain ⟨hoperand, hresume⟩ := hdescend _ _ _ hs hmove
    exact List.forall_mem_cons.2 ⟨⟨hcursor, hs⟩,
      List.forall_mem_append.2 ⟨ih hoperand, ih' (hresume _)⟩⟩

/-- The stages stand at instructions from `low` to `high`, each one ahead of those before it. -/
structure InOrder (low high : Nat) (visited : List Stage) : Prop where
  sorted : (visited.map (·.cursor)).Pairwise (· < ·)
  bounds : ∀ x ∈ visited, low ≤ x.cursor ∧ x.cursor < high

namespace InOrder

variable {low middle high : Nat} {visited visited' : List Stage}

theorem cons (h : InOrder (s.cursor + 1) high visited) (hs : s.cursor < high) :
    InOrder s.cursor high (s :: visited) where
  sorted := List.pairwise_cons.2 ⟨by simpa using fun x hx => (h.bounds x hx).1, h.sorted⟩
  bounds x hx := by
    obtain rfl | hx := List.mem_cons.1 hx
    · exact ⟨le_rfl, hs⟩
    · have hbounds := h.bounds x hx
      omega

theorem append (h : InOrder low middle visited) (h' : InOrder middle high visited')
    (hlow : low ≤ middle) (hhigh : middle ≤ high) : InOrder low high (visited ++ visited') where
  sorted := by
    rw [List.map_append, List.pairwise_append]
    refine ⟨h.sorted, h'.sorted, fun i hi j hj => ?_⟩
    obtain ⟨x, hx, rfl⟩ := List.mem_map.1 hi
    obtain ⟨y, hy, rfl⟩ := List.mem_map.1 hj
    exact (h.bounds x hx).2.trans_le (h'.bounds y hy).1
  bounds x hx := by
    obtain hx | hx := List.mem_append.1 hx
    · exact ⟨(h.bounds x hx).1, (h.bounds x hx).2.trans_le hhigh⟩
    · exact ⟨hlow.trans (h'.bounds x hx).1, (h'.bounds x hx).2⟩

theorem mono {low' high' : Nat} (h : InOrder low high visited) (hlow : low' ≤ low)
    (hhigh : high ≤ high') : InOrder low' high' visited where
  sorted := h.sorted
  bounds x hx := ⟨hlow.trans (h.bounds x hx).1, (h.bounds x hx).2.trans_le hhigh⟩

end InOrder

/-- The instructions that are executed are those of the range from the cursor on, from left to right:
the operand of a connective stands before the place where the walk goes on. -/
theorem Runs.inOrder {visited : List Stage} {answer : Except Error String}
    (h : r.Runs s visited answer) : InOrder s.cursor s.stop visited := by
  induction h with
  | ended => exact ⟨by simp, by simp⟩
  | finish h => exact ⟨by simp, by simpa using h⟩
  | advance hmove _ ih =>
    cases moves_of_move hmove with
    | advance hcursor => exact ih.cons hcursor
  | @fail s _ _ _ _ hmove _ ih =>
    cases moves_of_move hmove with
    | descend ahead hle =>
      have hoperand := r.le_operandStart (s.cursor + 1)
      exact (ih.mono (by simp; omega) hle).cons (by omega)
  | @resume s _ _ _ _ _ _ hmove _ _ ih ih' =>
    cases moves_of_move hmove with
    | @descend stop ahead hle =>
      have hoperand := r.le_operandStart (s.cursor + 1)
      have hinner : InOrder (s.cursor + 1) stop _ := ih.mono (by simp; omega) le_rfl
      have hrest : InOrder stop s.stop _ := ih'
      exact (hinner.append hrest ahead.le hle).cons (by omega)

/-- Inside the code, all stages of a walk are sound. -/
theorem Runs.sound {visited : List Stage} {answer : Except Error String}
    (h : r.Runs s visited answer) (hstart : s.start ≤ s.cursor) (hstop : s.stop ≤ r.code.length) :
    ∀ x ∈ visited, x.Sound r := by
  have hinside := h.forall_visited (P := fun x => x.start ≤ x.cursor ∧ x.stop ≤ r.code.length)
    (fun x next hx hmove => by
      cases moves_of_move hmove
      exact ⟨hx.1.trans (Nat.le_succ _), hx.2⟩)
    (fun x operand resume hx hmove => by
      cases moves_of_move hmove with
      | descend ahead hle =>
        have hcursor : x.cursor ≤ _ := (Nat.lt_of_succ_lt ahead).le
        exact ⟨⟨le_rfl, hle.trans hx.2⟩, fun text => ⟨hx.1.trans hcursor, hx.2⟩⟩)
    ⟨hstart, hstop⟩
  intro x hx
  obtain ⟨hcursor, hstart, hstop⟩ := hinside x hx
  exact sound_of_le hstart hcursor hstop

end Routine

open Routine

/-- Whatever the instructions, their offsets and their operands are, the walk through a trace ends.
All instructions that it looks at are there, an operand is recovered from a part of the range of its
walk that is properly smaller, and the instructions that are executed stand one behind the other, so
none of them is executed twice. -/
theorem runs_whole (t : Trace) :
    (∃ visited answer, (ofCode t.code).Runs (ofCode t.code).whole visited answer) ∧
    ∀ visited answer, (ofCode t.code).Runs (ofCode t.code).whole visited answer →
      (t.text = if t.params.isEmpty then answer
        else .error (.parameterized ("lambda " ++ commaJoined t.params ++ ": ..."))) ∧
      (∀ s ∈ visited, s.Sound (ofCode t.code)) ∧
      (visited.map (·.cursor)).Pairwise (· < ·) := by
  refine ⟨?_, fun visited answer h => ⟨?_, h.sound le_rfl le_rfl, h.inOrder.sorted⟩⟩
  · obtain ⟨visited, h⟩ := (ofCode t.code).exists_runs (ofCode t.code).whole
    exact ⟨visited, _, h⟩
  · rw [h.answer_eq]
    rfl

/-- A jump onto the instruction that drops the tested value: the operand starts behind its end. -/
theorem runs_whole_boundary : ∃ (t : Trace) (visited : List Stage),
    t = ⟨[], [⟨.loadName, 6, none, .str "a", ""⟩, ⟨.copy, 6, some 1, .int 1, ""⟩,
      ⟨.popJumpIfFalse, 2, none, .int 7, ""⟩, ⟨.popTop, 7, none, .null, ""⟩]⟩ ∧
    (ofCode t.code).Runs (ofCode t.code).whole visited (.error (.imbalance (.leftover [] 4 3))) ∧
    t.text = .error (.imbalance (.leftover [] 4 3)) ∧
    (∀ s ∈ visited, s.Sound (ofCode t.code)) ∧ (visited.map (·.cursor)).Pairwise (· < ·) := by
  let t : Trace := ⟨[], [⟨.loadName, 6, none, .str "a", ""⟩, ⟨.copy, 6, some 1, .int 1, ""⟩,
    ⟨.popJumpIfFalse, 2, none, .int 7, ""⟩, ⟨.popTop, 7, none, .null, ""⟩]⟩
  have htext : t.text = .error (.imbalance (.leftover [] 4 3)) := by cbv
  obtain ⟨⟨visited, answer, hruns⟩, hall⟩ := runs_whole t
  obtain ⟨hanswer, hsound, hsorted⟩ := hall visited answer hruns
  obtain rfl : answer = .error (.imbalance (.leftover [] 4 3)) := hanswer.symm.trans htext
  exact ⟨t, visited, rfl, hruns, htext, hsound, hsorted⟩

end DocQuery
