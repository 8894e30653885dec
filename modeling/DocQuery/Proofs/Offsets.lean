import DocQuery.Proofs.Moves

/-! # Offsets and instructions without effect

The text of a trace depends on where its jumps lead, not on the offsets that say so: more instructions
without effect, or other offsets in the same order, make no difference.

* `Agree`: two computations with related results, or with related failures.
* `Routine.Like`: two routines with the same effects, whose jumps lead to the same places.
* `Padded`: more instructions without effect; `Renumbers`: other offsets.
* `text_of_offsets`: neither changes the text of a trace.
-/

set_option autoImplicit false

namespace DocQuery

/-- Both computations succeed with related results, or both fail with related failures. -/
inductive Agree {α β : Type} (E : Error → Error → Prop) (R : α → β → Prop) :
    Except Error α → Except Error β → Prop
  | ok {a : α} {b : β} (h : R a b) : Agree E R (.ok a) (.ok b)
  | error {x y : Error} (h : E x y) : Agree E R (.error x) (.error y)

namespace Agree

variable {α β γ δ : Type} {E : Error → Error → Prop} {R : α → β → Prop} {S : γ → δ → Prop}

theorem bind {x : Except Error α} {y : Except Error β} {f : α → Except Error γ}
    {g : β → Except Error δ} (h : Agree E R x y) (hfg : ∀ a b, R a b → Agree E S (f a) (g b)) :
    Agree E S (x >>= f) (y >>= g) := by
  cases h with
  | ok h => exact hfg _ _ h
  | error h => exact .error h

theorem bind_eq {x y : Except Error α} {f g : α → Except Error γ} {S : γ → γ → Prop}
    (h : Agree E (· = ·) x y) (hfg : ∀ a, Agree E S (f a) (g a)) :
    Agree E S (x >>= f) (y >>= g) := by
  apply h.bind
  rintro a _ rfl
  exact hfg a

theorem refl (hE : ∀ e, E e e) (x : Except Error α) : Agree E (· = ·) x x := by
  cases x with
  | error e => exact .error (hE e)
  | ok a => exact .ok rfl

theorem eq {x y : Except Error α} (h : Agree (· = ·) (· = ·) x y) : x = y := by
  cases h with
  | ok h => rw [h]
  | error h => rw [h]

end Agree

/-! ## Instructions with the same effect -/

/-- Two instructions with the same effect. They may stand at different offsets, and the operands of
conditional jumps do not count. -/
structure Instruction.Like (E : Error → Error → Prop) (a b : Instruction) : Prop where
  opcode : a.opcode = b.opcode
  arg : a.arg = b.arg
  text : a.text = b.text
  operand : a.opcode.branch? = none → a.operand = b.operand
  unrecognized : E a.unrecognized b.unrecognized
  underflow : E a.underflow b.underflow

theorem Instruction.apply_of_branch {ins : Instruction} {stack : List String}
    (h : ins.opcode.branch? ≠ none) : ins.apply stack = .error ins.unrecognized := by
  unfold Instruction.apply
  generalize ins.opcode = op at h
  cases op with
  | popJumpIfFalse => rfl
  | popJumpIfTrue => rfl
  | popJumpForwardIfFalse => rfl
  | popJumpForwardIfTrue => rfl
  | _ => exact absurd rfl h

namespace Instruction.Like

variable {E : Error → Error → Prop} {a b : Instruction}

theorem pop (h : a.Like E b) (stack : List String) :
    Agree E (· = ·) (a.pop stack) (b.pop stack) := by
  cases stack with
  | nil => exact .error h.underflow
  | cons x rest => exact .ok rfl

theorem popMany (h : a.Like E b) (n : Nat) (stack : List String) :
    Agree E (· = ·) (a.popMany n stack) (b.popMany n stack) := by
  unfold Instruction.popMany
  split
  · exact .error h.underflow
  · exact .ok rfl

theorem unaryEffect (h : a.Like E b) (op : UnaryOp) (stack : List String) :
    Agree E (· = ·) (a.unaryEffect op stack) (b.unaryEffect op stack) :=
  (h.pop stack).bind_eq fun _ => .ok rfl

theorem binaryEffect (h : a.Like E b) (symbol : String) (stack : List String) :
    Agree E (· = ·) (a.binaryEffect symbol stack) (b.binaryEffect symbol stack) := by
  apply (h.pop stack).bind_eq
  intro p
  exact (h.pop p.2).bind_eq fun _ => .ok rfl

theorem apply (hE : ∀ e, E e e) (h : a.Like E b) (stack : List String) :
    Agree E (· = ·) (a.apply stack) (b.apply stack) := by
  by_cases hjump : a.opcode.branch? = none
  · have hoperand := h.operand hjump
    have hname : a.nameText = b.nameText := by
      unfold nameText
      rw [hoperand, h.text]
    have hcount : a.count = b.count := by
      unfold count
      rw [h.arg, hoperand]
    have hinverted : a.isInverted = b.isInverted := by
      unfold isInverted
      rw [h.arg, hoperand]
    have hcomparison : a.comparisonText = b.comparisonText := by
      unfold comparisonText
      rw [hoperand, h.text]
    unfold Instruction.apply
    rw [h.opcode, hoperand, hname, hcount, hinverted, hcomparison, h.text]
    generalize b.opcode = op
    cases op with
    | loadConst => exact (Agree.refl hE _).bind_eq fun _ => .ok rfl
    | loadFast | loadGlobal | loadName | loadDeref => exact .ok rfl
    | loadAttr | loadMethod | popTop => exact (h.pop stack).bind_eq fun _ => .ok rfl
    | binaryOp | compareOp =>
      dsimp only
      split
      · exact h.binaryEffect _ stack
      · exact .error (hE _)
    | isOp | containsOp => exact h.binaryEffect _ stack
    | unaryNot | unaryNegative | unaryPositive | unaryInvert => exact h.unaryEffect _ stack
    | call | callFunction | callMethod =>
      exact (h.popMany _ stack).bind_eq fun p => (h.pop p.2).bind_eq fun _ => .ok rfl
    | binarySubscr | listExtend =>
      exact (h.pop stack).bind_eq fun p => (h.pop p.2).bind_eq fun _ => .ok rfl
    | buildList | buildTuple => exact (h.popMany _ stack).bind_eq fun _ => .ok rfl
    | _ =>
      -- What is left is the instruction of one operator, or it is refused.
      first
      | exact h.binaryEffect _ stack
      | exact .error h.unrecognized
  · rw [apply_of_branch hjump, apply_of_branch (h.opcode ▸ hjump)]
    exact .error h.unrecognized

end Instruction.Like

/-! ## Routines with the same moves -/

namespace Routine

/-- Two routines with the same effects, whose jumps lead to the same places. -/
structure Like (E : Error → Error → Prop) (r r' : Routine) : Prop where
  code : List.Forall₂ (Instruction.Like E) r.code r'.code
  landing : ∀ {i ins ins'} (h : i < r.code.length) (h' : i < r'.code.length),
    r.code[i]? = some ins → r'.code[i]? = some ins' → ins.opcode.branch? ≠ none →
    Agree E (fun x y => x.1 = y.1) (r.landing ins i h) (r'.landing ins' i h')

namespace Like

variable {E : Error → Error → Prop} {r r' : Routine}

theorem getElem?_eq_none_iff (h : r.Like E r') (i : Nat) :
    r.code[i]? = none ↔ r'.code[i]? = none := by
  rw [List.getElem?_eq_none_iff, List.getElem?_eq_none_iff, h.code.length_eq]

theorem like (h : r.Like E r') {i : Nat} {ins ins' : Instruction} (hins : r.code[i]? = some ins)
    (hins' : r'.code[i]? = some ins') : ins.Like E ins' := by
  obtain ⟨hi, rfl⟩ := List.getElem?_eq_some_iff.1 hins
  obtain ⟨hi', rfl⟩ := List.getElem?_eq_some_iff.1 hins'
  exact (List.forall₂_iff_get.1 h.code).2 i hi hi'

theorem operandStart (h : r.Like E r') (here : Nat) :
    r.operandStart here = r'.operandStart here := by
  unfold Routine.operandStart
  have hnone := h.getElem?_eq_none_iff (here + 1)
  cases hins : r.code[here + 1]? with
  | none => rw [hnone.1 hins]
  | some ins =>
    cases hins' : r'.code[here + 1]? with
    | none => simp [hins, hins'] at hnone
    | some ins' =>
      dsimp only
      rw [(h.like hins hins').opcode]

end Like

/-- Moves that differ in failures only. -/
inductive Move.Like (E : Error → Error → Prop) : Move → Move → Prop
  | finish {x y : Except Error String} (h : Agree E (· = ·) x y) : Like E (.finish x) (.finish y)
  | advance (next : Stage) : Like E (.advance next) (.advance next)
  | descend (operand : Stage) (resume : String → Stage) :
      Like E (.descend operand resume) (.descend operand resume)

theorem Move.Like.ofExcept {E : Error → Error → Prop} {x y : Except Error Move}
    (h : Agree E (Move.Like E) x y) : Move.Like E (.ofExcept x) (.ofExcept y) := by
  cases h with
  | ok h => exact h
  | error h => exact .finish (.error h)

theorem Move.Like.eq {E : Error → Error → Prop} {m m' : Move} (h : Move.Like E m m')
    (hm : ∀ answer, m ≠ .finish answer) : m' = m := by
  cases h with
  | finish => exact absurd rfl (hm _)
  | advance => rfl
  | descend => rfl

section Walks

variable {E : Error → Error → Prop} {r r' : Routine} {s : Stage}

theorem branchMove_like (h : r.Like E r') {ins ins' : Instruction} (hins : ins.Like E ins') :
    Agree E (Move.Like E) (r.branchMove s ins) (r'.branchMove s ins') := by
  unfold branchMove
  by_cases hnext : s.cursor + 1 < s.stop
  · rw [if_pos hnext, if_pos hnext]
    have hnone := h.getElem?_eq_none_iff (s.cursor + 1)
    split
    · rename_i hbranch
      rw [hbranch] at hnone
      split
      · exact .error hins.unrecognized
      · rename_i hbranch'
        simp [hbranch'] at hnone
    · rename_i branch hbranch
      rw [hbranch] at hnone
      split
      · rename_i hop
        split
        · exact .error hins.unrecognized
        · rename_i hbranch'
          rw [← (h.like hbranch hbranch').opcode, hop]
          exact .error hins.unrecognized
      · rename_i op hop
        split
        · rename_i hbranch'
          simp [hbranch'] at hnone
        · rename_i branch' hbranch'
          rw [← (h.like hbranch hbranch').opcode, hop, ← h.operandStart]
          apply (hins.pop s.stack).bind_eq
          intro p
          apply (h.landing _ _ hbranch hbranch' (by simp [hop])).bind
          rintro ⟨target, _⟩ ⟨_, _⟩ rfl
          exact .ok (.descend _ _)
  · rw [if_neg hnext, if_neg hnext]
    exact .error hins.unrecognized

theorem move_like (hE : ∀ e, E e e) (h : r.Like E r') (s : Stage) :
    Move.Like E (r.move s) (r'.move s) := by
  unfold move
  by_cases hcursor : s.cursor < s.stop
  · rw [if_pos hcursor, if_pos hcursor]
    have hnone := h.getElem?_eq_none_iff s.cursor
    cases hins : r.code[s.cursor]? with
    | none =>
      rw [hnone.1 hins]
      exact .finish (.refl hE _)
    | some ins =>
      cases hins' : r'.code[s.cursor]? with
      | none => simp [hins, hins'] at hnone
      | some ins' =>
        have hlike := h.like hins hins'
        dsimp only
        rw [← hlike.opcode]
        split
        case h_1 => exact .finish (.refl hE _)
        case h_2 hop =>
          rw [hlike.operand (by rw [hop]; rfl)]
          exact .finish (.refl hE _)
        case h_3 | h_4 => exact .ofExcept (branchMove_like h hlike)
        case h_5 =>
          apply Move.Like.ofExcept
          apply (hlike.apply hE s.stack).bind
          rintro stack _ rfl
          exact .ok (.advance _)
  · rw [if_neg hcursor, if_neg hcursor]
    exact .finish (.refl hE _)

theorem move_eq_of_like (hE : ∀ e, E e e) (h : r.Like E r') {m : Move} (hmove : r.move s = m)
    (hm : ∀ answer, m ≠ .finish answer) : r'.move s = m := by
  have hlike := move_like hE h s
  rw [hmove] at hlike
  exact hlike.eq hm

/-- Routines that are alike give the same texts. -/
theorem walk_like (hE : ∀ e, E e e) (h : r.Like E r') (s : Stage) :
    Agree E (· = ·) (r.walk s) (r'.walk s) := by
  obtain ⟨visited, hruns⟩ := r.exists_runs s
  generalize r.walk s = answer at hruns
  -- Both walks go through the same stages, so the run of the one decides the other.
  induction hruns with
  | ended hended =>
    rw [walk_eq_run, move_of_le hended]
    exact .refl hE _
  | @finish s _ _ hmove =>
    have hlike := hmove ▸ move_like hE h s
    rw [walk_eq_run]
    generalize r'.move s = move' at hlike
    cases hlike with
    | finish h => exact h
  | advance hmove _ ih =>
    rw [walk_eq_run, move_eq_of_like hE h hmove (by simp), Move.run]
    exact ih
  | @fail _ operand _ _ _ hmove _ ih =>
    rw [walk_eq_run, move_eq_of_like hE h hmove (by simp), Move.run]
    generalize r'.walk operand = inner at ih
    cases ih with
    | error h => exact .error h
  | @resume _ operand _ _ _ _ _ hmove _ _ ih ih' =>
    rw [walk_eq_run, move_eq_of_like hE h hmove (by simp), Move.run]
    generalize r'.walk operand = inner at ih
    cases ih with
    | ok h =>
      subst h
      exact ih'

end Walks

end Routine

/-! ## The offsets of a trace -/

/-- The offset to which a conditional jump leads. -/
def Instruction.jump? (ins : Instruction) : Option Nat :=
  if ins.opcode.branch?.isSome then ins.operand.natural?.filter (· < Width.unsigned32) else none

/-- The offsets of instructions and those to which jumps lead. -/
def positions (code : List Instruction) : List Nat :=
  code.map (·.offset) ++ code.filterMap (·.jump?)

namespace Routine

/-- Where a jump to an offset arrives. -/
def arrival (r : Routine) (branch : Instruction) (here : Nat) (h : here < r.code.length)
    (offset : Nat) : Except Error { target : Nat // here < target } :=
  match r.index? offset with
  | some target =>
    if ahead : here < target then .ok ⟨target, ahead⟩
    else .error (.unsupported branch.opcode.name (.backwardJump offset))
  | none =>
    if r.last?.any (· < offset) then .ok ⟨r.code.length, h⟩
    else .error (.unsupported branch.opcode.name (.jumpBetween offset))

theorem landing_eq_arrival {r : Routine} {branch : Instruction} {here : Nat}
    (h : here < r.code.length) (hbranch : branch.opcode.branch? ≠ none) :
    r.landing branch here h =
      branch.jump?.elim (.error branch.unrecognized) (r.arrival branch here h) := by
  unfold landing Instruction.jump?
  rw [if_pos (Option.isSome_iff_ne_none.2 hbranch)]
  cases branch.operand.natural? with
  | none => rfl
  | some offset =>
    by_cases hsmall : offset < Width.unsigned32
    · rw [Option.filter_some_pos (by simpa using hsmall)]
      dsimp only
      rw [if_neg (by omega)]
      rfl
    · rw [Option.filter_some_neg (by simpa using hsmall)]
      dsimp only
      rw [if_pos (by omega)]
      rfl

/-- Jumps arrive at the same place where their offsets lead to the same index or are both beyond the
last one. -/
theorem arrival_agree {E : Error → Error → Prop} {r r' : Routine} {a b : Instruction}
    {i o o' : Nat} (h : i < r.code.length) (h' : i < r'.code.length)
    (hindex : r'.index? o' = r.index? o)
    (hlast : r'.last?.any (· < o') = r.last?.any (· < o))
    (hlength : r'.code.length = r.code.length)
    (hbackward : E (.unsupported a.opcode.name (.backwardJump o))
      (.unsupported b.opcode.name (.backwardJump o')))
    (hbetween : E (.unsupported a.opcode.name (.jumpBetween o))
      (.unsupported b.opcode.name (.jumpBetween o'))) :
    Agree E (fun x y => x.1 = y.1) (r.arrival a i h o) (r'.arrival b i h' o') := by
  unfold arrival
  rw [hindex, hlast]
  split
  · split
    · exact .ok rfl
    · exact .error hbackward
  · split
    · exact .ok hlength.symm
    · exact .error hbetween

/-- A jump is beyond the last instruction if it is beyond all of them. -/
theorem any_last_iff {code : List Instruction} {offset : Nat} :
    (ofCode code).last?.any (· < offset) = true ↔
      code ≠ [] ∧ ∀ ins ∈ code, ins.offset < offset := by
  unfold ofCode
  cases hlast : (code.map (·.offset)).max? with
  | none =>
    have hnil : code = [] := by simpa using List.max?_eq_none_iff.1 hlast
    simp [hnil]
  | some last =>
    obtain ⟨hmem, hle⟩ := List.max?_eq_some_iff.1 hlast
    obtain ⟨ins, hins, rfl⟩ := List.mem_map.1 hmem
    constructor
    · intro hlt
      replace hlt : ins.offset < offset := by simpa using hlt
      refine ⟨List.ne_nil_of_mem hins, fun x hx => ?_⟩
      have := hle _ (List.mem_map_of_mem hx)
      omega
    · rintro ⟨-, hall⟩
      simpa using hall ins hins

/-- The index of an offset is that of the last instruction that has it. -/
theorem index?_eq_getLast? (r : Routine) (offset : Nat) :
    r.index? offset = ((r.targets.filter (·.1 == offset)).getLast?).map (·.2) := by
  unfold index?
  rw [← List.head?_filter, List.filter_reverse, List.head?_reverse]

end Routine

/-! ## More instructions without effect -/

/-- `Padded free code code'`: the second code is the first one with more instructions without effect,
all of them at offsets that are free. -/
inductive Padded (free : Nat → Prop) : List Instruction → List Instruction → Prop
  | nil : Padded free [] []
  | keep (ins : Instruction) {code code' : List Instruction} (h : Padded free code code') :
      Padded free (ins :: code) (ins :: code')
  | insert (ins : Instruction) {code code' : List Instruction} (hnoop : ins.opcode.isNoop = true)
      (hfree : free ins.offset) (h : Padded free code code') : Padded free code (ins :: code')

/-- An offset that a code does not speak of, and not beyond its last one. -/
def IsFree (code : List Instruction) (offset : Nat) : Prop :=
  offset ∉ positions code ∧ ∃ ins ∈ code, offset ≤ ins.offset

namespace Padded

variable {free : Nat → Prop} {code code' : List Instruction}

theorem filter_isNoop (h : Padded free code code') :
    code'.filter (!·.opcode.isNoop) = code.filter (!·.opcode.isNoop) := by
  induction h with
  | nil => rfl
  | keep ins _ ih => rw [List.filter_cons, List.filter_cons, ih]
  | insert ins hnoop _ _ ih => rw [List.filter_cons_of_neg (by simp [hnoop]), ih]

theorem mem (h : Padded free code code') {ins : Instruction} (hins : ins ∈ code) : ins ∈ code' := by
  induction h with
  | nil => cases hins
  | keep x _ ih =>
    obtain rfl | hins := List.mem_cons.1 hins
    · exact List.mem_cons_self
    · exact List.mem_cons_of_mem _ (ih hins)
  | insert x _ _ _ ih => exact List.mem_cons_of_mem _ (ih hins)

theorem mem_or_free (h : Padded free code code') {ins : Instruction} (hins : ins ∈ code') :
    ins ∈ code ∨ free ins.offset := by
  induction h with
  | nil => cases hins
  | keep x _ ih =>
    obtain rfl | hins := List.mem_cons.1 hins
    · exact .inl List.mem_cons_self
    · exact (ih hins).imp_left (List.mem_cons_of_mem _)
  | insert x _ hfree _ ih =>
    obtain rfl | hins := List.mem_cons.1 hins
    · exact .inr hfree
    · exact ih hins

/-- An offset that is not free leads where it led before. -/
theorem filter_targetsFrom (h : Padded free code code') {offset : Nat} (hoffset : ¬ free offset)
    (kept : Nat) : (Routine.targetsFrom kept code').filter (·.1 == offset) =
      (Routine.targetsFrom kept code).filter (·.1 == offset) := by
  induction h generalizing kept with
  | nil => rfl
  | keep ins _ ih =>
    unfold Routine.targetsFrom
    rw [List.filter_cons, List.filter_cons, ih]
  | insert ins hnoop hfree _ ih =>
    have hne : ins.offset ≠ offset := by
      rintro rfl
      exact hoffset hfree
    rw [Routine.targetsFrom, List.filter_cons_of_neg (by simpa using hne), if_pos hnoop, ih]

theorem any_last (h : Padded (IsFree code) code code') (offset : Nat) :
    (Routine.ofCode code').last?.any (· < offset) = (Routine.ofCode code).last?.any (· < offset) := by
  rw [Bool.eq_iff_iff, Routine.any_last_iff, Routine.any_last_iff]
  constructor
  · rintro ⟨hne, hall⟩
    refine ⟨?_, fun ins hins => hall ins (h.mem hins)⟩
    -- Nothing is free in an empty code.
    rintro rfl
    obtain ⟨ins, hins⟩ := List.exists_mem_of_ne_nil _ hne
    obtain hins | ⟨-, x, hx, -⟩ := h.mem_or_free hins
    · cases hins
    · cases hx
  · rintro ⟨hne, hall⟩
    obtain ⟨ins, hins⟩ := List.exists_mem_of_ne_nil _ hne
    refine ⟨List.ne_nil_of_mem (h.mem hins), fun x hx => ?_⟩
    obtain hx | ⟨-, y, hy, hle⟩ := h.mem_or_free hx
    · exact hall x hx
    · have hlt := hall y hy
      omega

theorem like (h : Padded (IsFree code) code code') :
    (Routine.ofCode code).Like (· = ·) (Routine.ofCode code') where
  code := by
    have hcode : (Routine.ofCode code').code = (Routine.ofCode code).code := h.filter_isNoop
    rw [hcode, List.forall₂_same]
    exact fun ins _ => ⟨rfl, rfl, rfl, fun _ => rfl, rfl, rfl⟩
  landing := by
    intro i ins ins' hi hi' hins hins' hbranch
    have hcode : (Routine.ofCode code').code = (Routine.ofCode code).code := h.filter_isNoop
    rw [hcode, hins] at hins'
    cases hins'
    rw [Routine.landing_eq_arrival hi hbranch, Routine.landing_eq_arrival hi' hbranch]
    cases hjump : ins.jump? with
    | none => exact .error rfl
    | some offset =>
      have hmem : ins ∈ code := (List.mem_filter.1 (List.mem_of_getElem? hins)).1
      have hoffset : ¬ IsFree code offset := fun hfree =>
        hfree.1 (List.mem_append_right _ (List.mem_filterMap.2 ⟨ins, hmem, hjump⟩))
      refine Routine.arrival_agree hi hi' ?_ (h.any_last offset) (by rw [hcode]) rfl rfl
      rw [Routine.index?_eq_getLast?, Routine.index?_eq_getLast?]
      exact congrArg (fun l => l.getLast?.map (·.2)) (h.filter_targetsFrom hoffset 0)

end Padded

/-! ## Other offsets in the same order -/

/-- The instruction with its own offset, and the one to which it jumps, renumbered. -/
def Instruction.renumber (f : Nat → Nat) (ins : Instruction) : Instruction :=
  { ins with
    offset := f ins.offset
    operand := ins.jump?.elim ins.operand fun offset => .int (f offset) }

/-- A renumbering of the offsets of a code that keeps their order and their width. -/
structure Renumbers (f : Nat → Nat) (code : List Instruction) : Prop where
  increasing : StrictMonoOn f {offset | offset ∈ positions code}
  small : ∀ offset ∈ positions code, f offset < Width.unsigned32

theorem Instruction.like_renumber (f : Nat → Nat) (ins : Instruction) :
    ins.Like (fun x y => x.kind = y.kind) (ins.renumber f) where
  opcode := rfl
  arg := rfl
  text := rfl
  operand h := by
    unfold renumber jump?
    rw [if_neg (by simp [h])]
    rfl
  unrecognized := rfl
  underflow := rfl

theorem Instruction.jump?_renumber {f : Nat → Nat} {ins : Instruction}
    (h : ∀ offset, ins.jump? = some offset → f offset < Width.unsigned32) :
    (ins.renumber f).jump? = ins.jump?.map f := by
  cases hjump : ins.jump? with
  | none =>
    unfold renumber
    rw [hjump]
    exact hjump
  | some offset =>
    have hoperand : (ins.renumber f).operand.natural? = some (f offset) := by
      unfold renumber
      rw [hjump]
      rfl
    have hbranch : ins.opcode.branch?.isSome = true := by
      by_contra hnone
      rw [jump?, if_neg hnone] at hjump
      cases hjump
    have hopcode : (ins.renumber f).opcode = ins.opcode := rfl
    unfold jump?
    rw [hoperand, hopcode, if_pos hbranch, Option.filter_some_pos (by simpa using h offset hjump)]
    rfl

namespace Renumbers

variable {f : Nat → Nat} {code : List Instruction}

theorem targetsFrom_map (kept : Nat) : Routine.targetsFrom kept (code.map (·.renumber f)) =
    (Routine.targetsFrom kept code).map (Prod.map f id) := by
  induction code generalizing kept with
  | nil => rfl
  | cons ins code ih =>
    rw [List.map_cons, Routine.targetsFrom, Routine.targetsFrom, List.map_cons, ih]
    rfl

theorem fst_mem_of_targetsFrom {kept : Nat} {p : Nat × Nat} (h : p ∈ Routine.targetsFrom kept code) :
    p.1 ∈ code.map (·.offset) := by
  induction code generalizing kept with
  | nil => cases h
  | cons ins code ih =>
    obtain rfl | h := List.mem_cons.1 h
    · exact List.mem_cons_self
    · exact List.mem_cons_of_mem _ (ih h)

theorem index? (h : Renumbers f code) {offset : Nat} (hoffset : offset ∈ positions code) :
    (Routine.ofCode (code.map (·.renumber f))).index? (f offset) =
      (Routine.ofCode code).index? offset := by
  rw [Routine.index?_eq_getLast?, Routine.index?_eq_getLast?]
  have hfilter : ((Routine.ofCode (code.map (·.renumber f))).targets.filter (·.1 == f offset)) =
      ((Routine.ofCode code).targets.filter (·.1 == offset)).map (Prod.map f id) := by
    unfold Routine.ofCode
    rw [targetsFrom_map, List.filter_map]
    congr 1
    apply List.filter_congr
    intro p hp
    have hmem : p.1 ∈ positions code := List.mem_append_left _ (fst_mem_of_targetsFrom hp)
    simp [h.increasing.injOn.eq_iff hmem hoffset]
  rw [hfilter, List.getLast?_map, Option.map_map]
  rfl

theorem any_last (h : Renumbers f code) {offset : Nat} (hoffset : offset ∈ positions code) :
    (Routine.ofCode (code.map (·.renumber f))).last?.any (· < f offset) =
      (Routine.ofCode code).last?.any (· < offset) := by
  rw [Bool.eq_iff_iff, Routine.any_last_iff, Routine.any_last_iff]
  apply and_congr
  · simp
  · rw [List.forall_mem_map]
    refine forall₂_congr fun ins hins => ?_
    exact h.increasing.lt_iff_lt (List.mem_append_left _ (List.mem_map_of_mem hins)) hoffset

theorem like (h : Renumbers f code) : (Routine.ofCode code).Like (fun x y => x.kind = y.kind)
    (Routine.ofCode (code.map (·.renumber f))) := by
  have hcode : (Routine.ofCode (code.map (·.renumber f))).code =
      (Routine.ofCode code).code.map (·.renumber f) := by
    unfold Routine.ofCode
    rw [List.filter_map]
    rfl
  constructor
  · rw [hcode, List.forall₂_map_right_iff, List.forall₂_same]
    exact fun ins _ => ins.like_renumber f
  · intro i ins ins' hi hi' hins hins' hbranch
    rw [hcode, List.getElem?_map, hins] at hins'
    cases hins'
    have hbranch' : (ins.renumber f).opcode.branch? ≠ none := hbranch
    have hmem : ins ∈ code := (List.mem_filter.1 (List.mem_of_getElem? hins)).1
    have hposition : ∀ offset, ins.jump? = some offset → offset ∈ positions code :=
      fun offset hjump => List.mem_append_right _ (List.mem_filterMap.2 ⟨ins, hmem, hjump⟩)
    rw [Routine.landing_eq_arrival hi hbranch, Routine.landing_eq_arrival hi' hbranch',
      Instruction.jump?_renumber fun offset hjump => h.small _ (hposition offset hjump)]
    cases hjump : ins.jump? with
    | none => exact .error rfl
    | some offset =>
      have hoffset := hposition offset hjump
      exact Routine.arrival_agree hi hi' (h.index? hoffset) (h.any_last hoffset) (by simp [hcode])
        rfl rfl

end Renumbers

theorem text_like {E : Error → Error → Prop} (hE : ∀ e, E e e) {code code' : List Instruction}
    (h : (Routine.ofCode code).Like E (Routine.ofCode code')) (params : List String) :
    Agree E (· = ·) (Trace.mk params code).text (Trace.mk params code').text := by
  unfold Trace.text
  by_cases hparams : params.isEmpty
  · rw [if_pos hparams, if_pos hparams]
    have hwhole : (Routine.ofCode code').whole = (Routine.ofCode code).whole := by
      rw [Routine.whole, ← h.code.length_eq, Routine.whole]
    dsimp only
    rw [hwhole]
    exact Routine.walk_like hE h (Routine.ofCode code).whole
  · rw [if_neg hparams, if_neg hparams]
    exact .refl hE _

/-- The text of a trace does not depend on offsets as such. Instructions without effect may be
inserted anywhere at free offsets, without a change of the text or of the failure; and offsets may be
renumbered in the same order, without a change of the text or of the kind of the failure. -/
theorem text_of_offsets (t : Trace) :
    (∀ code, Padded (IsFree t.code) t.code code → (Trace.mk t.params code).text = t.text) ∧
    ∀ f, Renumbers f t.code →
      Agree (fun x y => x.kind = y.kind) (· = ·) t.text
        (Trace.mk t.params (t.code.map (·.renumber f))).text := by
  constructor
  · intro code h
    exact (text_like (fun _ => rfl) h.like t.params).eq.symm
  · intro f h
    exact text_like (E := fun x y => x.kind = y.kind) (fun _ => rfl) h.like t.params

/-- A conjunction with instructions without effect in front of the jump, behind it and before its
target, and with other offsets. -/
theorem text_of_offsets_conjunction : ∃ t : Trace,
    t = ⟨[], [⟨.loadName, 2, none, .str "a", ""⟩, ⟨.copy, 4, some 1, .int 1, ""⟩,
      ⟨.popJumpIfFalse, 6, none, .int 12, ""⟩, ⟨.popTop, 8, none, .null, ""⟩,
      ⟨.loadName, 10, none, .str "b", ""⟩, ⟨.returnValue, 12, none, .null, ""⟩]⟩ ∧
    t.text = .ok "(a and b)" ∧
    (∃ code, Padded (IsFree t.code) t.code code ∧ code.length = 9 ∧
      (Trace.mk [] code).text = .ok "(a and b)") ∧
    Renumbers (3 * · + 1) t.code ∧
    (Trace.mk [] (t.code.map (·.renumber (3 * · + 1)))).text = .ok "(a and b)" := by
  let t : Trace := ⟨[], [⟨.loadName, 2, none, .str "a", ""⟩, ⟨.copy, 4, some 1, .int 1, ""⟩,
    ⟨.popJumpIfFalse, 6, none, .int 12, ""⟩, ⟨.popTop, 8, none, .null, ""⟩,
    ⟨.loadName, 10, none, .str "b", ""⟩, ⟨.returnValue, 12, none, .null, ""⟩]⟩
  have htext : t.text = .ok "(a and b)" := by cbv
  have hfree : ∀ offset, offset ∉ positions t.code → offset ≤ 12 → IsFree t.code offset :=
    fun offset hmem hle => ⟨hmem, ⟨.returnValue, 12, none, .null, ""⟩, by simp [t], hle⟩
  have hpadded : Padded (IsFree t.code) t.code
      [⟨.loadName, 2, none, .str "a", ""⟩, ⟨.nop, 11, none, .null, ""⟩,
        ⟨.copy, 4, some 1, .int 1, ""⟩, ⟨.popJumpIfFalse, 6, none, .int 12, ""⟩,
        ⟨.cache, 3, none, .null, ""⟩, ⟨.popTop, 8, none, .null, ""⟩,
        ⟨.loadName, 10, none, .str "b", ""⟩, ⟨.nop, 11, none, .null, ""⟩,
        ⟨.returnValue, 12, none, .null, ""⟩] :=
    .keep _ (.insert _ rfl (hfree 11 (by decide) (by decide)) (.keep _ (.keep _ (.insert _ rfl
      (hfree 3 (by decide) (by decide)) (.keep _ (.keep _ (.insert _ rfl
        (hfree 11 (by decide) (by decide)) (.keep _ .nil))))))))
  have hrenumbers : Renumbers (3 * · + 1) t.code := by
    refine ⟨fun a _ b _ hab => ?_, by decide⟩
    show 3 * a + 1 < 3 * b + 1
    omega
  obtain ⟨hinsert, hrenumber⟩ := text_of_offsets t
  refine ⟨t, rfl, htext, ⟨_, hpadded, rfl, (hinsert _ hpadded).trans htext⟩, hrenumbers, ?_⟩
  have hagree := hrenumber _ hrenumbers
  rw [htext] at hagree
  generalize (Trace.mk t.params (t.code.map (·.renumber (3 * · + 1)))).text = text at hagree
  cases hagree with
  | ok h => rw [h]

end DocQuery
