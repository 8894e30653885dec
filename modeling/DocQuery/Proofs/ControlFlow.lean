import DocQuery.Proofs.Machine
import DocQuery.Proofs.StackTexts
import DocQuery.Proofs.Reading

/-! # Control flow and connectives

The text that is recovered from a trace of names, negations and short cuts always reads as a
condition. Where the jumps of the trace are nested like the operands of connectives, the trace
returns the value of that condition.

* `Trace.Connects`: the traces of names, negations and short cuts.
* `Structured`: jumps, returns and drops are placed like those of nested connectives.
* `walk_computes`: what a walk over a range recovers is what the machine computes on that range.
* `text_returns`: the same of a whole trace.
-/

set_option autoImplicit false

namespace DocQuery

open Token

/-! ## Traces of conditions -/

/-- The instruction loads a name, negates, copies or drops the top of the stack, jumps on a condition
or returns. -/
inductive Instruction.Connects (ins : Instruction) : Prop
  | load (hop : ins.opcode = .loadGlobal) (hname : IsName ins.nameText)
  | negate (hop : ins.opcode = .unaryNot)
  | copy (hop : ins.opcode = .copy) (hcount : ins.count = 1)
  | dupTop (hop : ins.opcode = .dupTop)
  | jump (hop : ins.opcode = .popJumpIfFalse ∨ ins.opcode = .popJumpIfTrue)
  | drop (hop : ins.opcode = .popTop)
  | returns (hop : ins.opcode = .returnValue)

/-- The trace consists of such instructions, in the order of their offsets. -/
structure Trace.Connects (t : Trace) : Prop where
  code : ∀ ins ∈ t.code, ins.Connects
  offsets : t.code.Pairwise (·.offset < ·.offset)

/-- A jump stands at index `i` and leads to `target`; a jump to no instruction leads to the end. -/
def JumpsAt (code : List Instruction) (i target : Nat) : Prop :=
  ∃ ins, code[i]? = some ins ∧ ins.opcode.branch?.isSome = true ∧
    target = (jumpTarget? code ins).getD code.length

/-- The instruction at index `i` has the given operation. -/
def OperatesAt (code : List Instruction) (opcode : Opcode) (i : Nat) : Prop :=
  ∃ ins, code[i]? = some ins ∧ ins.opcode = opcode

/-- Jumps, returns and drops are placed like those of nested connectives: a jump inside another one
does not lead further, unless both lead to a return; a jump over a return leads to a return; and
either every jump is followed by a drop, or drops stand after jumps only. -/
structure Structured (code : List Instruction) : Prop where
  returns : ∃ i, OperatesAt code .returnValue i
  nested : ∀ i j t u, JumpsAt code i t → JumpsAt code j u → i < j → j < t →
    u ≤ t ∨ OperatesAt code .returnValue t ∧ OperatesAt code .returnValue u
  tail : ∀ i p t, JumpsAt code i t → OperatesAt code .returnValue p → i < p → p < t →
    OperatesAt code .returnValue t
  drops : (∀ i t, JumpsAt code i t → OperatesAt code .popTop (i + 1)) ∨
    ∀ i, OperatesAt code .popTop i → ∃ j t, i = j + 1 ∧ JumpsAt code j t

section Decidable

variable (code : List Instruction) (opcode : Opcode) (i : Nat)

/-- Where the jump at index `i` leads, if a jump stands there. -/
def jump? : Option Nat :=
  (code[i]?.filter (·.opcode.branch?.isSome)).map fun ins =>
    (jumpTarget? code ins).getD code.length

variable {code i}

theorem mem_jump? {t : Nat} : t ∈ jump? code i ↔ JumpsAt code i t := by
  simp [jump?, JumpsAt, Option.filter_eq_some_iff, and_assoc, eq_comm (a := t)]

theorem JumpsAt.lt_length {t : Nat} (h : JumpsAt code i t) : i < code.length := by
  obtain ⟨ins, hins, -⟩ := h
  exact (List.getElem?_eq_some_iff.1 hins).1

theorem OperatesAt.lt_length {opcode : Opcode} (h : OperatesAt code opcode i) : i < code.length := by
  obtain ⟨ins, hins, -⟩ := h
  exact (List.getElem?_eq_some_iff.1 hins).1

instance : Decidable (OperatesAt code opcode i) :=
  decidable_of_iff (code[i]?.any (·.opcode = opcode)) (by simp [OperatesAt, Option.any_eq_true])

/-- Only the indices of the code need to be looked at. -/
theorem structured_iff : Structured code ↔
    (∃ i < code.length, OperatesAt code .returnValue i) ∧
    (∀ i < code.length, ∀ j < code.length, ∀ t ∈ jump? code i, ∀ u ∈ jump? code j, i < j → j < t →
      u ≤ t ∨ OperatesAt code .returnValue t ∧ OperatesAt code .returnValue u) ∧
    (∀ i < code.length, ∀ p < code.length, ∀ t ∈ jump? code i, OperatesAt code .returnValue p →
      i < p → p < t → OperatesAt code .returnValue t) ∧
    ((∀ i < code.length, ∀ t ∈ jump? code i, OperatesAt code .popTop (i + 1)) ∨
      ∀ i < code.length, OperatesAt code .popTop i →
        ∃ j < code.length, i = j + 1 ∧ (jump? code j).isSome = true) := by
  constructor
  · rintro ⟨⟨i, hi⟩, hnested, htail, hdrops⟩
    refine ⟨⟨i, hi.lt_length, hi⟩, fun i _ j _ t ht u hu => ?_, fun i _ p _ t ht => ?_, ?_⟩
    · exact hnested i j t u (mem_jump?.1 ht) (mem_jump?.1 hu)
    · exact htail i p t (mem_jump?.1 ht)
    · refine hdrops.imp (fun h i _ t ht => h i t (mem_jump?.1 ht)) fun h i _ hi => ?_
      obtain ⟨j, t, rfl, hj⟩ := h i hi
      exact ⟨j, hj.lt_length, rfl, Option.isSome_of_mem (mem_jump?.2 hj)⟩
  · rintro ⟨⟨i, -, hi⟩, hnested, htail, hdrops⟩
    refine ⟨⟨i, hi⟩, fun i j t u ht hu => ?_, fun i p t ht hp => ?_, ?_⟩
    · exact hnested i ht.lt_length j hu.lt_length t (mem_jump?.2 ht) u (mem_jump?.2 hu)
    · exact htail i ht.lt_length p hp.lt_length t (mem_jump?.2 ht) hp
    · refine hdrops.imp (fun h i t ht => h i ht.lt_length t (mem_jump?.2 ht)) fun h i hi => ?_
      obtain ⟨j, -, rfl, hj⟩ := h i hi.lt_length hi
      obtain ⟨t, ht⟩ := Option.isSome_iff_exists.1 hj
      exact ⟨j, t, rfl, mem_jump?.1 ht⟩

set_option synthInstance.maxSize 256 in
instance : Decidable (Structured code) := decidable_of_iff _ structured_iff.symm

end Decidable

section Targets

variable {code : List Instruction}

theorem Instruction.Connects.isNoop_eq_false {ins : Instruction} (h : ins.Connects) :
    ins.opcode.isNoop = false := by
  cases h with
  | jump hop => rcases hop with hop | hop <;> rw [hop] <;> rfl
  | _ => simp [*, Opcode.isNoop]

theorem filter_isNoop (h : ∀ ins ∈ code, ins.opcode.isNoop = false) :
    code.filter (!·.opcode.isNoop) = code := by
  rw [List.filter_eq_self]
  intro ins hins
  simp [h ins hins]

theorem mem_targetsFrom (h : ∀ ins ∈ code, ins.opcode.isNoop = false) (kept : Nat)
    (p : Nat × Nat) : p ∈ Routine.targetsFrom kept code ↔
      ∃ k ins, code[k]? = some ins ∧ p = (ins.offset, kept + k) := by
  induction code generalizing kept with
  | nil => simp [Routine.targetsFrom]
  | cons ins code ih =>
    rw [Routine.targetsFrom, List.mem_cons, h ins List.mem_cons_self, if_neg (by simp),
      ih fun ins' hins' => h ins' (List.mem_cons_of_mem _ hins')]
    constructor
    · rintro (rfl | ⟨k, ins', hins', rfl⟩)
      · exact ⟨0, ins, rfl, rfl⟩
      · exact ⟨k + 1, ins', hins', by rw [Nat.add_right_comm, Nat.add_assoc]⟩
    · rintro ⟨k, ins', hins', rfl⟩
      cases k with
      | zero =>
        cases hins'
        exact .inl rfl
      | succ k => exact .inr ⟨k, ins', hins', by rw [Nat.add_right_comm, Nat.add_assoc]⟩

theorem index_unique (h : code.Pairwise (·.offset < ·.offset)) {k l : Nat} {a b : Instruction}
    (ha : code[k]? = some a) (hb : code[l]? = some b) (heq : a.offset = b.offset) : k = l := by
  obtain ⟨hk, rfl⟩ := List.getElem?_eq_some_iff.1 ha
  obtain ⟨hl, rfl⟩ := List.getElem?_eq_some_iff.1 hb
  rw [List.pairwise_iff_getElem] at h
  rcases Nat.lt_trichotomy k l with hlt | rfl | hlt
  · have := h k l hk hl hlt
    omega
  · rfl
  · have := h l k hl hk hlt
    omega

/-- Where all instructions have an effect and stand in order, an offset leads to the instruction that
has it. -/
theorem index?_ofCode (hcode : ∀ ins ∈ code, ins.opcode.isNoop = false)
    (hoffsets : code.Pairwise (·.offset < ·.offset)) (offset : Nat) :
    (Routine.ofCode code).index? offset = code.findIdx? (·.offset == offset) := by
  have hmem : ∀ p, p ∈ (Routine.ofCode code).targets.reverse ↔
      ∃ k ins, code[k]? = some ins ∧ p = (ins.offset, k) := by
    intro p
    have h := mem_targetsFrom hcode 0 p
    simp only [Nat.zero_add] at h
    rw [List.mem_reverse, ← h]
    rfl
  rw [Routine.index?]
  cases hfound : code.findIdx? (·.offset == offset) with
  | none =>
    have hnone : (Routine.ofCode code).targets.reverse.find? (·.1 == offset) = none := by
      rw [List.find?_eq_none]
      intro p hp
      obtain ⟨k, ins, hins, rfl⟩ := (hmem p).1 hp
      exact Bool.eq_false_iff.1 (List.findIdx?_eq_none_iff.1 hfound ins (List.mem_of_getElem? hins))
    rw [hnone]
    rfl
  | some k =>
    obtain ⟨hlt, hoffset, -⟩ := List.findIdx?_eq_some_iff_getElem.1 hfound
    have hk : code[k]? = some code[k] := List.getElem?_eq_getElem hlt
    have hkey : code[k].offset = offset := by simpa using hoffset
    have hfind : (Routine.ofCode code).targets.reverse.find? (·.1 == offset) = some (offset, k) := by
      refine find?_key ((hmem _).2 ⟨k, code[k], hk, by rw [hkey]⟩) fun p hp hp1 => ?_
      obtain ⟨l, ins, hins, rfl⟩ := (hmem p).1 hp
      rw [index_unique hoffsets hins hk (hp1.trans hkey.symm)]
      exact congrArg (·, k) hp1
    rw [hfind]
    rfl

theorem landing_ofCode {branch : Instruction} {here target : Nat} {ahead : here < target}
    {h : here < (Routine.ofCode code).code.length}
    (hcode : ∀ ins ∈ code, ins.opcode.isNoop = false)
    (hoffsets : code.Pairwise (·.offset < ·.offset))
    (hlanding : (Routine.ofCode code).landing branch here h = .ok ⟨target, ahead⟩) :
    target = (jumpTarget? code branch).getD code.length := by
  have hlength : (Routine.ofCode code).code = code := filter_isNoop hcode
  rw [Routine.landing.eq_def] at hlanding
  split at hlanding
  · cases hlanding
  · rename_i offset hoffset
    rw [jumpTarget?, hoffset, Option.bind_some, ← index?_ofCode hcode hoffsets]
    split at hlanding
    · cases hlanding
    · split at hlanding
      · rename_i target' htarget
        rw [htarget]
        split at hlanding
        · cases hlanding
          rfl
        · cases hlanding
      · rename_i hnone
        rw [hnone]
        split at hlanding
        · cases hlanding
          rw [hlength]
          rfl
        · cases hlanding

end Targets

/-! ## Places in structured code -/

section Places

variable {code : List Instruction} {stop i : Nat} {ins branch : Instruction}

theorem OperatesAt.opcode_eq {opcode : Opcode} (h : OperatesAt code opcode i)
    (hins : code[i]? = some ins) : ins.opcode = opcode := by
  obtain ⟨ins', hins', hop⟩ := h
  cases hins.symm.trans hins'
  exact hop

theorem operandStart_cases {r : Routine} (hr : r.code = code) (here : Nat) :
    OperatesAt code .popTop (here + 1) ∧ r.operandStart here = here + 2 ∨
      ¬ OperatesAt code .popTop (here + 1) ∧ r.operandStart here = here + 1 := by
  unfold Routine.operandStart
  rw [hr]
  split
  · rename_i next hnext
    split
    · rename_i hdrop
      exact .inl ⟨⟨next, hnext, hdrop⟩, rfl⟩
    · rename_i hdrop
      exact .inr ⟨fun hop => hdrop (hop.opcode_eq hnext), rfl⟩
  · rename_i hnone
    rw [List.getElem?_eq_none_iff] at hnone
    exact .inr ⟨fun hop => absurd hop.lt_length (by omega), rfl⟩

/-- No drop that belongs to a jump stands at index `i`. -/
def Fresh (code : List Instruction) (i : Nat) : Prop :=
  OperatesAt code .popTop i → ∀ j t, JumpsAt code j t → i ≠ j + 1

theorem fresh_of_return (h : OperatesAt code .returnValue i) : Fresh code i := by
  intro hdrop
  obtain ⟨ins, hins, hop⟩ := h
  rw [hdrop.opcode_eq hins] at hop
  cases hop

/-- The walk over a range that ends at `stop` comes past index `i`. -/
structure Position (code : List Instruction) (stop i : Nat) : Prop where
  bounded : stop = code.length ∨ ∃ j, j < i ∧ JumpsAt code j stop
  ahead : ∃ p, i ≤ p ∧ OperatesAt code .returnValue p
  fresh : Fresh code i

theorem Position.succ (h : Position code stop i) (hins : code[i]? = some ins)
    (hreturn : ins.opcode ≠ .returnValue) (hjump : ins.opcode.branch? = none) :
    Position code stop (i + 1) where
  bounded := h.bounded.imp id fun ⟨j, hj, hjumps⟩ => ⟨j, by omega, hjumps⟩
  ahead := by
    obtain ⟨p, hp, hreturns⟩ := h.ahead
    have hne : p ≠ i := by
      rintro rfl
      exact hreturn (hreturns.opcode_eq hins)
    exact ⟨p, by omega, hreturns⟩
  fresh := by
    rintro - j t ⟨ins', hins', hsome, -⟩ hj
    cases Nat.succ.inj hj
    cases hins.symm.trans hins'
    rw [hjump] at hsome
    cases hsome

/-- Over a return that lies ahead, a jump leads to a return. -/
theorem Structured.target_lt (hs : Structured code) {k t : Nat} (hjump : JumpsAt code k t)
    (h : ∃ p, k < p ∧ OperatesAt code .returnValue p) : t < code.length := by
  obtain ⟨p, hp, hreturns⟩ := h
  by_cases hpt : p < t
  · exact (hs.tail k p t hjump hreturns hp hpt).lt_length
  · have := hreturns.lt_length
    omega

section Branch

variable {target : Nat} (hs : Structured code) (h : Position code stop i)
  (hi : i + 1 < stop) (hins : code[i]? = some ins)
  (hcopy : ins.opcode = .copy ∨ ins.opcode = .dupTop) (hjump : JumpsAt code (i + 1) target)

include h hins hcopy hjump in
/-- A return stands behind the jump. -/
theorem Position.ahead_jump : ∃ p, i + 1 < p ∧ OperatesAt code .returnValue p := by
  obtain ⟨p, hp, hreturns⟩ := h.ahead
  refine ⟨p, ?_, hreturns⟩
  have hcopies : p ≠ i := by
    rintro rfl
    have hop := hreturns.opcode_eq hins
    rcases hcopy with hcopy | hcopy <;> rw [hcopy] at hop <;> cases hop
  have hjumps : p ≠ i + 1 := by
    rintro rfl
    obtain ⟨branch, hbranch, hsome, -⟩ := hjump
    rw [hreturns.opcode_eq hbranch] at hsome
    cases hsome
  omega

include hs h hi hins hcopy hjump in
/-- A jump beyond the end of its range leads to a return, as the end of the range does. -/
theorem Position.crossing (hcross : stop < target) :
    OperatesAt code .returnValue stop ∧ OperatesAt code .returnValue target := by
  have htarget := hs.target_lt hjump (h.ahead_jump hins hcopy hjump)
  rcases h.bounded with rfl | ⟨j, hj, hjumps⟩
  · omega
  · rcases hs.nested j (i + 1) stop target hjumps hjump (by omega) (by omega) with hle | hboth
    · omega
    · exact hboth

include h hins hcopy hjump in
theorem Position.operand (r : Routine) (hr : r.code = code) :
    Position code (min target stop) (r.operandStart (i + 1)) where
  bounded := by
    have hstart := r.le_operandStart (i + 1)
    by_cases hle : target ≤ stop
    · rw [Nat.min_eq_left hle]
      exact .inr ⟨i + 1, hstart, hjump⟩
    · rw [Nat.min_eq_right (by omega)]
      exact h.bounded.imp id fun ⟨j, hj, hjumps⟩ => ⟨j, by omega, hjumps⟩
  ahead := by
    obtain ⟨p, hp, hreturns⟩ := h.ahead_jump hins hcopy hjump
    refine ⟨p, ?_, hreturns⟩
    rcases operandStart_cases hr (i + 1) with ⟨⟨next, hnext, hdrop⟩, hstart⟩ | ⟨-, hstart⟩
    · have hne : p ≠ i + 1 + 1 := by
        rintro rfl
        rw [hreturns.opcode_eq hnext] at hdrop
        cases hdrop
      omega
    · omega
  fresh := by
    rcases operandStart_cases hr (i + 1) with ⟨⟨next, hnext, hdrop⟩, hstart⟩ | ⟨hdrop, hstart⟩
    · rw [hstart]
      rintro - j t ⟨ins', hins', hsome, -⟩ hj
      cases Nat.succ.inj hj
      cases hnext.symm.trans hins'
      rw [hdrop] at hsome
      cases hsome
    · rw [hstart]
      exact fun hop => absurd hop hdrop

include hs h hi hins hcopy hjump in
theorem Position.after (hfresh : Fresh code (min target stop)) (ahead : i + 1 < target) :
    Position code stop (min target stop) := by
  refine ⟨h.bounded.imp id fun ⟨j, hj, hjumps⟩ => ⟨j, by omega, hjumps⟩, ?_, hfresh⟩
  by_cases hle : target ≤ stop
  · rw [Nat.min_eq_left hle]
    obtain ⟨p, hp, hreturns⟩ := h.ahead_jump hins hcopy hjump
    by_cases hpt : p < target
    · exact ⟨target, Nat.le_refl _, hs.tail (i + 1) p target hjump hreturns hp hpt⟩
    · exact ⟨p, by omega, hreturns⟩
  · rw [Nat.min_eq_right (by omega)]
    exact ⟨stop, Nat.le_refl _, (h.crossing hs hi hins hcopy hjump (by omega)).1⟩

end Branch

end Places

/-! ## What a range computes -/

section Ranges

variable {V : Type} {ν : Valuation V} {code : List Instruction} {stop i : Nat} {ins : Instruction}

/-- A condition with its text and its value. -/
structure Entry (ν : Valuation V) where
  expr : Expr
  text : String
  value : V
  spelling : Spelling .primary expr text.toList
  has_value : expr.value? ν = some value

def Entry.name (ν : Valuation V) (id : String) (h : IsName id) : Entry ν where
  expr := .name id
  text := id
  value := ν.read id
  spelling := (Spelling.name h).loosen (by decide)
  has_value := rfl

def Entry.negated (x : Entry ν) : Entry ν where
  expr := .unary .not x.expr
  text := "(" ++ UnaryOp.not.mark ++ x.text ++ ")"
  value := ν.ofBool !ν.truth x.value
  spelling := by
    have htext : ("(" ++ UnaryOp.not.mark ++ x.text ++ ")").toList =
        '(' :: ((UnaryOp.not.mark.toList ++ x.text.toList) ++ [')']) := by simp
    rw [htext]
    exact .enclosed_unary .not (x.spelling.loosen (by decide))
  has_value := by rw [Expr.value?, x.has_value, Option.map_some]

/-- Two entries under a connective. -/
def Entry.connected (op : BoolOp) (x y : Entry ν) : Entry ν where
  expr := .boolean op [x.expr, y.expr]
  text := "(" ++ x.text ++ " " ++ op.keyword ++ " " ++ y.text ++ ")"
  value := if op.isDecidedBy (ν.truth x.value) then x.value else y.value
  spelling := spelling_connected op x.spelling y.spelling
  has_value := by
    cases hdecided : op.isDecidedBy (ν.truth x.value) <;>
      simp [Expr.value?, Expr.decided?, x.has_value, y.has_value, hdecided]

/-- The values of the entries stand on the stack above `base`. Where jumps are not followed by drops,
values are left behind, and only the top is known. -/
structure Covers (code : List Instruction) (base : List V) (xs : List (Entry ν)) (stack : List V) :
    Prop where
  top : ∀ x ∈ xs.head?, stack.head? = some x.value
  all : (∀ i t, JumpsAt code i t → OperatesAt code .popTop (i + 1)) →
    stack = xs.map (·.value) ++ base

/-- Behind the end of a range the machine comes to return `w`; at the end of the code, `w` is on
top. -/
structure Exits (ν : Valuation V) (code : List Instruction) (stop : Nat) (stack : List V) (w : V) :
    Prop where
  inside : stop < code.length → ν.Ends code ⟨stop, stack⟩ w
  atEnd : code.length ≤ stop → stack.head? = some w

/-- From index `i` to `stop`, the machine makes the entry `x` of the entries `xs`. -/
structure Computes (code : List Instruction) (stop i : Nat) (xs : List (Entry ν)) (x : Entry ν) :
    Prop where
  fresh : Fresh code stop
  ends : ∀ base stack w, Covers code base xs stack →
    (∀ stack', Covers code base [x] stack' → Exits ν code stop stack' w) →
      ν.Ends code ⟨i, stack⟩ w

theorem Covers.exists_cons {base stack : List V} {x : Entry ν} {xs : List (Entry ν)}
    (h : Covers code base (x :: xs) stack) : ∃ rest, stack = x.value :: rest := by
  have htop := h.top x rfl
  cases stack with
  | nil => cases htop
  | cons v rest =>
    cases htop
    exact ⟨rest, rfl⟩

/-- Another entry on top in place of the first one. -/
theorem Covers.replace {base rest : List V} {x y : Entry ν} {xs : List (Entry ν)}
    (h : Covers code base (x :: xs) (x.value :: rest)) :
    Covers code base (y :: xs) (y.value :: rest) where
  top := by simp
  all hdrops := by
    have hall := h.all hdrops
    simp only [List.map_cons, List.cons_append, List.cons.injEq, true_and] at hall ⊢
    exact hall

section Steps

variable {x y : Entry ν} {xs : List (Entry ν)}

theorem computes_done (h : Position code stop i) (hle : i ≤ stop)
    (hi : stop ≤ i ∨ code.length ≤ i) : Computes code stop i [x] x := by
  obtain ⟨p, hp, hreturns⟩ := h.ahead
  have hlt := hreturns.lt_length
  obtain rfl : i = stop := by omega
  exact ⟨h.fresh, fun base stack w hcovers hexits => (hexits stack hcovers).inside (by omega)⟩

theorem computes_return (hs : Structured code) (h : Position code stop i) (hi : i < stop)
    (hins : code[i]? = some ins) (hop : ins.opcode = .returnValue) :
    Computes code stop i [x] x := by
  -- A return inside the range of a jump leads where the jump leads: to a return.
  have hstop : code.length ≤ stop ∨ OperatesAt code .returnValue stop := by
    rcases h.bounded with rfl | ⟨j, hj, hjumps⟩
    · exact .inl (Nat.le_refl _)
    · exact .inr (hs.tail j i stop hjumps ⟨ins, hins, hop⟩ hj hi)
  constructor
  · rcases hstop with hend | hreturn
    · exact fun hdrop => absurd hdrop.lt_length (by omega)
    · exact fresh_of_return hreturn
  · intro base stack w hcovers hexits
    obtain ⟨rest, rfl⟩ := hcovers.exists_cons
    have hexit := hexits _ hcovers
    rw [Valuation.ends_return_iff hins hop]
    rcases hstop with hend | hreturn
    · exact (Option.some.inj (hexit.atEnd hend)).symm
    · obtain ⟨last, hlast, hlastOp⟩ := hreturn
      exact (Valuation.ends_return_iff hlast hlastOp).1
        (hexit.inside (List.getElem?_eq_some_iff.1 hlast).1)

theorem computes_load (hins : code[i]? = some ins) (hop : ins.opcode = .loadGlobal)
    (hname : IsName ins.nameText)
    (h : Computes code stop (i + 1) (Entry.name ν ins.nameText hname :: xs) x) :
    Computes code stop i xs x := by
  refine ⟨h.fresh, fun base stack w hcovers hexits => .load hins hop ?_⟩
  refine h.ends base _ w ⟨by simp [Entry.name], fun hdrops => ?_⟩ hexits
  rw [hcovers.all hdrops]
  rfl

theorem computes_negate (hins : code[i]? = some ins) (hop : ins.opcode = .unaryNot)
    (h : Computes code stop (i + 1) (y.negated :: xs) x) :
    Computes code stop i (y :: xs) x := by
  refine ⟨h.fresh, fun base stack w hcovers hexits => ?_⟩
  obtain ⟨rest, rfl⟩ := hcovers.exists_cons
  exact .negate hins hop (h.ends base _ w hcovers.replace hexits)

theorem computes_drop (hs : Structured code) (hp : Position code stop i)
    (hins : code[i]? = some ins) (hop : ins.opcode = .popTop)
    (h : Computes code stop (i + 1) xs x) : Computes code stop i (y :: xs) x := by
  have hdrops : ∀ i t, JumpsAt code i t → OperatesAt code .popTop (i + 1) := by
    refine hs.drops.resolve_right fun honly => ?_
    obtain ⟨j, t, hj, hjumps⟩ := honly i ⟨ins, hins, hop⟩
    exact hp.fresh ⟨ins, hins, hop⟩ j t hjumps hj
  refine ⟨h.fresh, fun base stack w hcovers hexits => ?_⟩
  obtain rfl := hcovers.all hdrops
  refine .drop hins hop (h.ends base _ w ⟨fun z hz => ?_, fun _ => rfl⟩ hexits)
  cases xs with
  | nil => cases hz
  | cons z' xs =>
    cases hz
    rfl

/-- A copy of the top and a jump: the other operand counts only where the jump is not taken. -/
theorem computes_branch {branch : Instruction} {op : BoolOp} {target : Nat} {left right : Entry ν}
    {r : Routine} (hr : r.code = code) (hs : Structured code) (hp : Position code stop i)
    (hi : i + 1 < stop) (hins : code[i]? = some ins)
    (hcopy : ins.opcode = .copy ∨ ins.opcode = .dupTop) (hbranch : code[i + 1]? = some branch)
    (hop : branch.opcode.branch? = some op)
    (htarget : target = (jumpTarget? code branch).getD code.length)
    (hright : Computes code (min target stop) (r.operandStart (i + 1)) [] right)
    (hrest : Computes code stop (min target stop) (Entry.connected op left right :: xs) x) :
    Computes code stop i (left :: xs) x := by
  have hjump : JumpsAt code (i + 1) target := ⟨branch, hbranch, by simp [hop], htarget⟩
  have hlt := hs.target_lt hjump (hp.ahead_jump hins hcopy hjump)
  refine ⟨hrest.fresh, fun base stack w hcovers hexits => ?_⟩
  obtain ⟨rest, rfl⟩ := hcovers.exists_cons
  refine .duplicate hins hcopy ?_
  cases hdecided : op.isDecidedBy (ν.truth left.value) with
  | true =>
    have hvalue : (Entry.connected op left right).value = left.value := by
      simp [Entry.connected, hdecided]
    have hends := hrest.ends base (left.value :: rest) w (hvalue ▸ hcovers.replace) hexits
    have hsome : jumpTarget? code branch = some target := by
      cases hfound : jumpTarget? code branch with
      | none =>
        rw [hfound, Option.getD_none] at htarget
        omega
      | some t => rw [htarget, hfound, Option.getD_some]
    refine .jump hbranch hop hsome hdecided ?_
    by_cases hle : target ≤ stop
    · rw [Nat.min_eq_left hle] at hends
      exact hends
    · -- Both the end of the range and the target return the top, which is the left operand.
      obtain ⟨⟨a, ha, haOp⟩, b, hb, hbOp⟩ := hp.crossing hs hi hins hcopy hjump (by omega)
      rw [Nat.min_eq_right (by omega), Valuation.ends_return_iff ha haOp] at hends
      exact (Valuation.ends_return_iff hb hbOp).2 hends
  | false =>
    have hvalue : (Entry.connected op left right).value = right.value := by
      simp [Entry.connected, hdecided]
    -- The operand starts with what the jump leaves, less what is dropped.
    have hoperand : ∀ stack, ((∀ i t, JumpsAt code i t → OperatesAt code .popTop (i + 1)) →
        stack = rest) → ν.Ends code ⟨r.operandStart (i + 1), stack⟩ w := by
      intro stack hstack
      refine hright.ends stack stack w ⟨by simp, fun _ => rfl⟩ fun stack' hcovers' => ?_
      refine ⟨fun _ => ?_, fun hend => by omega⟩
      refine hrest.ends base stack' w ⟨?_, fun hdrops => ?_⟩ hexits
      · intro z hz
        cases hz
        rw [hvalue]
        exact hcovers'.top right rfl
      · have hall := hcovers.all hdrops
        rw [hcovers'.all hdrops, hstack hdrops]
        simp only [List.map_cons, List.map_nil, List.cons_append, List.nil_append,
          List.cons.injEq, true_and] at hall ⊢
        exact ⟨hvalue.symm, hall⟩
    refine .pass hbranch hop hdecided ?_
    rcases operandStart_cases hr (i + 1) with ⟨⟨next, hnext, hdrop⟩, hstart⟩ | ⟨hdrop, hstart⟩
    · refine .drop hnext hdrop ?_
      rw [hstart] at hoperand
      exact hoperand rest fun _ => rfl
    · rw [hstart] at hoperand
      exact hoperand _ fun hdrops => absurd (hdrops _ _ hjump) hdrop

end Steps

/-- The instructions of a condition that have an effect of their own. -/
theorem Instruction.Connects.apply_cases {stack stack' : List String} (h : ins.Connects)
    (hop : ins.opcode ∉ [Opcode.returnValue, .returnConst, .copy, .dupTop])
    (happly : ins.apply stack = .ok stack') :
    (ins.opcode = .loadGlobal ∧ IsName ins.nameText ∧ stack' = ins.nameText :: stack) ∨
    (ins.opcode = .unaryNot ∧ ∃ a rest, stack = a :: rest ∧
      stack' = ("(" ++ UnaryOp.not.mark ++ a ++ ")") :: rest) ∨
    (ins.opcode = .popTop ∧ ∃ a, stack = a :: stack') := by
  rw [Instruction.apply.eq_def] at happly
  cases h with
  | load hload hname =>
    rw [hload] at happly
    cases happly
    exact .inl ⟨hload, hname, rfl⟩
  | negate hnot =>
    rw [hnot] at happly
    obtain ⟨⟨a, rest⟩, hpop, happly⟩ := bind_eq_ok happly
    cases happly
    exact .inr (.inl ⟨hnot, a, rest, Routine.eq_of_pop hpop, rfl⟩)
  | drop hdrop =>
    rw [hdrop] at happly
    obtain ⟨⟨a, rest⟩, hpop, happly⟩ := bind_eq_ok happly
    cases happly
    exact .inr (.inr ⟨hdrop, a, Routine.eq_of_pop hpop⟩)
  | jump hjump => rcases hjump with hjump | hjump <;> rw [hjump] at happly <;> cases happly
  | copy hcopy => exact absurd (by simp [hcopy]) hop
  | dupTop hdup => exact absurd (by simp [hdup]) hop
  | returns hreturn => exact absurd (by simp [hreturn]) hop

/-- What a walk over a range recovers spells a condition, and in structured code the machine computes
the value of that condition on the range. -/
theorem walk_computes {code : List Instruction} (hcode : ∀ ins ∈ code, ins.Connects)
    (hoffsets : code.Pairwise (·.offset < ·.offset)) {start stop i : Nat} (xs : List (Entry ν))
    {text : String}
    (h : (Routine.ofCode code).walk ⟨start, stop, i, xs.map (·.text)⟩ = .ok text) :
    ∃ x : Entry ν, x.text = text ∧ (Structured code → Position code stop i →
      i ≤ stop ∨ xs = [] → Computes code stop i xs x) := by
  have hnoop : ∀ ins ∈ code, ins.opcode.isNoop = false := fun ins hins =>
    (hcode ins hins).isNoop_eq_false
  have hr : (Routine.ofCode code).code = code := filter_isNoop hnoop
  -- Every step of a walk shortens what is left of its range.
  induction hn : stop - i using Nat.strong_induction_on generalizing start stop i xs text with
  | _ n ih =>
    subst hn
    cases Routine.walked_of_walk h with
    | done hi hstack =>
      obtain ⟨x, rfl, htext⟩ := List.map_eq_singleton_iff.1 hstack
      rw [hr] at hi
      exact ⟨x, htext, fun _ hp hle => computes_done hp (by simpa using hle) hi⟩
    | returned hi hins hop hstack =>
      obtain ⟨x, rfl, htext⟩ := List.map_eq_singleton_iff.1 hstack
      rw [hr] at hins
      exact ⟨x, htext, fun hs hp _ => computes_return hs hp hi hins hop⟩
    | @constant ins hi hins hop =>
      rw [hr] at hins
      have hconnects := hcode ins (List.mem_of_getElem? hins)
      cases hconnects <;> simp_all
    | @branch ins branch op left right rest target ahead hlength hi hins hcopy hbranch hop hstack
        hlanding hright hrest =>
      rw [hr] at hins hbranch
      obtain ⟨x, xs, rfl, rfl, rfl⟩ := List.map_eq_cons_iff.1 hstack
      have htarget := landing_ofCode hnoop hoffsets hlanding
      have hstart := (Routine.ofCode code).le_operandStart (i + 1)
      obtain ⟨y, rfl, hy⟩ := ih _ (by omega) [] hright rfl
      obtain ⟨z, hz, hcomputes⟩ := ih _ (by omega) (x.connected op y :: xs) hrest rfl
      refine ⟨z, hz, fun hs hp hle => ?_⟩
      have hjump : JumpsAt code (i + 1) target := ⟨branch, hbranch, by simp [hop], htarget⟩
      have hoperand := hy hs (hp.operand hins hcopy hjump _ hr) (.inr rfl)
      exact computes_branch hr hs hp hi hins hcopy hbranch hop htarget hoperand
        (hcomputes hs (hp.after hs hi hins hcopy hjump hoperand.fresh ahead) (.inl (by omega)))
    | @applied ins stack' hi hins hop happly hrest =>
      rw [hr] at hins
      have hconnects := hcode ins (List.mem_of_getElem? hins)
      rcases hconnects.apply_cases hop happly with ⟨hload, hname, rfl⟩ |
        ⟨hnot, a, rest, hstack, rfl⟩ | ⟨hdrop, a, hstack⟩
      · obtain ⟨z, hz, hcomputes⟩ := ih _ (by omega)
          (Entry.name ν ins.nameText hname :: xs) hrest rfl
        refine ⟨z, hz, fun hs hp _ => computes_load hins hload hname ?_⟩
        exact hcomputes hs (hp.succ hins (by simp [hload]) (by simp [hload, Opcode.branch?]))
          (.inl (by omega))
      · obtain ⟨x, xs, rfl, rfl, rfl⟩ := List.map_eq_cons_iff.1 hstack
        obtain ⟨z, hz, hcomputes⟩ := ih _ (by omega) (x.negated :: xs) hrest rfl
        refine ⟨z, hz, fun hs hp _ => computes_negate hins hnot ?_⟩
        exact hcomputes hs (hp.succ hins (by simp [hnot]) (by simp [hnot, Opcode.branch?]))
          (.inl (by omega))
      · obtain ⟨x, xs, rfl, rfl, rfl⟩ := List.map_eq_cons_iff.1 hstack
        obtain ⟨z, hz, hcomputes⟩ := ih _ (by omega) xs hrest rfl
        refine ⟨z, hz, fun hs hp _ => computes_drop hs hp hins hdrop ?_⟩
        exact hcomputes hs (hp.succ hins (by simp [hdrop]) (by simp [hdrop, Opcode.branch?]))
          (.inl (by omega))

end Ranges

/-! ## Whole traces -/

theorem exists_entry {t : Trace} {d : String} (ht : t.Connects) (h : t.text = .ok d) {V : Type}
    (ν : Valuation V) : ∃ x : Entry ν, x.text = d ∧
      (Structured t.code → ν.Returns t.code x.value) := by
  rw [Trace.text] at h
  split at h
  · have hnoop : ∀ ins ∈ t.code, ins.opcode.isNoop = false := fun ins hins =>
      (ht.code ins hins).isNoop_eq_false
    have hr : (Routine.ofCode t.code).code = t.code := filter_isNoop hnoop
    obtain ⟨x, hx, hcomputes⟩ := walk_computes (ν := ν) ht.code ht.offsets [] h
    refine ⟨x, hx, fun hs => ?_⟩
    rw [hr] at hcomputes
    obtain ⟨p, hreturns⟩ := hs.returns
    have hposition : Position t.code t.code.length 0 :=
      ⟨.inl rfl, ⟨p, Nat.zero_le _, hreturns⟩, by rintro - j u - ⟨⟩⟩
    refine (hcomputes hs hposition (.inr rfl)).ends [] [] x.value ⟨by simp, fun _ => rfl⟩ ?_
    exact fun stack hcovers => ⟨fun hlt => absurd hlt (Nat.lt_irrefl _), fun _ => hcovers.top x rfl⟩
  · cases h

/-- The text that is recovered from a trace of names, negations and short cuts always reads as a
condition. If the trace is structured, then under every valuation it returns the value of the
condition. -/
theorem text_returns {t : Trace} {d : String} (ht : t.Connects) (h : t.text = .ok d) :
    ∃ e, Expr.parse d = .ok e ∧ (Structured t.code → ∀ (V : Type) (ν : Valuation V),
      ∃ v, e.value? ν = some v ∧ ν.Returns t.code v) := by
  have hparse : ∀ {V : Type} {ν : Valuation V} (x : Entry ν), x.text = d →
      Expr.parse d = .ok x.expr := by
    rintro V ν x rfl
    exact (x.spelling.loosen (by decide)).parse
  obtain ⟨x, hx, -⟩ := exists_entry ht h ⟨fun _ => (), fun _ => true, fun _ => ()⟩
  refine ⟨x.expr, hparse x hx, fun hs V ν => ?_⟩
  obtain ⟨y, hy, hreturns⟩ := exists_entry ht h ν
  have hexpr : x.expr = y.expr := Except.ok.inj ((hparse x hx).symm.trans (hparse y hy))
  exact ⟨y.value, by rw [hexpr, y.has_value], hreturns hs⟩

/-- The code of `not (a and (b or not c))`. -/
def negatedConnectives : List Instruction :=
  [⟨.loadGlobal, 0, none, .str "a", ""⟩, ⟨.copy, 2, some 1, .null, ""⟩,
    ⟨.popJumpIfFalse, 4, none, .int 20, ""⟩, ⟨.popTop, 6, none, .null, ""⟩,
    ⟨.loadGlobal, 8, none, .str "b", ""⟩, ⟨.dupTop, 10, none, .null, ""⟩,
    ⟨.popJumpIfTrue, 12, none, .int 20, ""⟩, ⟨.popTop, 14, none, .null, ""⟩,
    ⟨.loadGlobal, 16, none, .str "c", ""⟩, ⟨.unaryNot, 18, none, .null, ""⟩,
    ⟨.unaryNot, 20, none, .null, ""⟩, ⟨.returnValue, 22, none, .null, ""⟩]

theorem text_returns_negated :
    Trace.Connects ⟨[], negatedConnectives⟩ ∧ Structured negatedConnectives ∧
    Trace.text ⟨[], negatedConnectives⟩ = .ok "(not (a and (b or (not c))))" ∧
    ∃ e, Expr.parse "(not (a and (b or (not c))))" = .ok e ∧ ∀ (V : Type) (ν : Valuation V),
      ∃ v, e.value? ν = some v ∧ ν.Returns negatedConnectives v := by
  have hname : ∀ c ∈ ['a', 'b', 'c'], IsName (String.singleton c) := by
    intro c hc
    refine ⟨⟨c, [], by simp, ?_, by simp⟩, ?_⟩ <;> revert c <;> decide
  have hconnects : Trace.Connects ⟨[], negatedConnectives⟩ := by
    refine ⟨?_, by simp [negatedConnectives]⟩
    simp only [negatedConnectives, List.forall_mem_cons, List.not_mem_nil, false_imp_iff,
      implies_true, and_true]
    exact ⟨.load rfl (hname 'a' (by simp)), .copy rfl rfl, .jump (.inl rfl), .drop rfl,
      .load rfl (hname 'b' (by simp)), .dupTop rfl, .jump (.inr rfl), .drop rfl,
      .load rfl (hname 'c' (by simp)), .negate rfl, .negate rfl, .returns rfl⟩
  have hs : Structured negatedConnectives := by decide
  have htext : Trace.text ⟨[], negatedConnectives⟩ = .ok "(not (a and (b or (not c))))" := by cbv
  obtain ⟨e, he, hreturns⟩ := text_returns hconnects htext
  exact ⟨hconnects, hs, htext, e, he, hreturns hs⟩

-- A jump over a return that leads elsewhere: the negation behind it applies to the first operand
-- only, but the text has it around both.
example :
    let code := [⟨.loadGlobal, 0, none, .str "a", ""⟩, ⟨.copy, 2, some 1, .null, ""⟩,
      ⟨.popJumpIfFalse, 4, none, .int 12, ""⟩, ⟨.popTop, 6, none, .null, ""⟩,
      ⟨.loadGlobal, 8, none, .str "b", ""⟩, ⟨.returnValue, 10, none, .null, ""⟩,
      ⟨.unaryNot, 12, none, .null, ""⟩, ⟨.returnValue, 14, none, .null, ""⟩]
    ¬ Structured code ∧ Trace.text ⟨[], code⟩ = .ok "(not (a and b))" ∧
      Valuation.run ⟨fun _ => true, id, id⟩ code 6 ⟨0, []⟩ = some true :=
  ⟨by decide, by cbv, by decide⟩

end DocQuery
