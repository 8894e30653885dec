import DocQuery.Proofs.StackTexts
import DocQuery.Proofs.ControlFlow

/-! # Code without jumps

Code without jumps can be run on trees instead of texts, and the text that is recovered from it is
read back as the tree that the run leaves. Numbers are the exception. The text of a constant is the
bare number, which is torn apart where it takes part in something that binds tighter than a sign or
continues a number: a power, a call, a subscript or an attribute.

* `Instruction.build`, `Trace.tree?`: the run of code on trees.
* `Instruction.IsPlain`, `Trace.IsStraight`: the code that is looked at.
* `Expr.isGrouped`: no bare number takes part in something tighter.
* `parse_text_of_isStraight`: the text is read back as the tree.
-/

set_option autoImplicit false

namespace DocQuery

open Token

/-! ## Running code on trees -/

/-- The literal that a constant is: nothing, a truth value, an integer of 64 bits with a sign or a
text. -/
def Json.literal? : Json → Option Literal
  | .null => some .none
  | .bool b => some (.bool b)
  | .int n => if -Width.signed64 ≤ n ∧ n < Width.signed64 then some (.int n) else none
  | .str s => some (.str s)
  | _ => none

/-- An integer as it is written: a sign is an operator. -/
def Expr.ofInt (n : Int) : Expr :=
  if n < 0 then .unary .neg (.literal (.int (-n))) else .literal (.int n)

/-- The tree of a constant, where `number` is the tree of an integer. -/
def Literal.tree (number : Int → Expr) : Literal → Expr
  | .int n => number n
  | l => .literal l

namespace Instruction

/-- The effect of an instruction on a stack of trees, where `number` is the tree of an integer. -/
def build (number : Int → Expr) (ins : Instruction) (stack : List Expr) : Option (List Expr) :=
  match ins.opcode with
  | .loadConst => ins.operand.literal?.map fun l => l.tree number :: stack
  | .loadFast | .loadGlobal | .loadName | .loadDeref => some (.name ins.nameText :: stack)
  | .loadAttr => one (.attr · ins.nameText) stack
  | .unaryNot => one (.unary .not) stack
  | .unaryNegative => one (.unary .neg) stack
  | .unaryPositive => one (.unary .pos) stack
  | .unaryInvert => one (.unary .invert) stack
  | .binaryOp =>
    (BinaryOp.ofSymbol? (String.ofList (Text.trim ins.text.toList))).bind fun op =>
      two (.binary · op) stack
  | .compareOp => (CmpOp.ofSymbol? ins.comparisonText).bind fun op => two (compared op) stack
  | .isOp => two (compared (if ins.isInverted then .notSame else .same)) stack
  | .containsOp => two (compared (if ins.isInverted then .notElemOf else .elemOf)) stack
  | .binarySubscr => two .subscript stack
  | .call =>
    match stack.drop ins.count with
    | callee :: rest => some (.call callee (stack.take ins.count).reverse [] :: rest)
    | [] => none
  | .buildList => several .list stack
  | .buildTuple => several .tuple stack
  | _ => none
where
  /-- Makes one tree of the top of the stack. -/
  one (f : Expr → Expr) : List Expr → Option (List Expr)
    | e :: rest => some (f e :: rest)
    | [] => none
  /-- Makes one tree of the two on top of the stack. -/
  two (f : Expr → Expr → Expr) : List Expr → Option (List Expr)
    | right :: left :: rest => some (f left right :: rest)
    | _ => none
  /-- Makes one tree of as many as the instruction counts, the deepest one first. -/
  several (f : List Expr → Expr) (stack : List Expr) : Option (List Expr) :=
    if ins.count ≤ stack.length then
      some (f (stack.take ins.count).reverse :: stack.drop ins.count)
    else none
  /-- A single comparison. -/
  compared (op : CmpOp) (left right : Expr) : Expr := .compare left [op] [right]

/-- The instruction loads a constant, a name or an attribute, or makes one value of some. -/
inductive IsPlain (ins : Instruction) : Prop
  | constant (hop : ins.opcode = .loadConst) (h : ins.operand.literal?.isSome = true)
  | load (hop : ins.opcode ∈ [Opcode.loadFast, .loadGlobal, .loadName, .loadDeref])
      (h : IsIdentifier ins.nameText.toList)
  | member (hop : ins.opcode = .loadAttr) (h : IsName ins.nameText)
  | unary (hop : ins.opcode ∈ [Opcode.unaryNot, .unaryNegative, .unaryPositive, .unaryInvert])
  | binary (hop : ins.opcode ∈ [Opcode.binaryOp, .compareOp, .isOp, .containsOp, .binarySubscr])
  | several (hop : ins.opcode ∈ [Opcode.call, .buildList, .buildTuple])

end Instruction

/-- The code consists of such instructions and a return at its end. -/
structure Trace.IsStraight (t : Trace) : Prop where
  returns : t.code.getLast?.map (·.opcode) = some .returnValue
  plain : ∀ ins ∈ t.code.dropLast, ins.IsPlain

/-- The tree that the code in front of the return leaves. -/
def Trace.tree? (number : Int → Expr) (t : Trace) : Option Expr :=
  match t.code.dropLast.foldlM (fun stack ins => ins.build number stack) [] with
  | some [e] => some e
  | _ => none

namespace Expr

/-- Whether an expression is a number below zero. -/
def isNegative : Expr → Bool
  | literal (.int n) => n < 0
  | _ => false

def isInteger : Expr → Bool
  | literal (.int _) => true
  | _ => false

/-- Whether the text of an expression keeps its operands together. A number has a magnitude of its
own, and a name is not reserved. -/
def isGrouped : Expr → Bool
  | attr value _ => !value.isInteger
  | binary left op _ => op ≠ .pow || !left.isNegative
  | call callee _ _ => !callee.isNegative
  | subscript value _ => !value.isNegative
  | literal (.int n) => n ≠ -Width.signed64
  | name id => !reserved.contains id
  | _ => true

/-- All operands in the expression are kept together. -/
def Grouped (e : Expr) : Prop := ∀ x, Inside x e → x.isGrouped = true

theorem isNegative_eq_false {e : Expr} (h : e.isInteger = false) : e.isNegative = false := by
  cases e with
  | literal l =>
    cases l with
    | int n => cases h
    | _ => rfl
  | _ => rfl

theorem ne_int {e : Expr} (h : e.isInteger = false) (n : Int) : e ≠ literal (.int n) := by
  rintro rfl
  cases h

theorem Grouped.self {e : Expr} (h : e.Grouped) : e.isGrouped = true := h e .self

theorem Grouped.of_parts {e : Expr} (h : e.isGrouped = true) (hparts : ∀ p ∈ e.parts, p.Grouped) :
    e.Grouped := by
  rintro x (_ | ⟨hp, hx⟩)
  · exact h
  · exact hparts _ hp x hx

theorem Grouped.part {e p : Expr} (h : e.Grouped) (hp : p ∈ e.parts) : p.Grouped :=
  fun x hx => h x (.part hp hx)

end Expr

/-! ## Constants -/

theorem constantText_of_literal {j : Json} {l : Literal} (h : j.literal? = some l) :
    j.constantText = .ok l.render := by
  cases j with
  | null => cases h; rfl
  | bool b => cases h; rfl
  | int n =>
    rw [Json.literal?] at h
    split at h
    · rename_i hn
      cases h
      rw [Json.constantText, if_pos hn.2]
    · cases h
  | str s => cases h; rfl
  | _ => cases h

theorem bounds_of_literal {j : Json} {n : Int} (h : j.literal? = some (.int n)) :
    -Width.signed64 ≤ n ∧ n < Width.signed64 := by
  cases j with
  | int k =>
    rw [Json.literal?] at h
    split at h
    · cases h
      assumption
    · cases h
  | _ => cases h

/-- A number below zero is written with its sign in front of its magnitude. -/
theorem spelling_negative {n : Int} (hn : n < 0) (hsmall : -Width.signed64 < n) :
    Spelling .signed (.unary .neg (.literal (.int (-n)))) (Literal.int n).render.toList := by
  obtain ⟨m, rfl⟩ := Int.eq_negSucc_of_lt_zero hn
  have htext : (Literal.int (.negSucc m)).render.toList =
      UnaryOp.neg.mark.toList ++ Nat.toDigits 10 (m + 1) := by
    have hsign : (Literal.int (.negSucc m)).render =
        UnaryOp.neg.mark ++ toString ((m + 1 : Nat) : Int) :=
      rfl
    rw [hsign, String.toList_append, toString_natCast]
  have hmagnitude : -Int.negSucc m = ((m + 1 : Nat) : Int) := rfl
  rw [htext, hmagnitude]
  refine .sign .neg (by decide) ((Spelling.int (m + 1) ?_).loosen (by decide))
  omega

/-- Every other constant is written as the literal is. -/
theorem spelling_constant {j : Json} {l : Literal} (h : j.literal? = some l)
    (hl : (Expr.literal l).isNegative = false) :
    Spelling .primary (.literal l) l.render.toList := by
  cases j with
  | null => cases h; exact (Parsed.constant .none (by simp)).spelled
  | bool b => cases h; exact (Parsed.constant (.bool b) (by simp)).spelled
  | int n =>
    rw [Json.literal?] at h
    split at h
    · rename_i hn
      cases h
      obtain ⟨m, rfl⟩ := Int.eq_ofNat_of_zero_le (by simpa [Expr.isNegative] using hl)
      exact (Parsed.constant (.int m (by exact_mod_cast hn.2)) (by simp)).spelled
    · cases h
  | str s => cases h; exact (Parsed.constant (.str s) (by simp)).spelled
  | _ => cases h

/-! ## Values on the stack -/

/-- What an instruction leaves on the stack: a text, the tree with numbers as they are loaded, and
the tree with signs as operators, which the text writes if operands are kept together. -/
structure Slot where
  text : String
  loaded : Expr
  tree : Expr
  isInteger : tree.isInteger = true → loaded.isInteger = true
  spelling : loaded.Grouped →
    Spelling (if loaded.isNegative then .signed else .primary) tree text.toList

namespace Slot

variable (x y : Slot)

theorem signed (h : x.loaded.Grouped) : Spelling .signed x.tree x.text.toList := by
  have hspell := x.spelling h
  split at hspell
  · exact hspell
  · exact hspell.loosen (by decide)

theorem primary (h : x.loaded.Grouped) (hx : x.loaded.isNegative = false) :
    Spelling .primary x.tree x.text.toList := by
  have hspell := x.spelling h
  rwa [hx, if_neg (by decide)] at hspell

theorem expression (h : x.loaded.Grouped) : Spelling .expression x.tree x.text.toList :=
  (x.signed h).loosen (by decide)

/-- A slot of a tree that is no number. -/
def compound (text : String) (loaded tree : Expr) (hloaded : loaded.isNegative = false)
    (htree : tree.isInteger = false)
    (h : loaded.Grouped → Spelling .primary tree text.toList) : Slot where
  text := text
  loaded := loaded
  tree := tree
  isInteger hint := by simp [htree] at hint
  spelling hgrouped := by
    rw [hloaded, if_neg (by decide)]
    exact h hgrouped

def constant {j : Json} {l : Literal} (h : j.literal? = some l) : Slot where
  text := l.render
  loaded := .literal l
  tree := l.tree Expr.ofInt
  isInteger h := by
    cases l with
    | int n => rfl
    | _ => cases h
  spelling hgrouped := by
    cases l with
    | int n =>
      rw [Literal.tree, Expr.ofInt]
      by_cases hn : n < 0
      · have hbounds := bounds_of_literal h
        have hmagnitude : n ≠ -Width.signed64 := by simpa [Expr.isGrouped] using hgrouped.self
        rw [if_pos hn, if_pos (by simpa [Expr.isNegative] using hn)]
        exact spelling_negative hn (by omega)
      · have hnegative : (Expr.literal (.int n)).isNegative = false := by
          simpa [Expr.isNegative] using hn
        rw [if_neg hn, hnegative]
        exact spelling_constant h hnegative
    | _ => exact spelling_constant h rfl

def name (id : String) (h : IsIdentifier id.toList) : Slot :=
  compound id (.name id) (.name id) rfl rfl fun hgrouped =>
    .up (.name ⟨h, by simpa [Expr.isGrouped] using hgrouped.self⟩)

def attr (label : String) (h : IsName label) : Slot :=
  compound (x.text ++ "." ++ label) (.attr x.loaded label) (.attr x.tree label) rfl rfl
    fun hgrouped => by
      have hloaded : x.loaded.isInteger = false := by simpa [Expr.isGrouped] using hgrouped.self
      have htree : x.tree.isInteger = false := by
        rw [← Bool.not_eq_true] at hloaded ⊢
        exact mt x.isInteger hloaded
      have hx := x.primary (hgrouped.part List.mem_cons_self) (Expr.isNegative_eq_false hloaded)
      simpa using Spelling.attr hx h (hx.exists_nondigit (Expr.ne_int htree))

def unary (op : UnaryOp) : Slot :=
  compound ("(" ++ op.mark ++ x.text ++ ")") (.unary op x.loaded) (.unary op x.tree) rfl rfl
    fun hgrouped => by
      have hspell := x.signed (hgrouped.part List.mem_cons_self)
      simpa using Spelling.enclosed_unary op hspell

def binary (op : BinaryOp) : Slot :=
  compound ("(" ++ x.text ++ " " ++ op.symbol ++ " " ++ y.text ++ ")")
    (.binary x.loaded op y.loaded) (.binary x.tree op y.tree) rfl rfl fun hgrouped => by
      have hx := hgrouped.part (p := x.loaded) (by simp [Expr.parts])
      have hy := hgrouped.part (p := y.loaded) (by simp [Expr.parts])
      rw [toList_infixed]
      refine .enclosed_binary op (x.signed hx) (fun hop => x.primary hx ?_) (y.signed hy)
      simpa [Expr.isGrouped, hop] using hgrouped.self

def compare (op : CmpOp) : Slot :=
  compound ("(" ++ x.text ++ " " ++ op.symbol ++ " " ++ y.text ++ ")")
    (.compare x.loaded [op] [y.loaded]) (.compare x.tree [op] [y.tree]) rfl rfl fun hgrouped => by
      have hx := x.signed (hgrouped.part (by simp [Expr.parts]))
      have hy := y.signed (hgrouped.part (by simp [Expr.parts]))
      have hlinks : ∀ l ∈ [(op, y.tree, y.text.toList)], Spelling .signed l.2.1 l.2.2 := by
        simpa using hy
      rw [toList_infixed]
      simpa using Spelling.enclosed_compare (by simp) hx hlinks

def subscript : Slot :=
  compound (x.text ++ "[" ++ y.text ++ "]") (.subscript x.loaded y.loaded)
    (.subscript x.tree y.tree) rfl rfl fun hgrouped => by
      have hx := hgrouped.part (p := x.loaded) (by simp [Expr.parts])
      have hy := y.expression (hgrouped.part (by simp [Expr.parts]))
      exact spelling_subscriptText (x.primary hx (by simpa [Expr.isGrouped] using hgrouped.self)) hy

section Several

variable (xs : List Slot)

/-- The trees with the texts. -/
def written : List (Expr × String) := xs.map fun x => (x.tree, x.text)

theorem map_fst_written : (written xs).map Prod.fst = xs.map (·.tree) := by simp [written]

theorem map_snd_written : (written xs).map Prod.snd = xs.map (·.text) := by simp [written]

theorem spelling_written {xs : List Slot} (h : ∀ x ∈ xs, x.loaded.Grouped) :
    ∀ w ∈ written xs, Spelling .expression w.1 w.2.toList :=
  List.forall_mem_map.2 fun x hx => x.expression (h x hx)

def call : Slot :=
  compound (x.text ++ "(" ++ commaJoined (xs.map (·.text)) ++ ")")
    (.call x.loaded (xs.map (·.loaded)) []) (.call x.tree (xs.map (·.tree)) []) rfl rfl
    fun hgrouped => by
      have hx := hgrouped.part (p := x.loaded) List.mem_cons_self
      have hxs : ∀ y ∈ xs, y.loaded.Grouped := fun y hy =>
        hgrouped.part (by simpa [Expr.parts] using .inr ⟨y, hy, rfl⟩)
      have hcallee := x.primary hx (by simpa [Expr.isGrouped] using hgrouped.self)
      rw [← map_fst_written, ← map_snd_written]
      exact spelling_callText hcallee (spelling_written hxs)

def list : Slot :=
  compound ("[" ++ commaJoined (xs.map (·.text)) ++ "]") (.list (xs.map (·.loaded)))
    (.list (xs.map (·.tree))) rfl rfl fun hgrouped => by
      have hxs : ∀ y ∈ xs, y.loaded.Grouped := fun y hy =>
        hgrouped.part (by simpa [Expr.parts] using ⟨y, hy, rfl⟩)
      rw [← map_fst_written, ← map_snd_written]
      exact spelling_listText (spelling_written hxs)

def tuple : Slot :=
  compound (tupleText (xs.map (·.text))) (.tuple (xs.map (·.loaded))) (.tuple (xs.map (·.tree)))
    rfl rfl fun hgrouped => by
      have hxs : ∀ y ∈ xs, y.loaded.Grouped := fun y hy =>
        hgrouped.part (by simpa [Expr.parts] using ⟨y, hy, rfl⟩)
      rw [← map_fst_written, ← map_snd_written]
      exact spelling_tupleText (spelling_written hxs)

end Several

end Slot

/-! ## Runs -/

/-- The instruction leaves the stack `ys` on the stack `xs`, as a run on trees does. -/
structure Instruction.Steps (ins : Instruction) (xs ys : List Slot) : Prop where
  loaded : ins.build (.literal ∘ .int) (xs.map (·.loaded)) = some (ys.map (·.loaded))
  tree : ins.build Expr.ofInt (xs.map (·.tree)) = some (ys.map (·.tree))

theorem BinaryOp.symbol_of_ofSymbol {s : String} {op : BinaryOp}
    (h : BinaryOp.ofSymbol? s = some op) : op.symbol = s := by
  simpa using List.find?_some h

theorem CmpOp.symbol_of_ofSymbol {s : String} {op : CmpOp} (h : CmpOp.ofSymbol? s = some op) :
    op.symbol = s := by
  simpa using List.find?_some h

namespace Instruction

variable {ins : Instruction} {xs : List Slot} {stack : List String}

theorem exists_of_pop {a : String} {rest : List String}
    (h : ins.pop (xs.map (·.text)) = .ok (a, rest)) :
    ∃ x ys, xs = x :: ys ∧ a = x.text ∧ rest = ys.map (·.text) := by
  obtain ⟨x, ys, rfl, rfl, rfl⟩ := List.map_eq_cons_iff.1 (Routine.eq_of_pop h)
  exact ⟨x, ys, rfl, rfl, rfl⟩

theorem exists_of_popMany {n : Nat} {items rest : List String}
    (h : ins.popMany n (xs.map (·.text)) = .ok (items, rest)) :
    n ≤ xs.length ∧ items = (xs.take n).reverse.map (·.text) ∧
      rest = (xs.drop n).map (·.text) := by
  rw [popMany] at h
  split at h
  · cases h
  · rename_i hn
    cases h
    rw [List.length_map] at hn
    exact ⟨by omega, by simp [List.map_take], by simp [List.map_drop]⟩

theorem exists_of_unaryEffect {op : UnaryOp}
    (h : ins.unaryEffect op (xs.map (·.text)) = .ok stack) :
    ∃ x ys, xs = x :: ys ∧ stack = (x.unary op :: ys).map (·.text) := by
  obtain ⟨⟨a, rest⟩, hpop, h⟩ := bind_eq_ok h
  obtain ⟨x, ys, rfl, rfl, rfl⟩ := exists_of_pop hpop
  cases h
  exact ⟨x, ys, rfl, rfl⟩

theorem exists_of_binaryEffect {symbol : String}
    (h : ins.binaryEffect symbol (xs.map (·.text)) = .ok stack) :
    ∃ x y zs, xs = y :: x :: zs ∧
      stack = ("(" ++ x.text ++ " " ++ symbol ++ " " ++ y.text ++ ")") :: zs.map (·.text) := by
  obtain ⟨⟨b, rest⟩, hpop, h⟩ := bind_eq_ok h
  obtain ⟨y, ys, rfl, rfl, rfl⟩ := exists_of_pop hpop
  obtain ⟨⟨a, rest⟩, hpop, h⟩ := bind_eq_ok h
  obtain ⟨x, zs, rfl, rfl, rfl⟩ := exists_of_pop hpop
  cases h
  exact ⟨x, y, zs, rfl, rfl⟩

theorem steps_unary (hop : ins.opcode ∈ [Opcode.unaryNot, .unaryNegative, .unaryPositive, .unaryInvert])
    (happly : ins.apply (xs.map (·.text)) = .ok stack) :
    ∃ ys : List Slot, stack = ys.map (·.text) ∧ ins.Steps xs ys := by
  obtain ⟨op, heffect, hbuild⟩ : ∃ op, ins.unaryEffect op (xs.map (·.text)) = .ok stack ∧
      ∀ number e es, ins.build number (e :: es) = some (.unary op e :: es) := by
    simp only [List.mem_cons, List.not_mem_nil, or_false] at hop
    rw [apply.eq_def] at happly
    rcases hop with hop | hop | hop | hop <;> rw [hop] at happly <;>
      exact ⟨_, happly, fun number e es => by rw [build, hop]; rfl⟩
  obtain ⟨x, ys, rfl, rfl⟩ := exists_of_unaryEffect heffect
  exact ⟨x.unary op :: ys, rfl, hbuild _ _ _, hbuild _ _ _⟩

/-- An instruction that makes one text of two makes one tree of two. -/
theorem steps_two (join : Slot → Slot → Slot) (f : Expr → Expr → Expr)
    (hloaded : ∀ x y, (join x y).loaded = f x.loaded y.loaded)
    (htree : ∀ x y, (join x y).tree = f x.tree y.tree)
    (hstack : ∃ x y zs, xs = y :: x :: zs ∧ stack = (join x y).text :: zs.map (·.text))
    (hbuild : ∀ number left right es, ins.build number (right :: left :: es) =
      some (f left right :: es)) :
    ∃ ys : List Slot, stack = ys.map (·.text) ∧ ins.Steps xs ys := by
  obtain ⟨x, y, zs, rfl, rfl⟩ := hstack
  refine ⟨join x y :: zs, rfl, ?_, ?_⟩
  · simp [hbuild, hloaded]
  · simp [hbuild, htree]

theorem steps_binary
    (hop : ins.opcode ∈ [Opcode.binaryOp, .compareOp, .isOp, .containsOp, .binarySubscr])
    (happly : ins.apply (xs.map (·.text)) = .ok stack) :
    ∃ ys : List Slot, stack = ys.map (·.text) ∧ ins.Steps xs ys := by
  have hcompare : ∀ op : CmpOp, ins.binaryEffect op.symbol (xs.map (·.text)) = .ok stack →
      (∀ number left right es, ins.build number (right :: left :: es) =
        some (.compare left [op] [right] :: es)) →
      ∃ ys : List Slot, stack = ys.map (·.text) ∧ ins.Steps xs ys := fun op heffect hbuild =>
    steps_two (·.compare · op) (fun left right => .compare left [op] [right]) (fun _ _ => rfl)
      (fun _ _ => rfl) (exists_of_binaryEffect heffect) hbuild
  simp only [List.mem_cons, List.not_mem_nil, or_false] at hop
  rw [apply.eq_def] at happly
  rcases hop with hop | hop | hop | hop | hop
  · rw [hop] at happly
    dsimp only at happly
    split at happly
    · rename_i hsymbol
      obtain ⟨op, hsome⟩ := Option.isSome_iff_exists.1 hsymbol
      rw [← BinaryOp.symbol_of_ofSymbol hsome] at happly
      refine steps_two (·.binary · op) (.binary · op) (fun _ _ => rfl) (fun _ _ => rfl)
        (exists_of_binaryEffect happly) fun number left right es => ?_
      rw [build, hop]
      dsimp only
      rw [hsome]
      rfl
    · cases happly
  · rw [hop] at happly
    dsimp only at happly
    split at happly
    · rename_i hsymbol
      obtain ⟨op, hsome⟩ := Option.isSome_iff_exists.1 hsymbol
      rw [← CmpOp.symbol_of_ofSymbol hsome] at happly
      refine hcompare op happly fun number left right es => ?_
      rw [build, hop]
      dsimp only
      rw [hsome]
      rfl
    · cases happly
  · rw [hop] at happly
    refine hcompare (if ins.isInverted then .notSame else .same) ?_ fun number left right es => ?_
    · dsimp only at happly
      rw [← happly]
      split <;> rfl
    · rw [build, hop]
      rfl
  · rw [hop] at happly
    refine hcompare (if ins.isInverted then .notElemOf else .elemOf) ?_ fun number left right es => ?_
    · dsimp only at happly
      rw [← happly]
      split <;> rfl
    · rw [build, hop]
      rfl
  · rw [hop] at happly
    refine steps_two (·.subscript ·) .subscript (fun _ _ => rfl) (fun _ _ => rfl) ?_
      fun number left right es => by rw [build, hop]; rfl
    obtain ⟨⟨b, rest⟩, hpop, happly⟩ := bind_eq_ok happly
    obtain ⟨y, ys, rfl, rfl, rfl⟩ := exists_of_pop hpop
    obtain ⟨⟨a, rest⟩, hpop, happly⟩ := bind_eq_ok happly
    obtain ⟨x, zs, rfl, rfl, rfl⟩ := exists_of_pop hpop
    cases happly
    exact ⟨x, y, zs, rfl, rfl⟩

theorem steps_gathered (join : List Slot → Slot) (f : List Expr → Expr)
    (hloaded : ∀ ys, (join ys).loaded = f (ys.map (·.loaded)))
    (htree : ∀ ys, (join ys).tree = f (ys.map (·.tree))) (hcount : ins.count ≤ xs.length)
    (hbuild : ∀ number es, ins.build number es = build.several ins f es) :
    ins.Steps xs (join (xs.take ins.count).reverse :: xs.drop ins.count) where
  loaded := by
    rw [hbuild, build.several, if_pos (by simpa using hcount)]
    simp [hloaded, List.map_drop, List.map_take]
  tree := by
    rw [hbuild, build.several, if_pos (by simpa using hcount)]
    simp [htree, List.map_drop, List.map_take]

theorem steps_several (hop : ins.opcode ∈ [Opcode.call, .buildList, .buildTuple])
    (happly : ins.apply (xs.map (·.text)) = .ok stack) :
    ∃ ys : List Slot, stack = ys.map (·.text) ∧ ins.Steps xs ys := by
  simp only [List.mem_cons, List.not_mem_nil, or_false] at hop
  rw [apply.eq_def] at happly
  rcases hop with hop | hop | hop
  · rw [hop] at happly
    obtain ⟨⟨items, rest⟩, hpop, happly⟩ := bind_eq_ok happly
    obtain ⟨hcount, rfl, rfl⟩ := exists_of_popMany hpop
    obtain ⟨⟨a, rest⟩, hpop, happly⟩ := bind_eq_ok happly
    obtain ⟨x, ys, hdrop, rfl, rfl⟩ := exists_of_pop hpop
    cases happly
    refine ⟨x.call (xs.take ins.count).reverse :: ys, rfl, ?_, ?_⟩
    · rw [build, hop]
      dsimp only
      rw [← List.map_drop, hdrop, ← List.map_take, ← List.map_reverse]
      rfl
    · rw [build, hop]
      dsimp only
      rw [← List.map_drop, hdrop, ← List.map_take, ← List.map_reverse]
      rfl
  · rw [hop] at happly
    obtain ⟨⟨items, rest⟩, hpop, happly⟩ := bind_eq_ok happly
    obtain ⟨hcount, rfl, rfl⟩ := exists_of_popMany hpop
    cases happly
    refine ⟨_, rfl, steps_gathered .list .list (fun _ => rfl) (fun _ => rfl) hcount
      fun number es => ?_⟩
    rw [build, hop]
  · rw [hop] at happly
    obtain ⟨⟨items, rest⟩, hpop, happly⟩ := bind_eq_ok happly
    obtain ⟨hcount, rfl, rfl⟩ := exists_of_popMany hpop
    cases happly
    refine ⟨_, rfl, steps_gathered .tuple .tuple (fun _ => rfl) (fun _ => rfl) hcount
      fun number es => ?_⟩
    rw [build, hop]

/-- Every plain instruction that has an effect on the texts has one on the trees. -/
theorem IsPlain.exists_steps (h : ins.IsPlain) (happly : ins.apply (xs.map (·.text)) = .ok stack) :
    ∃ ys : List Slot, stack = ys.map (·.text) ∧ ins.Steps xs ys := by
  cases h with
  | constant hop h =>
    obtain ⟨l, hl⟩ := Option.isSome_iff_exists.1 h
    rw [apply.eq_def, hop] at happly
    dsimp only at happly
    rw [constantText_of_literal hl] at happly
    cases happly
    refine ⟨.constant hl :: xs, rfl, ?_, ?_⟩
    · rw [build, hop]
      dsimp only
      rw [hl]
      cases l <;> rfl
    · rw [build, hop]
      dsimp only
      rw [hl]
      rfl
  | load hop h =>
    have hload : stack = ins.nameText :: xs.map (·.text) ∧
        ∀ number es, ins.build number es = some (.name ins.nameText :: es) := by
      simp only [List.mem_cons, List.not_mem_nil, or_false] at hop
      rw [apply.eq_def] at happly
      rcases hop with hop | hop | hop | hop <;> rw [hop] at happly <;> cases happly <;>
        exact ⟨rfl, fun number es => by rw [build, hop]⟩
    obtain ⟨rfl, hbuild⟩ := hload
    exact ⟨.name _ h :: xs, rfl, hbuild _ _, hbuild _ _⟩
  | member hop h =>
    rw [apply.eq_def, hop] at happly
    obtain ⟨⟨a, rest⟩, hpop, happly⟩ := bind_eq_ok happly
    obtain ⟨x, ys, rfl, rfl, rfl⟩ := exists_of_pop hpop
    cases happly
    refine ⟨x.attr _ h :: ys, rfl, ?_, ?_⟩ <;> rw [build, hop] <;> rfl
  | unary hop => exact steps_unary hop happly
  | binary hop => exact steps_binary hop happly
  | several hop => exact steps_several hop happly

theorem IsPlain.opcode_cases (h : ins.IsPlain) : ins.opcode.isNoop = false ∧
    ins.opcode ∉ [Opcode.returnValue, .returnConst, .copy, .dupTop] := by
  cases h <;> grind [Opcode.isNoop]

end Instruction

/-- A walk through code without jumps ends with what the run on trees leaves. -/
theorem exists_slot_of_walk {r : Routine} {ret : Instruction} (hret : ret.opcode = .returnValue)
    {done rest : List Instruction} (hcode : r.code = done ++ (rest ++ [ret]))
    (hplain : ∀ ins ∈ rest, ins.IsPlain) {xs : List Slot} {text : String}
    (h : r.walk ⟨0, r.code.length, done.length, xs.map (·.text)⟩ = .ok text) :
    ∃ x : Slot, x.text = text ∧
      rest.foldlM (fun stack ins => ins.build (.literal ∘ .int) stack) (xs.map (·.loaded)) =
        some [x.loaded] ∧
      rest.foldlM (fun stack ins => ins.build Expr.ofInt stack) (xs.map (·.tree)) =
        some [x.tree] := by
  -- The walk goes by the index in the whole code, so the code that is done is kept.
  induction rest generalizing done xs with
  | nil =>
    have hlt : done.length < r.code.length := by simp [hcode]
    rw [Routine.walk_return hlt (by simp [hcode]) hret] at h
    obtain ⟨x, rfl, hx⟩ := List.map_eq_singleton_iff.1 (Routine.eq_of_result h)
    exact ⟨x, hx, rfl, rfl⟩
  | cons ins rest ih =>
    have hins : r.code[done.length]? = some ins := by simp [hcode]
    have hlt : done.length < r.code.length := by simp [hcode]
    have hopcode := ((hplain ins List.mem_cons_self).opcode_cases).2
    have hsame : ∀ {ins' : Instruction}, r.code[done.length]? = some ins' → ins' = ins :=
      fun h' => Option.some.inj (h'.symm.trans hins)
    cases Routine.walked_of_walk h with
    | done hi => omega
    | returned _ hins' hop => exact absurd (by simp [← hsame hins', hop]) hopcode
    | constant _ hins' hop => exact absurd (by simp [← hsame hins', hop]) hopcode
    | branch _ _ _ hins' hcopy =>
      refine absurd ?_ hopcode
      rcases hcopy with hop | hop <;> simp [← hsame hins', hop]
    | applied _ hins' _ happly hrest =>
      rw [hsame hins'] at happly
      obtain ⟨ys, rfl, hloaded, htree⟩ := (hplain ins List.mem_cons_self).exists_steps happly
      have hstep : (done ++ [ins]).length = done.length + 1 := List.length_append
      rw [← hstep] at hrest
      obtain ⟨x, hx, hxloaded, hxtree⟩ := ih (by simpa using hcode)
        (fun ins h => hplain ins (List.mem_cons_of_mem _ h)) hrest
      refine ⟨x, hx, ?_, ?_⟩
      · rw [List.foldlM_cons, hloaded]
        exact hxloaded
      · rw [List.foldlM_cons, htree]
        exact hxtree

/-- The text that is recovered from code without jumps is read back as the tree that the code leaves,
if no number takes part in something tighter than a sign. -/
theorem parse_text_of_isStraight {t : Trace} (ht : t.IsStraight) {d : String}
    (h : t.text = .ok d) : ∃ loaded tree, t.tree? (.literal ∘ .int) = some loaded ∧
      t.tree? Expr.ofInt = some tree ∧ (loaded.Grouped → Expr.parse d = .ok tree) := by
  obtain ⟨ret, hlast, hret⟩ := Option.map_eq_some_iff.1 ht.returns
  have hcode : t.code = t.code.dropLast ++ [ret] := (List.dropLast_append_getLast? ret hlast).symm
  have hnoop : ∀ ins ∈ t.code, ins.opcode.isNoop = false := by
    rw [hcode]
    intro ins hins
    rcases List.mem_append.1 hins with hins | hins
    · exact (ht.plain ins hins).opcode_cases.1
    · rw [List.mem_singleton.1 hins, hret]
      rfl
  rw [Trace.text] at h
  split at h
  · have hr : (Routine.ofCode t.code).code = [] ++ (t.code.dropLast ++ [ret]) :=
      (filter_isNoop hnoop).trans hcode
    replace h : (Routine.ofCode t.code).walk ⟨0, (Routine.ofCode t.code).code.length, 0,
        ([] : List Slot).map (·.text)⟩ = .ok d := h
    obtain ⟨x, rfl, hloaded, htree⟩ := exists_slot_of_walk hret hr ht.plain h
    rw [List.map_nil] at hloaded htree
    refine ⟨x.loaded, x.tree, ?_, ?_, fun hgrouped => (x.expression hgrouped).parse⟩
    · rw [Trace.tree?, hloaded]
    · rw [Trace.tree?, htree]
  · cases h

/-- The code of `(x.y ** -5) < f('a', [-1])`. -/
def signedConstants : List Instruction :=
  [⟨.loadName, 0, none, .str "x", ""⟩, ⟨.loadAttr, 2, none, .str "y", ""⟩,
    ⟨.loadConst, 4, none, .int (-5), ""⟩, ⟨.binaryOp, 6, none, .null, "**"⟩,
    ⟨.loadGlobal, 8, none, .str "f", ""⟩, ⟨.loadConst, 10, none, .str "a", ""⟩,
    ⟨.loadConst, 12, none, .int (-1), ""⟩, ⟨.buildList, 14, some 1, .null, ""⟩,
    ⟨.call, 16, some 2, .null, ""⟩, ⟨.compareOp, 18, none, .str "<", ""⟩,
    ⟨.returnValue, 20, none, .null, ""⟩]

theorem parse_text_of_isStraight_signed : Trace.IsStraight ⟨[], signedConstants⟩ ∧
    Trace.text ⟨[], signedConstants⟩ = .ok "((x.y ** -5) < f('a', [-1]))" ∧
    ∃ loaded tree, Trace.tree? (.literal ∘ .int) ⟨[], signedConstants⟩ = some loaded ∧
      Trace.tree? Expr.ofInt ⟨[], signedConstants⟩ = some tree ∧ loaded.Grouped ∧
      Expr.parse "((x.y ** -5) < f('a', [-1]))" = .ok tree := by
  have hname : ∀ c : Char, isIdentStart c = true → IsIdentifier (String.singleton c).toList :=
    fun c hc => ⟨c, [], by simp, hc, by simp⟩
  have hplain : ∀ ins ∈ signedConstants.dropLast, ins.IsPlain := by
    simp only [signedConstants, List.dropLast, List.forall_mem_cons, List.not_mem_nil,
      false_imp_iff, implies_true, and_true]
    exact ⟨.load (by decide) (hname 'x' (by decide)), .member rfl ⟨hname 'y' (by decide), by decide⟩,
      .constant rfl rfl, .binary (by decide), .load (by decide) (hname 'f' (by decide)),
      .constant rfl rfl, .constant rfl rfl, .several (by decide), .several (by decide),
      .binary (by decide)⟩
  have htext : Trace.text ⟨[], signedConstants⟩ = .ok "((x.y ** -5) < f('a', [-1]))" := by cbv
  have ht : Trace.IsStraight ⟨[], signedConstants⟩ := ⟨rfl, hplain⟩
  obtain ⟨loaded, tree, hloaded, htree, hparse⟩ := parse_text_of_isStraight ht htext
  have hleaf : ∀ e : Expr, e.parts = [] → e.isGrouped = true → e.Grouped := fun e hparts h =>
    .of_parts h (by simp [hparts])
  let power : Expr := .binary (.attr (.name "x") "y") .pow (.literal (.int (-5)))
  let items : Expr := .list [.literal (.int (-1))]
  let call : Expr := .call (.name "f") [.literal (.str "a"), items] []
  have hpower : power.Grouped := by
    have hattr : (Expr.attr (.name "x") "y").Grouped :=
      .of_parts rfl (by simpa [Expr.parts] using hleaf (.name "x") rfl (by decide))
    exact .of_parts rfl (by simpa [power, Expr.parts] using ⟨hattr, hleaf _ rfl (by decide)⟩)
  have hcall : call.Grouped := by
    have hitems : items.Grouped :=
      .of_parts rfl (by simpa [items, Expr.parts] using hleaf _ rfl (by decide))
    refine .of_parts rfl ?_
    simpa [call, Expr.parts] using ⟨hleaf (.name "f") rfl (by decide), hleaf _ rfl rfl, hitems⟩
  have hwhole : (Expr.compare power [.lt] [call]).Grouped :=
    .of_parts rfl (by simpa [Expr.parts] using ⟨hpower, hcall⟩)
  have hgrouped : loaded.Grouped := by
    cases hloaded
    exact hwhole
  exact ⟨ht, htext, loaded, tree, hloaded, htree, hgrouped, hparse hgrouped⟩

-- The sign of the constant is read as the sign of the power.
example :
    let code := [⟨.loadConst, 0, none, .int (-5), ""⟩, ⟨.loadConst, 2, none, .int 2, ""⟩,
      ⟨.binaryOp, 4, none, .null, "**"⟩, ⟨.returnValue, 6, none, .null, ""⟩]
    Trace.text ⟨[], code⟩ = .ok "(-5 ** 2)" ∧ Expr.parse "(-5 ** 2)" =
      .ok (.unary .neg (.binary (.literal (.int 5)) .pow (.literal (.int 2)))) :=
  ⟨by cbv, by cbv⟩

end DocQuery
