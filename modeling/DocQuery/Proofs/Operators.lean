import DocQuery.Proofs.Words
import DocQuery.Sql.Fragment

/-! # How SQL groups operators

An SQL expression is read from left to right. A stack keeps what is open: the parentheses, and the
operators that wait for an operand. An operator behind an operand completes those in front of it that
bind at least as tightly, and waits for its own right operand.

* `Tree`: the tree of an expression. The words that divide clauses are operators that bind loosely.
* `Reader.run`, `tree?`: the tree of a text.
* `Parses level text t`: wherever an operand is expected, the text is one, with the tree `t`; what is
  open behind it binds at least as tightly as `level`.
* `Parses.ofTemplate`: a text made of fixed words and operands is read by running over the words.
-/

set_option autoImplicit false

namespace DocQuery.Sql

/-! ## Trees -/

/-- The words between the parts of a clause. -/
inductive ClauseWord where
  /-- `FROM` -/
  | source
  /-- `AS` -/
  | named
  /-- `WHERE` -/
  | filtered
  /-- `THEN` -/
  | yields
  /-- `ELSE` -/
  | otherwise
deriving DecidableEq, Repr

/-- Operators in front of one operand. -/
inductive Unary where
  | sign (op : UnaryOp)
  /-- `SELECT` -/
  | select
  /-- `WHEN` -/
  | test
deriving DecidableEq, Repr

/-- Operators between two operands. -/
inductive Binary where
  | arithmetic (op : BinaryOp)
  | comparison (op : CmpOp)
  /-- `LIKE` -/
  | pattern (negated : Bool)
  | connective (op : BoolOp)
  | clause (word : ClauseWord)
  | comma
deriving DecidableEq, Repr

/-- How tightly an operator binds. -/
def Unary.level : Unary → Nat
  | sign .not => 4
  | sign _ => 10
  | _ => 1

/-- How tightly an operator binds. Those of one level are grouped from the left. -/
def Binary.level : Binary → Nat
  | arithmetic .mul | arithmetic .div | arithmetic .mod => 9
  | arithmetic .add | arithmetic .sub => 8
  | arithmetic _ => 7
  | comparison .lt | comparison .ltEq | comparison .gt | comparison .gtEq => 6
  | comparison _ | pattern _ => 5
  | connective .and => 3
  | connective .or => 2
  | clause _ => 1
  | comma => 0

/-- The tree of an SQL expression. Parentheses leave no trace in it. -/
inductive Tree where
  | string (content : List Char)
  /-- A name or a number: words with dots between them. -/
  | words (ws : List (List Char))
  | call (function : List (List Char)) (arguments : Tree)
  /-- What stands between `CASE` and `END`. -/
  | choice (body : Tree)
  | unary (op : Unary) (t : Tree)
  | binary (op : Binary) (l r : Tree)
deriving DecidableEq, Repr

/-! ## Readers -/

/-- What is open: parentheses, those behind the name of a function, a `CASE`, or an operator that
waits for an operand. -/
inductive Frame where
  | group
  | call (function : List (List Char))
  | choice
  | unary (op : Unary)
  | binary (op : Binary) (left : Tree)
deriving DecidableEq, Repr

namespace Frame

/-- How tightly the operator of a frame binds. -/
def level? : Frame → Option Nat
  | unary op => some op.level
  | binary op _ => some op.level
  | _ => none

/-- The tree of an operator that gets its last operand. -/
def complete : Frame → Tree → Tree
  | unary op, t => .unary op t
  | binary op l, t => .binary op l t
  | _, t => t

/-- Whether an operand is expected right behind `IS`. -/
def isSame : Frame → Bool
  | binary (.comparison .same) _ => true
  | _ => false

/-- Opens an operator in front of an operand. A `NOT` right behind `IS` belongs to it. -/
def push (op : Unary) : List Frame → List Frame
  | binary (.comparison .same) l :: fs =>
    if op = .sign .not then binary (.comparison .notSame) l :: fs
    else unary op :: binary (.comparison .same) l :: fs
  | fs => unary op :: fs

/-- Completes the operators that bind at least as tightly as `level`. -/
def settle (level : Nat) : List Frame → Tree → Tree × List Frame
  | [], t => (t, [])
  | f :: fs, t => if f.level?.any (level ≤ ·) then settle level fs (f.complete t) else (t, f :: fs)

end Frame

/-- The first half of an operator behind an operand: `<`, `>`, `!` and `NOT`. -/
inductive Start where
  | less | greater | bang | negated
deriving DecidableEq, Repr

/-- What a reader expects. -/
inductive Stage where
  /-- An operand. -/
  | want
  /-- Something behind an operand. -/
  | got (t : Tree)
  /-- A word behind a dot. -/
  | dotted (ws : List (List Char))
  /-- The second half of an operator. -/
  | started (start : Start) (left : Tree)
deriving DecidableEq, Repr

/-- A reader of an expression. -/
structure Reader where
  stage : Stage
  frames : List Frame
deriving DecidableEq, Repr

/-- What a chunk does behind an operand. -/
inductive Action where
  | join (op : Binary)
  | start (s : Start)
  /-- Closes a parenthesis. -/
  | close
  /-- Closes a `CASE`. -/
  | finish
  | enter
  | dot
  | skip
deriving DecidableEq, Repr

/-- The operators that are completed behind an operand before anything else happens. -/
def Action.level : Action → Nat
  | join op => op.level
  | start .less | start .greater => 7
  | start _ => 5
  | close | finish => 0
  | _ => 11

/-- The keywords where an operand is expected; `CASE` is none of the operators. -/
def frontWords : List (String × Option Unary) :=
  [("NOT", some (.sign .not)), ("SELECT", some .select), ("WHEN", some .test), ("CASE", none)]

/-- The keywords behind an operand. -/
def backWords : List (String × Action) :=
  [("AND", .join (.connective .and)), ("OR", .join (.connective .or)),
    ("IN", .join (.comparison .elemOf)), ("LIKE", .join (.pattern false)),
    ("IS", .join (.comparison .same)),
    ("NOT", .start .negated), ("FROM", .join (.clause .source)), ("AS", .join (.clause .named)),
    ("WHERE", .join (.clause .filtered)), ("THEN", .join (.clause .yields)),
    ("ELSE", .join (.clause .otherwise)), ("END", .finish)]

/-- The words of operators that are not read here. -/
def otherWords : List String :=
  ["BETWEEN", "COLLATE", "ESCAPE", "GLOB", "ISNULL", "MATCH", "NOTNULL", "REGEXP"]

/-- The entry of a word in a table of keywords, in upper or lower case. -/
def lookup? {α : Type} (table : List (String × α)) (w : List Char) : Option α :=
  (table.find? (·.1.toList == w.map Char.toUpper)).map (·.2)

def isKeyword (w : List Char) : Bool :=
  (lookup? frontWords w).isSome || (lookup? backWords w).isSome ||
    otherWords.any (·.toList == w.map Char.toUpper)

/-- What a chunk does behind an operand. -/
def Chunk.action? : Chunk → Option Action
  | .string _ => none
  | .word w => lookup? backWords w
  | .mark ' ' => some .skip
  | .mark '.' => some .dot
  | .mark '(' => some .enter
  | .mark ')' => some .close
  | .mark ',' => some (.join .comma)
  | .mark '=' => some (.join (.comparison .eq))
  | .mark '<' => some (.start .less)
  | .mark '>' => some (.start .greater)
  | .mark '!' => some (.start .bang)
  | .mark '+' => some (.join (.arithmetic .add))
  | .mark '-' => some (.join (.arithmetic .sub))
  | .mark '*' => some (.join (.arithmetic .mul))
  | .mark '/' => some (.join (.arithmetic .div))
  | .mark '%' => some (.join (.arithmetic .mod))
  | .mark '|' => some (.join (.arithmetic .bitOr))
  | .mark '&' => some (.join (.arithmetic .bitAnd))
  | .mark _ => none

namespace Reader

/-- Goes on where an operand is expected. -/
def front (frames : List Frame) : Chunk → Option Reader
  | .string s => some ⟨.got (.string s), frames⟩
  | .word w =>
    match lookup? frontWords w with
    | some (some op) => some ⟨.want, Frame.push op frames⟩
    | some none => some ⟨.want, .choice :: frames⟩
    | none => if isKeyword w then none else some ⟨.got (.words [w]), frames⟩
  | .mark ' ' => some ⟨.want, frames⟩
  | .mark '(' => some ⟨.want, .group :: frames⟩
  | .mark '-' => some ⟨.want, .unary (.sign .neg) :: frames⟩
  | .mark '+' => some ⟨.want, .unary (.sign .pos) :: frames⟩
  | .mark '~' => some ⟨.want, .unary (.sign .invert) :: frames⟩
  | .mark _ => none

/-- Waits for the right operand of an operator. -/
def join (op : Binary) (t : Tree) (frames : List Frame) : Reader :=
  let (t, frames) := Frame.settle op.level frames t
  ⟨.want, .binary op t :: frames⟩

/-- Goes on behind an operand, when what binds tightly enough is completed. -/
def act (t : Tree) (frames : List Frame) : Action → Option Reader
  | .join op => some ⟨.want, .binary op t :: frames⟩
  | .start s => some ⟨.started s t, frames⟩
  | .close =>
    match frames with
    | .group :: frames => some ⟨.got t, frames⟩
    | .call f :: frames => some ⟨.got (.call f t), frames⟩
    | _ => none
  | .finish =>
    match frames with
    | .choice :: frames => some ⟨.got (.choice t), frames⟩
    | _ => none
  | .enter =>
    match t with
    | .words ws => some ⟨.want, .call ws :: frames⟩
    | _ => none
  | .dot =>
    match t with
    | .words ws => some ⟨.dotted ws, frames⟩
    | _ => none
  | .skip => some ⟨.got t, frames⟩

/-- Goes on behind an operand. -/
def back (t : Tree) (frames : List Frame) (x : Chunk) : Option Reader := do
  let a ← x.action?
  let (t, frames) := Frame.settle a.level frames t
  act t frames a

/-- The operator that starts and ends so. -/
def operator? : Start → Chunk → Option Binary
  | .less, .mark '=' => some (.comparison .ltEq)
  | .less, .mark '<' => some (.arithmetic .shiftLeft)
  | .greater, .mark '=' => some (.comparison .gtEq)
  | .greater, .mark '>' => some (.arithmetic .shiftRight)
  | .bang, .mark '=' => some (.comparison .notEq)
  | .negated, .word w =>
    match lookup? backWords w with
    | some (.join (.comparison .elemOf)) => some (.comparison .notElemOf)
    | some (.join (.pattern false)) => some (.pattern true)
    | _ => none
  | _, _ => none

/-- The operator that the first half is, if nothing else belongs to it. -/
def Start.alone? : Start → Option Binary
  | .less => some (.comparison .lt)
  | .greater => some (.comparison .gt)
  | _ => none

/-- Goes on behind the first half of an operator. Blanks may stand in front of a second word. -/
def second (s : Start) (t : Tree) (frames : List Frame) (x : Chunk) : Option Reader :=
  match operator? s x with
  | some op => some (join op t frames)
  | none =>
    if x = .mark ' ' ∧ s = .negated then some ⟨.started s t, frames⟩
    else do
      let op ← Start.alone? s
      front (join op t frames).frames x

/-- Goes on over a chunk. -/
def step (r : Reader) (x : Chunk) : Option Reader :=
  match r.stage with
  | .want => front r.frames x
  | .got t => back t r.frames x
  | .dotted ws =>
    match x with
    | .word w => some ⟨.got (.words (ws ++ [w])), r.frames⟩
    | _ => none
  | .started s t => second s t r.frames x

/-- Goes on over chunks. -/
def run : Reader → List Chunk → Option Reader
  | r, [] => some r
  | r, x :: xs => (r.step x).bind fun r' => run r' xs

/-- The tree that is read when nothing follows. -/
def finish? (r : Reader) : Option Tree :=
  match r.stage with
  | .got t =>
    match Frame.settle 0 r.frames t with
    | (t, []) => some t
    | _ => none
  | _ => none

theorem run_append (r : Reader) (xs ys : List Chunk) :
    r.run (xs ++ ys) = (r.run xs).bind fun r' => r'.run ys := by
  induction xs generalizing r with
  | nil => rfl
  | cons x xs ih =>
    rw [List.cons_append, run, run, Option.bind_assoc]
    exact Option.bind_congr fun r' _ => ih r'

end Reader

/-- The tree of a text. -/
def tree? (text : String) : Option Tree := do
  if (lexemes? text).isNone then none
  else (← Reader.run ⟨.want, []⟩ (chunksOf text)).finish?

/-! ## Operands -/

namespace Frame

variable {level : Nat} {gs : List Frame}

/-- The frames are operators that bind at least as tightly as `level`. -/
def Tight (level : Nat) (gs : List Frame) : Prop := ∀ g ∈ gs, g.level?.any (level ≤ ·) = true

/-- The tree when several operators get their last operands, from the innermost on. -/
def completeAll (gs : List Frame) (u : Tree) : Tree := gs.foldl (fun t g => g.complete t) u

theorem settle_append (h : Tight level gs) (frames : List Frame) (u : Tree) :
    settle level (gs ++ frames) u = settle level frames (completeAll gs u) := by
  induction gs generalizing u with
  | nil => rfl
  | cons g gs ih =>
    obtain ⟨hg, hgs⟩ := List.forall_mem_cons.1 h
    rw [List.cons_append, settle, if_pos hg, ih hgs]
    rfl

theorem Tight.mono {k : Nat} (h : Tight level gs) (hk : k ≤ level) : Tight k gs := by
  intro g hg
  have hlevel := h g hg
  cases hl : g.level? with
  | none => simp [hl] at hlevel
  | some l =>
    simp only [hl, Option.any_some, decide_eq_true_eq] at hlevel ⊢
    omega

/-- Whether an operand can stand here that starts with an operator as loose as `level`: right behind
`IS`, a `NOT` would be no operator of its own. -/
def admits (level : Nat) (frames : List Frame) : Bool := 4 < level || !frames.head?.any isSame

theorem admits_mono {k : Nat} {frames : List Frame} (h : admits k frames = true) (hk : k ≤ level) :
    admits level frames = true := by
  simp only [admits, Bool.or_eq_true, decide_eq_true_eq] at h ⊢
  exact h.imp_left fun h => by omega

theorem push_of_admits {frames : List Frame} (h : admits 4 frames = true) (op : Unary) :
    push op frames = unary op :: frames := by
  rw [push.eq_def]
  split
  · cases h
  · rfl

/-- Every operator binds less tightly than a dot. -/
theorem settle_loose (frames : List Frame) (t : Tree) : settle 11 frames t = (t, frames) := by
  cases frames with
  | nil => rfl
  | cons f fs =>
    have hloose : f.level?.any (11 ≤ ·) = false := by
      cases f with
      | unary op =>
        cases op with
        | sign op => cases op <;> rfl
        | _ => rfl
      | binary op l =>
        cases op with
        | arithmetic op => cases op <;> rfl
        | comparison op => cases op <;> rfl
        | connective op => cases op <;> rfl
        | _ => rfl
      | _ => rfl
    rw [settle, if_neg (by simp [hloose])]

end Frame

/-- Whether the chunks go on behind an operand so that whatever binds more tightly than `level` is
completed first. -/
def follows (level : Nat) (xs : List Chunk) : Bool :=
  (xs.find? (· != .mark ' ')).any fun x => x.action?.any (·.level ≤ level)

theorem step_blank (t : Tree) (frames : List Frame) :
    Reader.step ⟨.got t, frames⟩ (.mark ' ') = some ⟨.got t, frames⟩ := by
  change Reader.act (Frame.settle 11 frames t).1 (Frame.settle 11 frames t).2 .skip = _
  rw [Frame.settle_loose]
  rfl

theorem run_of_follows {level : Nat} {gs frames : List Frame} {u : Tree} {xs : List Chunk}
    (h : follows level xs = true) (hgs : Frame.Tight level gs) :
    Reader.run ⟨.got u, gs ++ frames⟩ xs =
      Reader.run ⟨.got (Frame.completeAll gs u), frames⟩ xs := by
  induction xs with
  | nil => cases h
  | cons x xs ih =>
    by_cases hx : x = .mark ' '
    · -- A blank completes nothing, so the open operators wait for the next chunk.
      subst hx
      rw [Reader.run, Reader.run, step_blank, step_blank]
      exact ih (by simpa [follows] using h)
    · have hfind : (x :: xs).find? (· != .mark ' ') = some x := List.find?_cons_of_pos (by simp [hx])
      rw [follows, hfind, Option.any_some] at h
      obtain ⟨a, ha, hlevel⟩ := Option.any_eq_true _ _ |>.1 h
      have hstep : Reader.step ⟨.got u, gs ++ frames⟩ x =
          Reader.step ⟨.got (Frame.completeAll gs u), frames⟩ x := by
        change Reader.back u (gs ++ frames) x = Reader.back _ frames x
        rw [Reader.back, Reader.back, ha]
        dsimp only [Option.bind_eq_bind, Option.bind_some]
        rw [Frame.settle_append (hgs.mono (by simpa using hlevel))]
      rw [Reader.run, Reader.run, hstep]

/-- Wherever an operand is expected, the text is one. Behind it, operators that bind at least as
tightly as `level` may be open, which make the tree `t`. -/
structure Parses (level : Nat) (text : String) (t : Tree) : Prop where
  whole : Whole text
  reads : ∃ u gs, Frame.Tight level gs ∧ Frame.completeAll gs u = t ∧
    ∀ frames, Frame.admits level frames = true →
      Reader.run ⟨.want, frames⟩ (chunksOf text) = some ⟨.got u, gs ++ frames⟩

section Parses

variable {level : Nat} {text : String} {t : Tree}

theorem Parses.mono {k : Nat} (h : Parses level text t) (hk : k ≤ level) : Parses k text t := by
  obtain ⟨u, gs, hgs, hu, hrun⟩ := h.reads
  exact ⟨h.whole, u, gs, hgs.mono hk, hu, fun frames hf => hrun frames (Frame.admits_mono hf hk)⟩

theorem Parses.tree (h : Parses level text t) : tree? text = some t := by
  obtain ⟨u, gs, hgs, rfl, hrun⟩ := h.reads
  have hsettle := Frame.settle_append (hgs.mono (Nat.zero_le _)) [] u
  have hsome : ¬ (lexemes? text).isNone = true := by
    rw [Bool.not_eq_true, ← Option.not_isSome, h.whole.lexemes]
    rfl
  rw [tree?, if_neg hsome, hrun [] (by simp [Frame.admits])]
  change Reader.finish? ⟨.got u, gs ++ []⟩ = _
  rw [Reader.finish?]
  dsimp only
  rw [hsettle]
  rfl

/-- An operand that leaves nothing open. -/
theorem Parses.of_run (hwhole : Whole text)
    (h : ∀ frames, Reader.run ⟨.want, frames⟩ (chunksOf text) = some ⟨.got t, frames⟩) :
    Parses level text t :=
  ⟨hwhole, t, [], by simp [Frame.Tight], rfl, fun frames _ => h frames⟩

end Parses

/-! ## Templates -/

/-- An operand in a template. -/
structure Hole where
  text : String
  level : Nat
  tree : Tree

/-- The operand is read as its tree. -/
def Hole.Parses (h : Hole) : Prop := Sql.Parses h.level h.text h.tree

/-- Operands, each with the fixed word behind it. -/
abbrev Template := List (Hole × String)

namespace Template

def parts : Template → List Part
  | [] => []
  | (h, w) :: hs => .hole h.text :: .word w :: parts hs

theorem mem_parts {hs : Template} {x : String} (h : .hole x ∈ hs.parts) : ∃ p ∈ hs, p.1.text = x := by
  induction hs with
  | nil => cases h
  | cons p hs ih =>
    simp only [parts, List.mem_cons, Part.hole.injEq, reduceCtorEq, false_or] at h
    obtain rfl | h := h
    · exact ⟨p, List.mem_cons_self, rfl⟩
    · obtain ⟨q, hq, rfl⟩ := ih h
      exact ⟨q, List.mem_cons_of_mem _ hq, rfl⟩

/-- Goes on over a template. Each operand is taken as it is. -/
def pass (r : Reader) : Template → Option Reader
  | [] => some r
  | (h, w) :: hs =>
    match r.stage with
    | .want =>
      if follows h.level (chunksOf w) && Frame.admits h.level r.frames then
        (Reader.run ⟨.got h.tree, r.frames⟩ (chunksOf w)).bind fun r' => pass r' hs
      else none
    | _ => none

theorem pass_cons {h : Hole} {w : String} {hs : Template} {frames : List Frame}
    (hfollows : follows h.level (chunksOf w) = true) (hsame : frames.head?.any Frame.isSame = false) :
    pass ⟨.want, frames⟩ ((h, w) :: hs) =
      (Reader.run ⟨.got h.tree, frames⟩ (chunksOf w)).bind (pass · hs) := by
  rw [pass]
  dsimp only
  rw [if_pos (by simp [hfollows, Frame.admits, hsame])]

theorem run_pass {hs : Template} (holes : ∀ p ∈ hs, p.1.Parses) {r r' : Reader}
    (h : pass r hs = some r') : r.run (hs.parts.flatMap fun p => chunksOf p.text) = some r' := by
  induction hs generalizing r with
  | nil =>
    cases h
    rfl
  | cons p hs ih =>
    obtain ⟨hole, w⟩ := p
    obtain ⟨hhole, hholes⟩ := List.forall_mem_cons.1 holes
    obtain ⟨stage, frames⟩ := r
    cases stage with
    | want =>
      rw [pass] at h
      dsimp only at h
      split at h
      · rename_i hfits
        obtain ⟨hfollows, hadmits⟩ := Bool.and_eq_true_iff.1 hfits
        obtain ⟨s, hword, hrest⟩ := Option.bind_eq_some_iff.1 h
        obtain ⟨u, gs, hgs, hu, hrun⟩ := hhole.reads
        have hparts : (parts ((hole, w) :: hs)).flatMap (fun p => chunksOf p.text) =
            chunksOf hole.text ++ (chunksOf w ++ (parts hs).flatMap fun p => chunksOf p.text) := by
          simp [parts, Part.text]
        rw [hparts, Reader.run_append, hrun _ hadmits, Option.bind_some, Reader.run_append,
          run_of_follows hfollows hgs, hu, hword]
        exact ih hholes hrest
      · cases h
    | _ => cases h

end Template

/-- A text made of a fixed word and a template is an operand that leaves nothing open. -/
theorem Parses.ofTemplate {level : Nat} {t : Tree} (text w : String) (hs : Template)
    (htext : text.toList = (.word w :: hs.parts).flatMap fun p : Part => p.text.toList)
    (hspaced : Part.spaced (.word w :: hs.parts) = true) (holes : ∀ p ∈ hs, p.1.Parses)
    (hrun : ∀ frames, (Reader.run ⟨.want, frames⟩ (chunksOf w)).bind (Template.pass · hs) =
      some ⟨.got t, frames⟩) : Parses level text t := by
  have hwhole : ∀ x, .hole x ∈ (.word w :: hs.parts : List Part) → Whole x := by
    intro x hx
    obtain hx | hx := List.mem_cons.1 hx
    · cases hx
    · obtain ⟨p, hp, rfl⟩ := Template.mem_parts hx
      exact (holes p hp).whole
  obtain ⟨htextWhole, hchunks⟩ := Whole.ofParts text _ htext hspaced hwhole
  refine .of_run htextWhole fun frames => ?_
  obtain ⟨r, hr, hpass⟩ := Option.bind_eq_some_iff.1 (hrun frames)
  rw [hchunks, List.flatMap_cons, Reader.run_append]
  change (Reader.run ⟨.want, frames⟩ (chunksOf w)).bind _ = _
  rw [hr]
  exact Template.run_pass holes hpass

theorem Parses.behind {level k : Nat} {t : Tree} {text : String} (h : Parses k text t) (w : String)
    (op : Unary) (hspaced : Part.spaced [.word w, .hole text] = true) (hop : op.level ≤ k)
    (hrun : ∀ frames, Frame.admits level frames = true →
      Reader.run ⟨.want, frames⟩ (chunksOf w) = some ⟨.want, .unary op :: frames⟩)
    (hlevel : level ≤ op.level) : Parses level (w ++ text) (.unary op t) := by
  obtain ⟨u, gs, hgs, rfl, htext⟩ := h.reads
  obtain ⟨hwhole, hchunks⟩ := Whole.ofParts (w ++ text) [.word w, .hole text] (by simp [Part.text])
    hspaced (by simp [h.whole])
  refine ⟨hwhole, u, gs ++ [.unary op], ?_, by simp [Frame.completeAll, Frame.complete],
    fun frames hframes => ?_⟩
  · intro g hg
    obtain hg | hg := List.mem_append.1 hg
    · exact hgs.mono (hlevel.trans hop) g hg
    · cases List.mem_singleton.1 hg
      simpa [Frame.level?] using hlevel
  · rw [hchunks, List.flatMap_cons, Reader.run_append]
    change (Reader.run ⟨.want, frames⟩ (chunksOf w)).bind _ = _
    have hadmits : Frame.admits k (.unary op :: frames) = true := by simp [Frame.admits, Frame.isSame]
    rw [hrun frames hframes, Option.bind_some]
    simp [Part.text, htext _ hadmits]

/-! ## Parentheses -/

theorem follows_mono {k level : Nat} {xs : List Chunk} (h : follows k xs = true) (hk : k ≤ level) :
    follows level xs = true := by
  unfold follows at h ⊢
  obtain ⟨x, hx, h⟩ := Option.any_eq_true _ _ |>.1 h
  obtain ⟨a, ha, h⟩ := Option.any_eq_true _ _ |>.1 h
  rw [hx, Option.any_some, ha, Option.any_some]
  simp only [decide_eq_true_eq] at h ⊢
  omega

/-- Nothing binds so loosely that it is open behind a parenthesis. -/
theorem follows_close (level : Nat) : follows level (chunksOf ")") = true :=
  follows_mono (k := 0) rfl (Nat.zero_le _)

theorem run_close (op : Binary) (l r : Tree) (frames : List Frame) :
    Reader.run ⟨.got r, .binary op l :: .group :: frames⟩ (chunksOf ")") =
      some ⟨.got (.binary op l r), frames⟩ := by
  have htight : Frame.Tight 0 [.binary op l] := by simp [Frame.Tight, Frame.level?]
  have hsettled : Reader.run ⟨.got r, [.binary op l] ++ .group :: frames⟩ (chunksOf ")") =
      Reader.run ⟨.got (.binary op l r), .group :: frames⟩ (chunksOf ")") :=
    run_of_follows rfl htight
  exact hsettled

/-- A word that can stand between operands. -/
def IsJoint (w : String) : Prop :=
  (Part.word w).isFixed = true ∧ (Part.word w).opens = true ∧ (Part.word w).stops = true

/-- Inside parentheses, a word behind an operand at `level` is an operator. -/
structure Connects (level : Nat) (w : String) (op : Binary) : Prop where
  joint : IsJoint w
  follows : follows level (chunksOf w) = true
  first : ∀ t frames, Reader.run ⟨.got t, .group :: frames⟩ (chunksOf w) =
    some ⟨.want, .binary op t :: .group :: frames⟩

theorem spaced_parts {w : String} (hfixed : (Part.word w).isFixed = true)
    (hopens : (Part.word w).opens = true) {hs : Template} (h : ∀ p ∈ hs, IsJoint p.2) :
    Part.spaced (.word w :: hs.parts) = true := by
  induction hs generalizing w with
  | nil => exact hfixed
  | cons p hs ih =>
    obtain ⟨hp, hrest⟩ := List.forall_mem_cons.1 h
    have hnext := ih hp.1 hp.2.1 hrest
    rw [Template.parts, Part.spaced, Part.spaced, hfixed, hopens, hp.2.2, hnext, Part.isFixed_hole]
    rfl

theorem isJoint_close : IsJoint ")" := ⟨rfl, rfl, rfl⟩

section Parentheses

variable {level k : Nat} {text l r : String} {t tl tr : Tree} {op : Binary}

theorem Parses.group (h : Parses k text t) : Parses level ("(" ++ text ++ ")") t := by
  refine .ofTemplate _ "(" [(⟨text, k, t⟩, ")")] (by simp [Template.parts, Part.text])
    (spaced_parts rfl rfl (by simp [isJoint_close])) (List.forall_mem_singleton.2 h) fun frames => ?_
  change Template.pass ⟨.want, .group :: frames⟩ _ = _
  rw [Template.pass_cons (follows_close k) rfl]
  rfl

/-- An operator between two operands. Behind `IS`, the second one must not start with `NOT`. -/
theorem Parses.between {w : String} (hw : Connects level w op) (hl : Parses level l tl)
    (hr : Parses k r tr) (hsame : op = .comparison .same → 4 < k) {outer : Nat} :
    Parses outer ("(" ++ l ++ w ++ r ++ ")") (.binary op tl tr) := by
  refine .ofTemplate _ "(" [(⟨l, level, tl⟩, w), (⟨r, k, tr⟩, ")")]
    (by simp [Template.parts, Part.text])
    (spaced_parts rfl rfl (by simp [hw.joint, isJoint_close])) (by simpa using ⟨hl, hr⟩)
    fun frames => ?_
  have hadmits : Frame.admits k (.binary op tl :: .group :: frames) = true := by
    by_cases h : op = .comparison .same
    · simp [Frame.admits, hsame h]
    · have hfree : Frame.isSame (.binary op tl) = false := by
        rw [Frame.isSame.eq_def]
        split
        · rename_i heq
          cases heq
          exact absurd rfl h
        · rfl
      simp [Frame.admits, hfree]
  change Template.pass ⟨.want, .group :: frames⟩ _ = _
  rw [Template.pass_cons hw.follows rfl, hw.first, Option.bind_some, Template.pass]
  dsimp only
  rw [follows_close, hadmits, Bool.and_self, if_pos rfl, run_close]
  rfl

end Parentheses

/-! ## Lists of operands -/

/-- Operands with an operator between them, grouped from the left. -/
def Tree.chain (op : Binary) (t : Tree) (ts : List Tree) : Tree := ts.foldl (.binary op) t

/-- The template of operands with separators between them and a parenthesis at the end. -/
def Template.separated (sep : String) : List Hole → Template
  | [] => []
  | [h] => [(h, ")")]
  | h :: hs => (h, sep) :: separated sep hs

/-- A separator of operands inside parentheses is an operator that is grouped from the left. -/
structure Separates (sep : String) (op : Binary) : Prop extends Connects 4 sep op where
  admits : ∀ l frames, (Frame.binary op l :: frames).head?.any Frame.isSame = false
  next : ∀ t l frames, Reader.run ⟨.got t, .binary op l :: .group :: frames⟩ (chunksOf sep) =
    some ⟨.want, .binary op (.binary op l t) :: .group :: frames⟩

theorem separates_comma : Separates ", " .comma where
  joint := ⟨rfl, rfl, rfl⟩
  follows := rfl
  first _ _ := rfl
  admits _ _ := rfl
  next _ _ _ := rfl

theorem separates_connective (op : BoolOp) :
    Separates (" " ++ connective op ++ " ") (.connective op) where
  joint := by cases op <;> exact ⟨rfl, rfl, rfl⟩
  follows := by cases op <;> rfl
  first _ _ := by cases op <;> rfl
  admits _ _ := rfl
  next _ _ _ := by cases op <;> rfl

section Separated

variable {sep : String} {op : Binary} {h : Hole} {hs : List Hole}

/-- Behind the first operand, the others are joined to what is there. -/
theorem pass_separated_next (hsep : Separates sep op) (hlevels : ∀ x ∈ h :: hs, 4 ≤ x.level) (l : Tree)
    (frames : List Frame) :
    Template.pass ⟨.want, .binary op l :: .group :: frames⟩ (.separated sep (h :: hs)) =
      some ⟨.got (.chain op l ((h :: hs).map (·.tree))), frames⟩ := by
  induction hs generalizing h l with
  | nil =>
    rw [Template.separated, Template.pass_cons (follows_close _) (hsep.admits l _), run_close]
    rfl
  | cons h' hs ih =>
    obtain ⟨hlevel, hlevels⟩ := List.forall_mem_cons.1 hlevels
    rw [Template.separated]
    · rw [Template.pass_cons (follows_mono hsep.follows hlevel) (hsep.admits l _), hsep.next,
        Option.bind_some, ih hlevels]
      rfl
    · simp

theorem pass_separated (hsep : Separates sep op) (hlevels : ∀ x ∈ h :: hs, 4 ≤ x.level)
    (frames : List Frame) :
    Template.pass ⟨.want, .group :: frames⟩ (.separated sep (h :: hs)) =
      some ⟨.got (.chain op h.tree (hs.map (·.tree))), frames⟩ := by
  cases hs with
  | nil =>
    rw [Template.separated, Template.pass_cons (follows_close _) rfl]
    rfl
  | cons h' hs =>
    obtain ⟨hlevel, hlevels⟩ := List.forall_mem_cons.1 hlevels
    rw [Template.separated]
    · rw [Template.pass_cons (follows_mono hsep.follows hlevel) rfl, hsep.first, Option.bind_some,
        pass_separated_next hsep hlevels]
    · simp

theorem isJoint_separated (hsep : IsJoint sep) : ∀ p ∈ Template.separated sep hs, IsJoint p.2 := by
  induction hs with
  | nil => simp [Template.separated]
  | cons h hs ih =>
    cases hs with
    | nil => simpa [Template.separated] using isJoint_close
    | cons h' hs => simpa [Template.separated, hsep] using ih

theorem text_separated : ((Template.separated sep (h :: hs)).parts.flatMap fun p => p.text.toList) =
    (sep.intercalate ((h :: hs).map (·.text)) ++ ")").toList := by
  induction hs generalizing h with
  | nil => simp [Template.separated, Template.parts, Part.text]
  | cons h' hs ih =>
    rw [Template.separated, Template.parts]
    · rw [List.flatMap_cons, List.flatMap_cons, ih]
      simp only [List.map_cons, String.intercalate_cons_cons]
      simp [Part.text]
    · simp

theorem mem_separated {p : Hole × String} (hp : p ∈ Template.separated sep hs) : p.1 ∈ hs := by
  induction hs with
  | nil => cases hp
  | cons h hs ih =>
    cases hs with
    | nil =>
      cases List.mem_singleton.1 hp
      exact List.mem_cons_self
    | cons h' hs =>
      obtain rfl | hp := List.mem_cons.1 hp
      · exact List.mem_cons_self
      · exact List.mem_cons_of_mem _ (ih hp)

theorem exists_holes {texts : List String} {ts : List Tree} (h : List.Forall₂ (Parses 4) texts ts) :
    ∃ hs : List Hole, hs.map (·.text) = texts ∧ hs.map (·.tree) = ts ∧
      ∀ x ∈ hs, x.Parses ∧ 4 ≤ x.level := by
  induction h with
  | nil => exact ⟨[], rfl, rfl, by simp⟩
  | @cons text t texts ts hparses _ ih =>
    obtain ⟨hs, rfl, rfl, hholes⟩ := ih
    exact ⟨⟨text, 4, t⟩ :: hs, rfl, rfl, List.forall_mem_cons.2 ⟨⟨hparses, le_rfl⟩, hholes⟩⟩

theorem Parses.ofSeparated {level : Nat} {texts : List String} {t : Tree} {ts : List Tree}
    (hsep : Separates sep op) (h : List.Forall₂ (Parses 4) texts (t :: ts)) :
    Parses level ("(" ++ sep.intercalate texts ++ ")") (.chain op t ts) := by
  obtain ⟨hs, rfl, htrees, hholes⟩ := exists_holes h
  cases hs with
  | nil => cases htrees
  | cons x xs =>
    obtain ⟨rfl, rfl⟩ := List.cons.inj htrees
    refine .ofTemplate _ "(" (.separated sep (x :: xs)) ?_
      (spaced_parts rfl rfl (isJoint_separated hsep.joint))
      (fun p hp => (hholes _ (mem_separated hp)).1) fun frames => ?_
    · rw [List.flatMap_cons, text_separated]
      simp [Part.text]
    · exact pass_separated hsep (fun x hx => (hholes x hx).2) frames

end Separated

end DocQuery.Sql
