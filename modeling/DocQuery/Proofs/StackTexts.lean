import DocQuery.Proofs.Walk
import DocQuery.Proofs.RoundTrip

/-! # Texts on the stack

What the steps of one construct leave on the stack, given what the steps of its parts leave there:
a text that writes the construct. It is a spelling, but not always the canonical one: the items of a
tuple in a subscript are enclosed once more.

* `Recovers`, `RecoversAll`: the steps push texts that write expressions.
* `recovers_*`: one lemma for each construct.
* `Literal.Constant`: literals that are folded into constants and come back as they were.
-/

set_option autoImplicit false

namespace DocQuery

open DocQuery.Parser Token

/-! ## Recovered texts -/

/-- The steps push a text that writes the expression. -/
def Recovers (steps : List Step) (e : Expr) : Prop :=
  ∃ d : String, Spelling .primary e d.toList ∧ Pushes steps [d]

/-- The steps push texts that write the expressions, in order. -/
def RecoversAll (steps : List Step) (es : List Expr) : Prop :=
  ∃ ws : List (Expr × String), ws.map Prod.fst = es ∧
    (∀ w ∈ ws, Spelling .primary w.1 w.2.toList) ∧ Pushes steps (ws.map Prod.snd)

theorem recoversAll_nil : RecoversAll [] [] := ⟨[], rfl, nofun, pushes_nil⟩

theorem Recovers.cons {a b : List Step} {e : Expr} {es : List Expr} (ha : Recovers a e)
    (hb : RecoversAll b es) : RecoversAll (a ++ b) (e :: es) := by
  obtain ⟨d, hd, hpush⟩ := ha
  obtain ⟨ws, rfl, hws, hpushAll⟩ := hb
  exact ⟨(e, d) :: ws, rfl, by simpa [hd] using hws, hpush.append hpushAll⟩

section Constructs

variable {a b steps : List Step} {e left right : Expr}

/-- A step that makes one text of two. -/
theorem recovers_two {s : Step} {e' : Expr} (join : String → String → String)
    (hleft : Recovers a left) (hright : Recovers b right) (heffect : s.opcode.isNoop = false)
    (hop : s.opcode ∉ [Opcode.returnValue, .returnConst, .copy, .dupTop])
    (h : ∀ x y offset stack, (s.toInstruction offset).apply (y :: x :: stack) =
      .ok (join x y :: stack))
    (hspell : ∀ x y : String, Spelling .primary left x.toList → Spelling .primary right y.toList →
      Spelling .primary e' (join x y).toList) : Recovers (a ++ b ++ [s]) e' := by
  obtain ⟨x, hx, hpushX⟩ := hleft
  obtain ⟨y, hy, hpushY⟩ := hright
  exact ⟨join x y, hspell x y hx hy, (hpushX.append hpushY).step heffect hop fun offset stack =>
    h x y offset stack⟩

/-- A step that makes one text of one. -/
theorem recovers_one {s : Step} {e' : Expr} (f : String → String) (ha : Recovers a e)
    (heffect : s.opcode.isNoop = false)
    (hop : s.opcode ∉ [Opcode.returnValue, .returnConst, .copy, .dupTop])
    (h : ∀ x offset stack, (s.toInstruction offset).apply (x :: stack) = .ok (f x :: stack))
    (hspell : ∀ x : String, Spelling .primary e x.toList → Spelling .primary e' (f x).toList) :
    Recovers (a ++ [s]) e' := by
  obtain ⟨x, hx, hpush⟩ := ha
  exact ⟨f x, hspell x hx, hpush.step heffect hop fun offset stack => h x offset stack⟩

/-- A step that loads a text. -/
theorem recovers_load {s : Step} {d : String} (heffect : s.opcode.isNoop = false)
    (hop : s.opcode ∉ [Opcode.returnValue, .returnConst, .copy, .dupTop])
    (h : ∀ offset stack, (s.toInstruction offset).apply stack = .ok (d :: stack))
    (hspell : Spelling .primary e d.toList) : Recovers [s] e :=
  ⟨d, hspell, pushes_nil.step heffect hop h⟩

theorem recovers_name {id : String} (h : IsName id) :
    Recovers [.of .loadGlobal none (.str id)] (.name id) :=
  recovers_load rfl (by simp [Step.of]) (fun _ _ => rfl) (.up (.name h))

theorem recovers_attr {label : String} (h : Recovers a e) (hlabel : IsName label)
    (he : ∀ n, e ≠ .literal (.int n)) :
    Recovers (a ++ [.of .loadAttr none (.str label)]) (.attr e label) := by
  refine recovers_one (fun x => x ++ "." ++ label) h rfl (by simp [Step.of])
    (fun _ _ _ => rfl) ?_
  intro x hx
  have htext : (x ++ "." ++ label).toList = x.toList ++ '.' :: label.toList := by simp
  rw [htext]
  exact .attr hx hlabel (hx.exists_nondigit he)

/-- The text of two operands with a symbol between them, as it is pushed. -/
theorem toList_infixed (x symbol y : String) :
    ("(" ++ x ++ " " ++ symbol ++ " " ++ y ++ ")").toList =
      '(' :: ((x.toList ++ (spaced symbol ++ y.toList)) ++ [')']) := by
  simp [spaced]

theorem binaryEffect_two (ins : Instruction) (symbol x y : String) (stack : List String) :
    ins.binaryEffect symbol (y :: x :: stack) =
      .ok (("(" ++ x ++ " " ++ symbol ++ " " ++ y ++ ")") :: stack) := rfl

theorem recovers_binary (op : BinaryOp) (hleft : Recovers a left) (hright : Recovers b right) :
    Recovers (a ++ b ++ [⟨.binaryOp, none, .value .null op.symbol⟩]) (.binary left op right) := by
  refine recovers_two (fun x y => "(" ++ x ++ " " ++ op.symbol ++ " " ++ y ++ ")") hleft hright rfl
    (by simp) ?_ fun x y hx hy => ?_
  · intro x y offset stack
    have htrim : Text.trim op.symbol.toList = op.symbol.toList := by cases op <;> decide
    simp only [Step.toInstruction, Instruction.apply, htrim, String.ofList_toList,
      BinaryOp.ofSymbol?_symbol, Option.isSome_some, if_true, binaryEffect_two]
  · rw [toList_infixed]
    exact .enclosed_binary op (hx.loosen (by decide)) (fun _ => hx) (hy.loosen (by decide))

theorem recovers_unary (op : UnaryOp) (h : Recovers a e) :
    Recovers (a ++ [.plain op.opcode]) (.unary op e) := by
  refine recovers_one (fun x => "(" ++ op.mark ++ x ++ ")") h (by cases op <;> rfl)
    (by cases op <;> decide) ?_ fun x hx => ?_
  · intro x offset stack
    cases op <;> rfl
  · have htext : ("(" ++ op.mark ++ x ++ ")").toList =
        '(' :: ((op.mark.toList ++ x.toList) ++ [')']) := by simp
    rw [htext]
    exact .enclosed_unary op (hx.loosen (by decide))

/-- The comparisons that share one operation are told apart by their symbols. -/
theorem apply_compareOp {ins : Instruction} {op : CmpOp} (hins : ins.opcode = .compareOp)
    (hop : ins.operand = .str op.symbol) (x y : String) (stack : List String) :
    ins.apply (y :: x :: stack) =
      .ok (("(" ++ x ++ " " ++ op.symbol ++ " " ++ y ++ ")") :: stack) := by
  have htext : ins.comparisonText = op.symbol := by
    simp only [Instruction.comparisonText, hop]
    cases op <;> rfl
  simp only [Instruction.apply, hins, htext, CmpOp.ofSymbol?_symbol, Option.isSome_some, if_true,
    binaryEffect_two]

theorem apply_comparison (op : CmpOp) (x y : String) (offset : Nat) (stack : List String) :
    (op.step.toInstruction offset).apply (y :: x :: stack) =
      .ok (("(" ++ x ++ " " ++ op.symbol ++ " " ++ y ++ ")") :: stack) := by
  cases op with
  | same => rfl
  | notSame => rfl
  | elemOf => rfl
  | notElemOf => rfl
  | _ => exact apply_compareOp rfl rfl x y stack

theorem recovers_compare (op : CmpOp) (hleft : Recovers a left) (hright : Recovers b right) :
    Recovers (a ++ b ++ [op.step]) (.compare left [op] [right]) := by
  refine recovers_two (fun x y => "(" ++ x ++ " " ++ op.symbol ++ " " ++ y ++ ")") hleft hright
    (by cases op <;> rfl) (by cases op <;> decide) (apply_comparison op) fun x y hx hy => ?_
  rw [toList_infixed]
  have hy : Spelling .signed right y.toList := hy.loosen (by decide)
  have hlinks : ∀ l ∈ [(op, right, y.toList)], Spelling .signed l.2.1 l.2.2 := by simpa using hy
  simpa using Spelling.enclosed_compare (by simp) (hx.loosen (by decide)) hlinks

theorem spelling_connected (op : BoolOp) {x y : String} (hx : Spelling .primary left x.toList)
    (hy : Spelling .primary right y.toList) :
    Spelling .primary (.boolean op [left, right])
      ("(" ++ x ++ " " ++ op.keyword ++ " " ++ y ++ ")").toList := by
  have hwritten : ∀ w ∈ [(left, x.toList), (right, y.toList)], Spelling .primary w.1 w.2 := by
    simpa using ⟨hx, hy⟩
  rw [toList_infixed]
  simpa using Spelling.enclosed_boolean op hwritten

theorem recovers_chain (op : BoolOp) (hleft : Recovers a left) (hright : Recovers b right) :
    Recovers (a ++ [.counting .copy 1, ⟨op.opcode, none, .jump (b.length + 2)⟩, .plain .popTop] ++ b)
      (.boolean op [left, right]) := by
  obtain ⟨x, hx, hpushX⟩ := hleft
  obtain ⟨y, hy, hpushY⟩ := hright
  exact ⟨_, spelling_connected op hx hy, hpushX.chain op hpushY⟩

/-- A step that makes one text of one and several more. -/
theorem recovers_head {s : Step} {es : List Expr} {e' : Expr}
    (join : String → List String → String) (ha : Recovers a e) (hb : RecoversAll b es)
    (heffect : s.opcode.isNoop = false)
    (hop : s.opcode ∉ [Opcode.returnValue, .returnConst, .copy, .dupTop])
    (h : ∀ x ys offset stack, ys.length = es.length →
      (s.toInstruction offset).apply (ys.reverse ++ x :: stack) = .ok (join x ys :: stack))
    (hspell : ∀ (x : String) (ws : List (Expr × String)), ws.map Prod.fst = es →
      Spelling .primary e x.toList → (∀ w ∈ ws, Spelling .primary w.1 w.2.toList) →
      Spelling .primary e' (join x (ws.map Prod.snd)).toList) : Recovers (a ++ b ++ [s]) e' := by
  obtain ⟨x, hx, hpush⟩ := ha
  obtain ⟨ws, hes, hws, hpushAll⟩ := hb
  refine ⟨join x (ws.map Prod.snd), hspell x ws hes hx hws,
    (hpush.append hpushAll).step heffect hop fun offset stack => ?_⟩
  have hlength : (ws.map Prod.snd).length = es.length := by simp [← hes]
  simpa using h x (ws.map Prod.snd) offset stack hlength

/-- A step that makes one text of several. -/
theorem recovers_several {s : Step} {es : List Expr} {e' : Expr} (join : List String → String)
    (hb : RecoversAll b es) (heffect : s.opcode.isNoop = false)
    (hop : s.opcode ∉ [Opcode.returnValue, .returnConst, .copy, .dupTop])
    (h : ∀ ys offset stack, ys.length = es.length →
      (s.toInstruction offset).apply (ys.reverse ++ stack) = .ok (join ys :: stack))
    (hspell : ∀ ws : List (Expr × String), ws.map Prod.fst = es →
      (∀ w ∈ ws, Spelling .primary w.1 w.2.toList) →
      Spelling .primary e' (join (ws.map Prod.snd)).toList) : Recovers (b ++ [s]) e' := by
  obtain ⟨ws, hes, hws, hpush⟩ := hb
  refine ⟨join (ws.map Prod.snd), hspell ws hes hws, hpush.step heffect hop fun offset stack => ?_⟩
  exact h (ws.map Prod.snd) offset stack (by simp [← hes])

/-! ### Texts with several items -/

theorem loosen_items {ws : List (Expr × String)} (h : ∀ w ∈ ws, Spelling .primary w.1 w.2.toList) :
    ∀ w ∈ ws, Spelling .expression w.1 w.2.toList :=
  fun w hw => (h w hw).loosen (by decide)

/-- Expressions with their texts, as the texts of items. -/
theorem spelled_items {ws : List (Expr × String)}
    (h : ∀ w ∈ ws, Spelling .expression w.1 w.2.toList) :
    ∀ w ∈ ws.map fun w => ((w.1, w.2.toList) : Written), Spelling .expression w.1 w.2 :=
  List.forall_mem_map.2 h

theorem spelling_listText {ws : List (Expr × String)}
    (h : ∀ w ∈ ws, Spelling .expression w.1 w.2.toList) :
    Spelling .primary (.list (ws.map Prod.fst)) ("[" ++ commaJoined (ws.map Prod.snd) ++ "]").toList := by
  have hspell := Spelling.list _ (spelled_items h)
  simp only [List.map_map, Function.comp_def] at hspell
  simpa [toList_commaJoined, Function.comp_def] using Spelling.up (L := .primary) hspell

theorem spelling_tupleText {ws : List (Expr × String)}
    (h : ∀ w ∈ ws, Spelling .expression w.1 w.2.toList) :
    Spelling .primary (.tuple (ws.map Prod.fst)) (tupleText (ws.map Prod.snd)).toList := by
  match ws with
  | [] => exact .up .unit
  | [w] =>
    have hspell := Spelling.tuple (w.1, w.2.toList) [] (spelled_items h)
    simpa [tupleText, commas, withCommas, loneComma] using Spelling.up (L := .primary) hspell
  | v :: w :: ws =>
    have hspell := Spelling.tuple _ _ (spelled_items h)
    simpa [tupleText, toList_commaJoined, loneComma, Function.comp_def] using
      Spelling.up (L := .primary) hspell

theorem spelling_callText {ws : List (Expr × String)} {x : String}
    (hx : Spelling .primary e x.toList) (h : ∀ w ∈ ws, Spelling .expression w.1 w.2.toList) :
    Spelling .primary (.call e (ws.map Prod.fst) [])
      (x ++ "(" ++ commaJoined (ws.map Prod.snd) ++ ")").toList := by
  have hargs : ∀ a ∈ ws.map fun w => (⟨false, w.1, w.2.toList⟩ : Positional Written),
      Spelling .expression a.value.1 a.value.2 := List.forall_mem_map.2 h
  have hspell := Spelling.call_positional hx _ [] nofun hargs nofun
  simpa [toList_commaJoined, Function.comp_def, Positional.map, Positional.expr, Positional.text]
    using hspell

theorem popMany_reverse (ins : Instruction) (ys stack : List String) :
    ins.popMany ys.length (ys.reverse ++ stack) = .ok (ys, stack) := by
  rw [Instruction.popMany, if_neg (by simp)]
  simp

theorem recovers_call {es : List Expr} (ha : Recovers a e) (hb : RecoversAll b es) :
    Recovers (a ++ b ++ [.counting .call es.length]) (.call e es []) := by
  refine recovers_head (fun x ys => x ++ "(" ++ commaJoined ys ++ ")") ha hb rfl
    (by simp [Step.counting, Step.of]) ?_ ?_
  · intro x ys offset stack hlength
    have hpop := popMany_reverse ((Step.counting .call es.length).toInstruction offset) ys (x :: stack)
    rw [hlength] at hpop
    exact (congrArg (· >>= _) hpop).trans rfl
  · rintro x ws rfl hx hws
    exact spelling_callText hx (loosen_items hws)

theorem recovers_list {es : List Expr} (h : RecoversAll b es) :
    Recovers (b ++ [.counting .buildList es.length]) (.list es) := by
  refine recovers_several (fun ys => "[" ++ commaJoined ys ++ "]") h rfl
    (by simp [Step.counting, Step.of]) ?_ ?_
  · intro ys offset stack hlength
    have hpop := popMany_reverse ((Step.counting .buildList es.length).toInstruction offset) ys stack
    rw [hlength] at hpop
    exact (congrArg (· >>= _) hpop).trans rfl
  · rintro ws rfl hws
    exact spelling_listText (loosen_items hws)

theorem recovers_tuple {es : List Expr} (h : RecoversAll b es) :
    Recovers (b ++ [.counting .buildTuple es.length]) (.tuple es) := by
  refine recovers_several tupleText h rfl (by simp [Step.counting, Step.of]) ?_ ?_
  · intro ys offset stack hlength
    have hpop := popMany_reverse ((Step.counting .buildTuple es.length).toInstruction offset) ys stack
    rw [hlength] at hpop
    exact (congrArg (· >>= _) hpop).trans rfl
  · rintro ws rfl hws
    exact spelling_tupleText (loosen_items hws)

theorem spelling_subscriptText {x y : String} (hx : Spelling .primary left x.toList)
    (hy : Spelling .expression right y.toList) :
    Spelling .primary (.subscript left right) (x ++ "[" ++ y ++ "]").toList := by
  have hparts : ∀ w ∈ (Index.single ((right, y.toList) : Written)).parts,
      Spelling .expression w.1 w.2 := by
    simpa [Index.parts] using hy
  simpa [Index.map, Index.expr, Index.text] using Spelling.subscript hx _ hparts

theorem recovers_subscript (ha : Recovers a left) (hb : Recovers b right) :
    Recovers (a ++ b ++ [.plain .binarySubscr]) (.subscript left right) :=
  recovers_two (fun x y => x ++ "[" ++ y ++ "]") ha hb rfl (by decide) (fun _ _ _ _ => rfl)
    fun _ _ hx hy => spelling_subscriptText hx (hy.loosen (by decide))

/-! ### Constants -/

/-- A literal that is recovered as it is written. It never ends in a comma, which would be taken for
the comma after a lone item. -/
structure Literal.Constant (l : Literal) : Prop where
  text : l.operand.constantText = .ok l.render
  spelled : Spelling .primary (.literal l) l.render.toList
  ending : l.render.toList.getLast? ≠ some ','

theorem Parsed.constant {l : Literal} (h : Parsed (.literal l)) (hfloat : ∀ x, l ≠ .float x) :
    l.Constant := by
  have hinside : ∀ y : Expr, y.Inside (.literal l) → y = .literal l := by
    rintro y (_ | ⟨hp, -⟩)
    · rfl
    · exact absurd hp List.not_mem_nil
  have hplain : (Expr.literal l).Plain :=
    ⟨fun _ hk => (nomatch hinside _ hk), fun x hx => hfloat x (Expr.literal.inj (hinside _ hx)).symm⟩
  have hspell := h.renderSpells hplain
  cases h with
  | none => exact ⟨rfl, hspell, by decide⟩
  | bool b => cases b <;> exact ⟨rfl, hspell, by decide⟩
  | int n hn =>
    refine ⟨?_, hspell, ?_⟩
    · have hsmall : (n : Int) < Width.signed64 := by exact_mod_cast hn
      simp [Literal.operand, Json.constantText, hsmall]
    · intro hlast
      have hmem : ',' ∈ Nat.toDigits 10 n := by
        rw [← toString_natCast]
        exact List.mem_of_getLast? hlast
      exact absurd (isDigit_toDigits n ',' hmem) (by decide)
  | float digits exponent => exact absurd rfl (hfloat _)
  | str s =>
    refine ⟨rfl, hspell, ?_⟩
    have hquote : (Literal.str s).render.toList.getLast? = some '\'' := by
      rw [Literal.render, toList_quoted, ← List.cons_append]
      exact List.getLast?_concat
    rw [hquote]
    decide

theorem constantTexts_operand {ls : List Literal} (h : ∀ l ∈ ls, l.Constant) :
    Json.constantTexts (ls.map Literal.operand) = .ok (ls.map Literal.render) := by
  induction ls with
  | nil => rfl
  | cons l ls ih =>
    have hl := (h l List.mem_cons_self).text
    have hls := ih fun k hk => h k (List.mem_cons_of_mem _ hk)
    simp only [List.map_cons, Json.constantTexts, hl, hls]
    rfl

theorem constantText_arr {ls : List Literal} (h : ∀ l ∈ ls, l.Constant) :
    (Json.arr (ls.map Literal.operand)).constantText = .ok (tupleText (ls.map Literal.render)) := by
  rw [Json.constantText, constantTexts_operand h]
  rfl

/-- Literals with their texts. -/
theorem spelled_literals {ls : List Literal} (h : ∀ l ∈ ls, l.Constant) :
    ∀ w ∈ ls.map fun l => (Expr.literal l, l.render), Spelling .primary w.1 w.2.toList := by
  intro w hw
  obtain ⟨l, hl, rfl⟩ := List.mem_map.1 hw
  exact (h l hl).spelled

theorem pushes_constants {ls : List Literal} {text : String} (h : ∀ l ∈ ls, l.Constant) :
    Pushes [.constant (.arr (ls.map Literal.operand)) text] [tupleText (ls.map Literal.render)] :=
  pushes_nil.step rfl (by simp [Step.constant]) fun _ _ =>
    (congrArg (· >>= _) (constantText_arr h)).trans rfl

theorem recovers_constants {ls : List Literal} {text : String} (h : ∀ l ∈ ls, l.Constant) :
    Recovers [.constant (.arr (ls.map Literal.operand)) text] (.tuple (ls.map .literal)) := by
  refine ⟨_, ?_, pushes_constants h⟩
  simpa [Function.comp_def] using spelling_tupleText (loosen_items (spelled_literals h))

theorem getLast?_commas {ts : List (List Char)} (h : ∀ t ∈ ts, t.getLast? ≠ some ',') :
    (commas ts).getLast? ≠ some ',' := by
  cases ts with
  | nil => simp [commas]
  | cons t ts =>
    rw [commas]
    induction ts generalizing t with
    | nil => simpa [withCommas] using h
    | cons u ts ih =>
      have hrest := ih u fun v hv => h v (List.mem_cons_of_mem _ hv)
      have hsplit : withCommas (u :: ts) = [',', ' '] ++ (u ++ withCommas ts) := by
        simp [withCommas]
      rw [hsplit, ← List.append_assoc, List.getLast?_append]
      cases hlast : (u ++ withCommas ts).getLast? with
      | none => simp
      | some c => simpa [hlast] using hrest

/-- A list display takes the items of a tuple of at least two items. -/
theorem extendedList_tuple {items : String} (h : items.toList.getLast? ≠ some ',') :
    extendedList "[]" ("(" ++ items ++ ")") = "[" ++ items ++ "]" := by
  have hafter : Text.after? ['('] ("(" ++ items ++ ")").toList = some (items.toList ++ [')']) := by
    simp [Text.after?]
  have hbefore : Text.before? [')'] (items.toList ++ [')']) = some items.toList := by
    simp [Text.before?, Text.after?]
  have hdrop : (items.toList.reverse.dropWhile (· == ',')).reverse = items.toList := by
    cases hrev : items.toList.reverse with
    | nil => simpa using hrev.symm
    | cons c cs =>
      have hc : c ≠ ',' := by
        rintro rfl
        exact h (by rw [← List.head?_reverse, hrev]; rfl)
      have hlist := congrArg List.reverse hrev
      rw [List.reverse_reverse] at hlist
      rw [List.dropWhile_cons_of_neg (by simpa using hc), hlist]
  have hexisting : (Text.after? ['['] "[]".toList).bind (Text.before? [']']) = some [] := by decide
  simp only [extendedList, hafter, Option.bind_some, hbefore, hdrop, hexisting]
  simp

theorem recovers_constantList {ls : List Literal} {text : String} (h : ∀ l ∈ ls, l.Constant)
    (hmany : 2 ≤ ls.length) :
    Recovers [.counting .buildList 0, .constant (.arr (ls.map Literal.operand)) text,
      .counting .listExtend 1] (.list (ls.map .literal)) := by
  have hempty : Pushes [.counting .buildList 0] ["[]"] := pushes_nil.step rfl (by decide) fun _ _ => rfl
  have htuple : tupleText (ls.map Literal.render) = "(" ++ commaJoined (ls.map Literal.render) ++ ")" := by
    match ls, hmany with
    | k :: l :: ls, _ => rfl
  have hending : (commaJoined (ls.map Literal.render)).toList.getLast? ≠ some ',' := by
    rw [toList_commaJoined]
    refine getLast?_commas fun t ht => ?_
    obtain ⟨d, hd, rfl⟩ := List.mem_map.1 ht
    obtain ⟨l, hl, rfl⟩ := List.mem_map.1 hd
    exact (h l hl).ending
  have hlist := spelling_listText (loosen_items (spelled_literals h))
  simp only [List.map_map, Function.comp_def] at hlist
  refine ⟨_, hlist, (hempty.append (pushes_constants h)).step rfl (by decide) fun offset stack => ?_⟩
  rw [← extendedList_tuple hending, ← htuple]
  rfl

end Constructs

end DocQuery
