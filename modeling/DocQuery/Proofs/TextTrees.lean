import DocQuery.Proofs.Operators
import DocQuery.Proofs.References

/-! # The trees of texts

How the texts that expressions become are grouped, for each kind of text by itself, given the trees of
the texts in it.

* `Tree.isAtom`: the trees without operators.
* `Dotted.parses`, `parses_literal`, `parses_applied`: names, literals and calls on a path are atoms.
* `arithmeticTree?`, `Tree.row`, `Tree.existence`: the trees of the other texts.
-/

set_option autoImplicit false

namespace DocQuery.Sql

/-! ## Atoms -/

/-- Whether a tree is that of the arguments that select a part of a document. -/
def Tree.isArguments : Tree → Bool
  | words _ => true
  | binary .comma (words _) (string _) => true
  | _ => false

/-- Whether a tree has no operators, but for the sign of a number. -/
def Tree.isAtom : Tree → Bool
  | string _ => true
  | words _ => true
  | call _ arguments => arguments.isArguments
  | unary (.sign .neg) (words _) => true
  | _ => false

/-- The word is no keyword. -/
def IsPlainWord (w : String) : Prop := isKeyword w.toList = false

section Atoms

variable {text : String} {level : Nat}

theorem run_word {w : List Char} (h : isKeyword w = false) (frames : List Frame) :
    Reader.run ⟨.want, frames⟩ [.word w] = some ⟨.got (.words [w]), frames⟩ := by
  have hfront : lookup? frontWords w = none := by
    simp only [isKeyword, Bool.or_eq_false_iff, Option.isSome_eq_false_iff,
      Option.isNone_iff_eq_none] at h
    exact h.1.1
  rw [Reader.run, Reader.step]
  dsimp only
  rw [Reader.front, hfront]
  dsimp only
  rw [h]
  rfl

theorem step_enter (ws : List (List Char)) (frames : List Frame) :
    Reader.step ⟨.got (.words ws), frames⟩ (.mark '(') = some ⟨.want, .call ws :: frames⟩ := by
  change Reader.act (Frame.settle 11 frames (.words ws)).1
    (Frame.settle 11 frames (.words ws)).2 .enter = _
  rw [Frame.settle_loose]
  rfl

theorem run_call {w : List Char} (h : isKeyword w = false) (frames : List Frame) (xs : List Chunk) :
    Reader.run ⟨.want, frames⟩ (.word w :: .mark '(' :: xs) =
      Reader.run ⟨.want, .call [w] :: frames⟩ xs := by
  rw [← List.singleton_append, Reader.run_append, run_word h, Option.bind_some, Reader.run, step_enter]
  rfl

theorem run_label (ws : List (List Char)) (w : List Char) (frames : List Frame) :
    Reader.run ⟨.got (.words ws), frames⟩ [.dot, .word w] =
      some ⟨.got (.words (ws ++ [w])), frames⟩ := by
  have hdot : Reader.step ⟨.got (.words ws), frames⟩ .dot = some ⟨.dotted ws, frames⟩ := by
    change Reader.act (Frame.settle 11 frames (.words ws)).1
      (Frame.settle 11 frames (.words ws)).2 .dot = _
    rw [Frame.settle_loose]
    rfl
  rw [Reader.run, hdot]
  rfl

theorem Dotted.parses {Q : String → Prop} (h : Dotted IsPlainWord Q text) :
    ∃ ws, ∀ level, Parses level text (.words ws) := by
  suffices ∃ ws, Whole text ∧ ∀ frames,
      Reader.run ⟨.want, frames⟩ (chunksOf text) = some ⟨.got (.words ws), frames⟩ by
    obtain ⟨ws, hwhole, hrun⟩ := this
    exact ⟨ws, fun _ => .of_run hwhole hrun⟩
  induction h with
  | @word w h hw =>
    refine ⟨[w.toList], h.readable.whole, fun frames => ?_⟩
    rw [h.chunksOf_eq]
    exact run_word hw frames
  | @label text label _ hlabel _ ih =>
    obtain ⟨ws, hwhole, hrun⟩ := ih
    obtain ⟨hdotted, hchunks⟩ := hwhole.dotted hlabel
    refine ⟨ws ++ [label.toList], hdotted, fun frames => ?_⟩
    rw [hchunks, Reader.run_append, hrun]
    exact run_label ws label.toList frames

theorem IsWordText.parses {w : String} (h : IsWordText w) (hw : IsPlainWord w) :
    Parses level w (.words [w.toList]) := by
  refine .of_run h.readable.whole fun frames => ?_
  rw [h.chunksOf_eq]
  exact run_word hw frames

theorem parses_quote (s : String) : Parses level (quote s) (.string s.toList) := by
  obtain ⟨hwhole, hchunks⟩ := whole_quote s
  refine .of_run hwhole fun frames => ?_
  rw [hchunks]
  rfl

theorem toUpper_of_isDigit {c : Char} (h : c.isDigit = true) : c.toUpper = c := by
  simp only [Char.isDigit, Bool.and_eq_true, decide_eq_true_eq, UInt32.le_iff_toNat_le, ge_iff_le] at h
  have hdigit : c.toNat ≤ 57 := h.2
  rw [Char.toUpper, dif_neg]
  rintro ⟨hlower, -⟩
  rw [UInt32.le_iff_toNat_le] at hlower
  have hletter : 97 ≤ c.toNat := hlower
  omega

/-- Digits are no keyword. -/
theorem isKeyword_digits {w : List Char} (h : ∀ c ∈ w, c.isDigit = true) : isKeyword w = false := by
  have hwords : ∀ k ∈ frontWords.map (·.1) ++ backWords.map (·.1) ++ otherWords,
      k.toList ≠ [] ∧ ∀ c ∈ k.toList, c.isDigit = false := by decide
  have hne : ∀ k ∈ frontWords.map (·.1) ++ backWords.map (·.1) ++ otherWords,
      (k.toList == w.map Char.toUpper) = false := by
    intro k hk
    obtain ⟨hnonempty, hletters⟩ := hwords k hk
    rw [beq_eq_false_iff_ne]
    intro heq
    cases w with
    | nil => exact hnonempty heq
    | cons c cs =>
      have hdigit := h c List.mem_cons_self
      have hmem : c ∈ k.toList := by
        rw [heq, List.map_cons, toUpper_of_isDigit hdigit]
        exact List.mem_cons_self
      rw [hletters c hmem] at hdigit
      cases hdigit
  simp only [List.mem_append] at hne
  have hlookup : ∀ {α : Type} (table : List (String × α)),
      (∀ k ∈ table.map (·.1), (k.toList == w.map Char.toUpper) = false) → lookup? table w = none := by
    intro α table htable
    rw [lookup?, List.find?_eq_none.2, Option.map_none]
    intro x hx
    simpa using htable x.1 (List.mem_map_of_mem hx)
  rw [isKeyword, hlookup frontWords fun k hk => hne k (.inl (.inl hk)),
    hlookup backWords fun k hk => hne k (.inl (.inr hk))]
  simpa using fun k hk => by simpa using hne k (.inr hk)

theorem isPlainWord_of_isConstantWord {w : String} (h : IsConstantWord w) : IsPlainWord w := by
  rcases h with h | h
  · have hconstants : ∀ w ∈ ["NULL", "TRUE", "FALSE", "NaN", "inf"],
        isKeyword w.toList = false := by decide
    exact hconstants w h
  · exact isKeyword_digits h

theorem parses_literal (l : Literal) : ∃ t, t.isAtom = true ∧ Parses 10 l.sql t := by
  have hconstant : ∀ {text}, IsConstant text → ∃ ws, ∀ level, Parses level text (.words ws) :=
    fun h => (h.mono (fun _ => isPlainWord_of_isConstantWord) fun _ => id).parses
  rcases sql_literal l with ⟨s, hs⟩ | h | ⟨text, htext, h⟩
  · rw [hs]
    exact ⟨_, rfl, parses_quote s⟩
  · obtain ⟨ws, hparses⟩ := hconstant h
    exact ⟨_, rfl, hparses 10⟩
  · obtain ⟨ws, hparses⟩ := hconstant h
    rw [htext]
    exact ⟨.unary (.sign .neg) (.words ws), rfl,
      (hparses 10).behind "-" (.sign .neg) rfl le_rfl (fun _ _ => rfl) le_rfl⟩

/-- A function of the database on the part of a document. -/
theorem parses_applied {p : FieldPath} {ws : List (List Char)}
    (hroot : ∀ level, Parses level p.root.document (.words ws)) {f : String}
    (hf : f ∈ ["json_extract", "json_array_length", "json_each"]) :
    ∃ t, t.isAtom = true ∧ ∀ level, Parses level (f ++ "(" ++ p.arguments ++ ")") t := by
  have hwords : ∀ f ∈ ["json_extract", "json_array_length", "json_each"],
      (Part.word (f ++ "(")).isFixed = true ∧ (Part.word (f ++ "(")).opens = true ∧ isKeyword f.toList = false ∧
      chunksOf (f ++ "(") = [.word f.toList, .mark '('] := by decide
  obtain ⟨hfixed, hopens, hplain, hchunks⟩ := hwords f hf
  have hcomma : IsJoint ", " := ⟨rfl, rfl, rfl⟩
  have hrun : ∀ frames, Reader.run ⟨.want, frames⟩ (chunksOf (f ++ "(")) =
      some ⟨.want, .call [f.toList] :: frames⟩ := by
    intro frames
    rw [hchunks, run_call hplain]
    rfl
  unfold FieldPath.arguments
  split
  · refine ⟨.call [f.toList] (.words ws), rfl, fun level => ?_⟩
    refine .ofTemplate _ (f ++ "(") [(⟨p.root.document, 10, .words ws⟩, ")")]
      (by simp [Template.parts, Part.text]) (spaced_parts hfixed hopens (by simp [isJoint_close]))
      (List.forall_mem_singleton.2 (hroot 10)) fun frames => ?_
    rw [hrun]
    rfl
  · refine ⟨.call [f.toList] (.binary .comma (.words ws) (.string p.jsonPath.toList)), rfl,
      fun level => ?_⟩
    refine .ofTemplate _ (f ++ "(") [(⟨p.root.document, 10, .words ws⟩, ", "),
      (⟨quote p.jsonPath, 10, .string p.jsonPath.toList⟩, ")")] (by simp [Template.parts, Part.text])
      (spaced_parts hfixed hopens (by simp [hcomma, isJoint_close])) ?_ fun frames => ?_
    · exact List.forall_mem_cons.2 ⟨hroot 10, List.forall_mem_singleton.2 (parses_quote _)⟩
    · rw [hrun]
      rfl

end Atoms

/-! ## Operators -/

section Operators

variable {l r sql text : String} {tl tr t : Tree} {level k : Nat}

theorem connects_comparison (op : CmpOp) :
    Connects 10 (" " ++ comparison op ++ " ") (.comparison op) where
  joint := by cases op <;> exact ⟨rfl, rfl, rfl⟩
  follows := by cases op <;> rfl
  first _ _ := by cases op <;> rfl

theorem connects_pattern (negated : Bool) :
    Connects 10 (if negated then " NOT LIKE " else " LIKE ") (.pattern negated) where
  joint := by cases negated <;> exact ⟨rfl, rfl, rfl⟩
  follows := by cases negated <;> rfl
  first _ _ := by cases negated <;> rfl

/-- The tree of a binary operation. A power and a quotient of integers are calls, and an exclusive
disjunction of bits is a difference. -/
def arithmeticTree? (op : BinaryOp) (l r : Tree) : Option Tree :=
  match op with
  | .pow => some (.call ["POW".toList] (.binary .comma l r))
  | .floorDiv =>
    some (.call ["CAST".toList]
      (.binary (.clause .named) (.binary (.arithmetic .div) l r) (.words ["INTEGER".toList])))
  | .bitXor =>
    some (.binary (.arithmetic .sub) (.binary (.arithmetic .bitOr) l r)
      (.binary (.arithmetic .bitAnd) l r))
  | .matMul => none
  | op => some (.binary (.arithmetic op) l r)

/-- The left operand stands beside an operator, unless the operation is a call. -/
theorem parses_arithmetic {op : BinaryOp} (hl : Parses 4 l tl) (hr : Parses 4 r tr)
    (htight : op ≠ .pow → op ≠ .floorDiv → Parses 10 l tl) (h : arithmetic? op l r = some sql) :
    ∃ t, arithmeticTree? op tl tr = some t ∧ Parses level sql t := by
  have hbetween : Connects 10 (" " ++ op.symbol ++ " ") (.arithmetic op) → Parses 10 l tl →
      Parses level ("(" ++ l ++ " " ++ op.symbol ++ " " ++ r ++ ")")
        (.binary (.arithmetic op) tl tr) := by
    intro hw hl
    simpa [String.append_assoc] using Parses.between hw hl hr (by simp)
  cases op with
  | pow =>
    obtain rfl := Option.some.inj h
    exact ⟨_, rfl, .ofTemplate _ "POW(" [(⟨l, 4, tl⟩, ", "), (⟨r, 4, tr⟩, ")")]
      (by simp [Template.parts, Part.text]) rfl (by simpa using ⟨hl, hr⟩) fun frames => by
        change (Reader.run _ [.word "POW".toList, .mark '(']).bind _ = _
        rw [run_call rfl]
        rfl⟩
  | floorDiv =>
    obtain rfl := Option.some.inj h
    exact ⟨_, rfl, .ofTemplate _ "CAST((" [(⟨l, 4, tl⟩, ") / ("), (⟨r, 4, tr⟩, ") AS INTEGER)")]
      (by simp [Template.parts, Part.text]) rfl (by simpa using ⟨hl, hr⟩) fun frames => by
        change (Reader.run _ [.word "CAST".toList, .mark '(', .mark '(']).bind _ = _
        rw [run_call rfl]
        rfl⟩
  | bitXor =>
    obtain rfl := Option.some.inj h
    have hl := htight (by simp) (by simp)
    exact ⟨_, rfl, .ofTemplate _ "((" [(⟨l, 10, tl⟩, " | "), (⟨r, 4, tr⟩, ") - ("), (⟨l, 10, tl⟩, " & "),
      (⟨r, 4, tr⟩, "))")] (by simp [Template.parts, Part.text]) rfl
      (by simpa using ⟨hl, hr, hl, hr⟩) fun _ => rfl⟩
  | matMul => cases h
  | _ =>
    obtain rfl := Option.some.inj h
    exact ⟨_, rfl, hbetween ⟨⟨rfl, rfl, rfl⟩, rfl, fun _ _ => rfl⟩ (htight (by simp) (by simp))⟩

theorem parses_link (op : CmpOp) (hl : Parses 10 l tl) (hr : Parses k r tr)
    (hsame : op = .same → 4 < k) :
    Parses level ("(" ++ l ++ " " ++ comparison op ++ " " ++ r ++ ")")
      (.binary (.comparison op) tl tr) := by
  have hbetween : Parses level ("(" ++ l ++ (" " ++ comparison op ++ " ") ++ r ++ ")")
      (.binary (.comparison op) tl tr) :=
    .between (connects_comparison op) hl hr fun h => hsame (by simpa using h)
  simpa [String.append_assoc] using hbetween

theorem parses_pattern (hl : Parses 10 l tl) (negated : Bool) (pattern : String) :
    ∃ sql, Context.patternTest l negated pattern = .text sql ∧
      Parses level sql (.binary (.pattern negated) tl (.string pattern.toList)) :=
  ⟨_, rfl, .between (connects_pattern negated) hl (parses_quote pattern) (k := 4) (by simp)⟩

/-- A negation is looser than the other signs. -/
theorem parses_signed (op : UnaryOp) (h : Parses 10 text t) :
    Parses (Unary.sign op).level (sign op ++ text) (.unary (.sign op) t) := by
  cases op with
  | not =>
    refine h.behind "NOT " (.sign .not) rfl (by decide) (fun frames hframes => ?_) le_rfl
    change some (Reader.mk .want (Frame.push (.sign .not) frames)) = _
    rw [Frame.push_of_admits hframes]
  | neg => exact h.behind "-" (.sign .neg) rfl le_rfl (fun _ _ => rfl) le_rfl
  | pos => exact h.behind "+" (.sign .pos) rfl le_rfl (fun _ _ => rfl) le_rfl
  | invert => exact h.behind "~" (.sign .invert) rfl le_rfl (fun _ _ => rfl) le_rfl

theorem parses_conditional {t b o : String} {tTest tBody tOther : Tree} (ht : Parses 4 t tTest)
    (hb : Parses 4 b tBody) (ho : Parses 4 o tOther) :
    Parses level ("CASE WHEN " ++ t ++ " THEN " ++ b ++ " ELSE " ++ o ++ " END")
      (.choice (.binary (.clause .otherwise) (.binary (.clause .yields) (.unary .test tTest) tBody)
        tOther)) :=
  .ofTemplate _ "CASE WHEN " [(⟨t, 4, tTest⟩, " THEN "), (⟨b, 4, tBody⟩, " ELSE "),
    (⟨o, 4, tOther⟩, " END")] (by simp [Template.parts, Part.text]) rfl
    (by simpa using ⟨ht, hb, ho⟩) fun _ => rfl

/-- The tree of the items of a list. -/
def Tree.row : List Tree → Tree
  | [] => .words ["NULL".toList]
  | t :: ts => .chain .comma t ts

theorem parses_row {texts : List String} {ts : List Tree} (h : List.Forall₂ (Parses 4) texts ts) :
    Parses level ("(" ++ Sql.sequence texts ++ ")") (.row ts) := by
  cases h with
  | nil =>
    have hnull : IsWordText "NULL" := ⟨by decide, by decide⟩
    have hword : Parses 4 "NULL" (.words ["NULL".toList]) := hnull.parses rfl
    exact hword.group
  | cons ht hts => exact .ofSeparated separates_comma (.cons ht hts)

/-- Several conditions in one. -/
theorem parses_connected (op : BoolOp) {texts : List String} {t : Tree} {ts : List Tree}
    (h : List.Forall₂ (Parses 4) texts (t :: ts)) :
    ∃ sql, connected op texts = .text sql ∧ Parses 4 sql (.chain (.connective op) t ts) ∧
      (ts ≠ [] → Parses 10 sql (.chain (.connective op) t ts)) := by
  have hall : ∀ level, Parses level ("(" ++ (" " ++ connective op ++ " ").intercalate texts ++ ")")
      (.chain (.connective op) t ts) := fun _ => .ofSeparated (separates_connective op) h
  cases h with
  | @cons x _ xs _ hx hxs =>
    cases hxs with
    | nil => exact ⟨x, rfl, hx, fun hne => absurd rfl hne⟩
    | cons hy hys => exact ⟨_, rfl, hall 4, fun _ => hall 10⟩

/-- The rows that a question about the elements of an array selects. -/
def Tree.rows (array : Tree) (target : String) : Tree :=
  .binary (.clause .named) (.binary (.clause .source) (.unary .select (.words ["1".toList])) array)
    (.words [target.toList])

/-- The tree of the question whether some element of an array meets conditions. -/
def Tree.existence (array : Tree) (target : String) (conditions : List Tree) : Tree :=
  .call ["EXISTS".toList]
    (match conditions with
      | [] => .rows array target
      | t :: ts => .binary (.clause .filtered) (.rows array target) (.chain (.connective .and) t ts))

/-- What is open behind the array of a question about its elements. -/
theorem pass_array {array : Tree} {text : String} (hs : Template) (frames : List Frame) :
    (Reader.run ⟨.want, frames⟩ (chunksOf "EXISTS (SELECT 1 FROM ")).bind
        (Template.pass · ((⟨text, 10, array⟩, " AS ") :: hs)) =
      Template.pass ⟨.want, .binary (.clause .named)
        (.binary (.clause .source) (.unary .select (.words ["1".toList])) array) ::
          .call ["EXISTS".toList] :: frames⟩ hs := by
  have hchunks : chunksOf "EXISTS (SELECT 1 FROM " = [.word "EXISTS".toList, .mark ' ', .mark '(',
      .word "SELECT".toList, .mark ' ', .word "1".toList, .mark ' ', .word "FROM".toList,
      .mark ' '] := by
    decide
  have hopen : Reader.run ⟨.want, frames⟩ (chunksOf "EXISTS (SELECT 1 FROM ") =
      some ⟨.want, .binary (.clause .source) (.unary .select (.words ["1".toList])) ::
        .call ["EXISTS".toList] :: frames⟩ := by
    rw [hchunks, ← List.singleton_append, Reader.run_append, run_word rfl, Option.bind_some,
      Reader.run, step_blank, Option.bind_some, Reader.run, step_enter]
    rfl
  rw [hopen, Option.bind_some, Template.pass_cons rfl rfl]
  rfl

theorem parses_existence {p : FieldPath} {array : Tree} {target : String}
    (harray : Parses 10 ("json_each(" ++ p.arguments ++ ")") array) (hword : IsWordText target)
    (htarget : IsPlainWord target) {texts : List String} {ts : List Tree}
    (h : List.Forall₂ (Parses 4) texts ts) :
    Parses level (existence p target texts) (.existence array target ts) := by
  have htarget : Parses 10 target (.words [target.toList]) := hword.parses htarget
  unfold existence FieldPath.expansion
  cases h with
  | nil =>
    refine .ofTemplate _ "EXISTS (SELECT 1 FROM "
      [(⟨"json_each(" ++ p.arguments ++ ")", 10, array⟩, " AS "),
        (⟨target, 10, .words [target.toList]⟩, ")")]
      (by simp [Template.parts, Part.text, connected]) rfl (by simpa using ⟨harray, htarget⟩)
      fun frames => ?_
    rw [pass_array, Template.pass_cons (follows_close 10) rfl]
    rfl
  | cons ht hts =>
    obtain ⟨condition, hconnected, hcondition, -⟩ := parses_connected .and (.cons ht hts)
    refine .ofTemplate _ "EXISTS (SELECT 1 FROM "
      [(⟨"json_each(" ++ p.arguments ++ ")", 10, array⟩, " AS "),
        (⟨target, 10, .words [target.toList]⟩, " WHERE "), (⟨condition, 4, _⟩, ")")]
      (by simp [Template.parts, Part.text, hconnected]) rfl
      (by simpa using ⟨harray, htarget, hcondition⟩) fun frames => ?_
    have hwhere : Reader.run ⟨.got (.words [target.toList]), .binary (.clause .named)
        (.binary (.clause .source) (.unary .select (.words ["1".toList])) array) ::
          .call ["EXISTS".toList] :: frames⟩ (chunksOf " WHERE ") =
        some ⟨.want, .binary (.clause .filtered) (.rows array target) ::
          .call ["EXISTS".toList] :: frames⟩ := rfl
    rw [pass_array, Template.pass_cons rfl rfl, hwhere, Option.bind_some,
      Template.pass_cons (follows_close 4) rfl]
    rfl

end Operators

end DocQuery.Sql
