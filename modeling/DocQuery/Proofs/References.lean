import DocQuery.Proofs.Words
import DocQuery.Proofs.Growth

/-! # The documents that a text names

The references to documents in the text of an expression stand, one by one, for the places where the
expression refers to tables. Each is written as its context says: with the name of the table, or alone
if it is the base table's and needs no name.

* `Expr.documents`: the tables that an expression refers to, in the order of its text.
* `Sql.Context.reference`: how a document is named in a context.
* `Sql.Names`: a text names the documents of certain tables, in order.
* `Sql.Gives.names`: the references in the value of an expression.
-/

set_option autoImplicit false

namespace DocQuery

open Token

namespace Sql

/-! ## Names and literals -/

theorem isWordChar_of_isIdentChar {c : Char} (h : isIdentChar c = true) : isWordChar c = true := by
  simp only [isWordChar, Bool.or_eq_true]
  by_cases hc : c.toNat < 128
  · simp only [isIdentChar, Text.isLetter_of_lt hc, Text.isNumeral_of_lt hc, Bool.or_eq_true] at h
    simp only [Char.isAlphanum, Bool.or_eq_true]
    exact .inl (.inl h)
  · exact .inr (by simpa using hc)

theorem isWordText_of_isIdentifier {text : String} (h : IsIdentifier text.toList) :
    IsWordText text := by
  obtain ⟨c, cs, htext, hc, hcs⟩ := h
  refine ⟨?_, ?_⟩
  · rintro rfl
    cases htext
  · rw [htext, List.forall_mem_cons]
    exact ⟨isWordChar_of_isIdentChar (isIdentChar_of_isIdentStart hc),
      fun d hd => isWordChar_of_isIdentChar (hcs d hd)⟩

/-- A word in the text of a literal that is no string. -/
def IsConstantWord (w : String) : Prop :=
  w ∈ ["NULL", "TRUE", "FALSE", "NaN", "inf"] ∨ ∀ c ∈ w.toList, c.isDigit = true

/-- The text of a literal that is no string and has no sign. -/
abbrev IsConstant (text : String) : Prop := Dotted IsConstantWord IsConstantWord text

theorem isWordText_digits {cs : List Char} (h : ∀ c ∈ cs, c.isDigit = true) (hne : cs ≠ []) :
    IsWordText (String.ofList cs) ∧ IsConstantWord (String.ofList cs) := by
  refine ⟨⟨by simpa using hne, fun c hc => ?_⟩, .inr (by simpa using h)⟩
  rw [String.toList_ofList] at hc
  simp [isWordChar, Char.isAlphanum, h c hc]

theorem toString_natCast_eq (n : Nat) : toString (n : Int) = String.ofList (Nat.toDigits 10 n) := by
  rw [← String.ofList_toList (s := toString (n : Int)), toString_natCast]

theorem isConstant_natCast (n : Nat) : IsConstant (toString (n : Int)) := by
  obtain ⟨hword, hconstant⟩ := isWordText_digits (isDigit_toDigits n) Nat.toDigits_ne_nil
  rw [toString_natCast_eq]
  exact .word hword hconstant

/-- Digits with a point between them. -/
theorem isConstant_point {cs ds : List Char} (hcs : ∀ c ∈ cs, c.isDigit = true) (hne : cs ≠ [])
    (hds : ∀ c ∈ ds, c.isDigit = true) (hne' : ds ≠ []) :
    IsConstant (String.ofList cs ++ "." ++ String.ofList ds) := by
  obtain ⟨hword, hconstant⟩ := isWordText_digits hcs hne
  obtain ⟨hword', hconstant'⟩ := isWordText_digits hds hne'
  exact .label (.word hword hconstant) hword' hconstant'

theorem isConstant_digits_positional (d : Decimal.Digits) : IsConstant d.positional := by
  have hdigits := isDigit_toDigits d.digits
  have hne : Nat.toDigits 10 d.digits ≠ [] := Nat.toDigits_ne_nil
  have hzeros : ∀ n, ∀ c ∈ List.replicate n '0', c.isDigit = true := by
    intro n c hc
    rw [List.eq_of_mem_replicate hc]
    decide
  unfold Decimal.Digits.positional
  dsimp only
  generalize Nat.toDigits 10 d.digits = ds at hdigits hne
  split
  · have htext : String.ofList ds ++ Decimal.zeros d.exponent.toNat ++ ".0" =
        String.ofList (ds ++ List.replicate d.exponent.toNat '0') ++ "." ++ String.ofList ['0'] := by
      have hpoint : "." ++ String.ofList ['0'] = ".0" := by decide
      rw [String.ofList_append, Decimal.zeros, ← hpoint, ← String.append_assoc]
    rw [htext]
    refine isConstant_point ?_ (by simp [hne]) (by decide) (by simp)
    intro c hc
    exact (List.mem_append.1 hc).elim (hdigits c) (hzeros _ c)
  · split
    · refine isConstant_point (fun c hc => hdigits c (List.mem_of_mem_take hc)) ?_
        (fun c hc => hdigits c (List.mem_of_mem_drop hc)) ?_
      · simp only [ne_eq, List.take_eq_nil_iff, not_or]
        exact ⟨by omega, hne⟩
      · rw [ne_eq, List.drop_eq_nil_iff]
        omega
    · have htext : ∀ n, "0." ++ Decimal.zeros n ++ String.ofList ds =
          String.ofList ['0'] ++ "." ++ String.ofList (List.replicate n '0' ++ ds) := by
        intro n
        rw [String.ofList_append, Decimal.zeros, ← String.append_assoc]
        rfl
      rw [htext]
      refine isConstant_point (by decide) (by simp) ?_ (by simp [hne])
      intro c hc
      exact (List.mem_append.1 hc).elim (hzeros _ c) (hdigits c)

/-- The text of a number has a sign or none. -/
theorem isConstant_positional (x : Float) : IsConstant (Decimal.positional x) ∨
    ∃ text, Decimal.positional x = "-" ++ text ∧ IsConstant text := by
  have hmagnitude : ∀ (m : Nat) (e : Int),
      IsConstant (if m = 0 then "0.0" else (Decimal.shortest .up m e).positional) := by
    intro m e
    split
    · have hzero : ∀ c ∈ ['0'], c.isDigit = true := by decide
      have htext : "0.0" = String.ofList ['0'] ++ "." ++ String.ofList ['0'] := by decide
      rw [htext]
      exact isConstant_point hzero (by simp) hzero (by simp)
    · exact isConstant_digits_positional _
  have hinf : IsConstant "inf" := .word ⟨by decide, by decide⟩ (.inl (by simp))
  unfold Decimal.positional
  split
  · exact .inl (.word ⟨by decide, by decide⟩ (.inl (by simp)))
  · split
    · exact .inr ⟨"inf", rfl, hinf⟩
    · exact .inl hinf
  · rename_i negative m e _
    split
    · exact .inr ⟨_, rfl, hmagnitude m e⟩
    · exact .inl (by simpa using hmagnitude m e)

/-- The text of a literal is a string, or a constant with a sign or without. -/
theorem sql_literal (l : Literal) :
    (∃ s, l.sql = quote s) ∨ IsConstant l.sql ∨ ∃ text, l.sql = "-" ++ text ∧ IsConstant text := by
  cases l with
  | none => exact .inr (.inl (.word ⟨by decide, by decide⟩ (.inl (by decide))))
  | bool b =>
    cases b with
    | true => exact .inr (.inl (.word ⟨by decide, by decide⟩ (.inl (by decide))))
    | false => exact .inr (.inl (.word ⟨by decide, by decide⟩ (.inl (by decide))))
  | int n =>
    cases n with
    | ofNat n => exact .inr (.inl (isConstant_natCast n))
    | negSucc n => exact .inr (.inr ⟨toString ((n + 1 : Nat) : Int), rfl, isConstant_natCast (n + 1)⟩)
  | float x => exact .inr (isConstant_positional x)
  | str s => exact .inl ⟨s, rfl⟩

theorem ne_document_of_isConstantWord {w : String} (h : IsConstantWord w) : w ≠ documentColumn := by
  rintro rfl
  rcases h with h | h
  · exact absurd h (by decide)
  · exact absurd (h '_' (by decide)) (by decide)

theorem IsConstant.readable {text : String} (h : IsConstant text) :
    Readable text ∧ references text = [] :=
  (h.mono (fun _ => ne_document_of_isConstantWord) fun _ => ne_document_of_isConstantWord).readable

/-- A sign in front of a text. -/
theorem Readable.minus {text : String} (h : Readable text) :
    Readable ("-" ++ text) ∧ references ("-" ++ text) = references text := by
  obtain ⟨hall, hsum⟩ := Readable.ofParts ("-" ++ text) [.word "-", .hole text] (by simp [Part.text])
    rfl (by simp [h])
  exact ⟨hall, by simpa [Part.references] using hsum⟩

theorem readable_literal (l : Literal) : Readable l.sql ∧ references l.sql = [] := by
  rcases sql_literal l with ⟨s, hs⟩ | h | ⟨text, htext, h⟩
  · rw [hs]
    exact readable_quote s
  · exact h.readable
  · obtain ⟨hreadable, hreferences⟩ := h.readable.1.minus
    rw [htext]
    exact ⟨hreadable, hreferences.trans h.readable.2⟩

/-! ## Paths -/

/-- How the document of a table is named. -/
def Context.reference (c : Context) (table : String) : Reference :=
  if c.qualify || table != c.base then .of table else .bare

theorem readable_table {name : String} (h : IsWordText name) (hne : name ≠ documentColumn)
    (qualified : Bool) : Readable (Root.table name qualified).document ∧
      references (Root.table name qualified).document = [if qualified then .of name else .bare] := by
  have hcolumn : IsWordText documentColumn := ⟨by decide, by decide⟩
  cases qualified with
  | true => exact h.document hne
  | false =>
    refine ⟨hcolumn.readable, ?_⟩
    change references documentColumn = [.bare]
    decide

theorem readable_element {target : String} (h : IsWordText target) (hne : target ≠ documentColumn) :
    Readable (Root.element target).document ∧ references (Root.element target).document = [] := by
  have hvalue : IsWordText "value" := ⟨by decide, by decide⟩
  have htext : target ++ ".value" = target ++ "." ++ "value" := by
    rw [String.append_assoc]
    rfl
  obtain ⟨hall, hsum⟩ := h.readable.attribute hvalue (by decide)
  change Readable (target ++ ".value") ∧ references (target ++ ".value") = []
  rw [htext]
  exact ⟨hall, hsum.trans (h.no_references hne)⟩

section Paths

variable {p : FieldPath} (h : Readable p.root.document)

include h

theorem readable_arguments :
    Readable p.arguments ∧ references p.arguments = references p.root.document := by
  unfold FieldPath.arguments
  split
  · exact ⟨h, rfl⟩
  · obtain ⟨hquote, hnone⟩ := readable_quote p.jsonPath
    obtain ⟨hall, hsum⟩ := Readable.ofParts (p.root.document ++ ", " ++ quote p.jsonPath)
      [.hole p.root.document, .word ", ", .hole (quote p.jsonPath)] (by simp [Part.text]) rfl
      (by simp [h, hquote])
    exact ⟨hall, by simpa [Part.references, hnone] using hsum⟩

theorem readable_field : Readable p.field ∧ references p.field = references p.root.document := by
  obtain ⟨harguments, hreferences⟩ := readable_arguments h
  unfold FieldPath.field
  split
  · exact ⟨h, rfl⟩
  · obtain ⟨hall, hsum⟩ := Readable.ofParts ("json_extract(" ++ p.arguments ++ ")")
      [.word "json_extract(", .hole p.arguments, .word ")"] (by simp [Part.text]) rfl
      (by simp [harguments])
    exact ⟨hall, by simpa [Part.references, hreferences] using hsum⟩

theorem readable_length : Readable p.length ∧ references p.length = references p.root.document := by
  obtain ⟨harguments, hreferences⟩ := readable_arguments h
  unfold FieldPath.length
  obtain ⟨hall, hsum⟩ := Readable.ofParts ("json_array_length(" ++ p.arguments ++ ")")
    [.word "json_array_length(", .hole p.arguments, .word ")"] (by simp [Part.text]) rfl
    (by simp [harguments])
  exact ⟨hall, by simpa [Part.references, hreferences] using hsum⟩

theorem readable_expansion {target : String} (ht : IsWordText target) (hne : target ≠ documentColumn) :
    Readable (p.expansion target) ∧ references (p.expansion target) = references p.root.document := by
  obtain ⟨harguments, hreferences⟩ := readable_arguments h
  unfold FieldPath.expansion
  obtain ⟨hall, hsum⟩ := Readable.ofParts ("json_each(" ++ p.arguments ++ ") AS " ++ target)
    [.word "json_each(", .hole p.arguments, .word ") AS ", .hole target] (by simp [Part.text]) rfl
    (by simp [harguments, ht.readable])
  exact ⟨hall, by simpa [Part.references, hreferences, ht.no_references hne] using hsum⟩

end Paths

/-! ## Texts of operations -/

/-- Lists behind each other, each with the next one beside it: all but the first and the last of them
stand there twice. -/
def neighbours {α : Type} : List α → List (List α) → List α
  | _, [] => []
  | xs, ys :: rest => xs ++ ys ++ neighbours ys rest

section Operations

variable {l r sql : String} {texts : List String}

theorem readable_infix (hl : Readable l) (hr : Readable r) {op : String} (hop : Part.spaced
    [.word "(", .hole l, .word " ", .word op, .word " ", .hole r, .word ")"] = true) :
    Readable ("(" ++ l ++ " " ++ op ++ " " ++ r ++ ")") ∧
      references ("(" ++ l ++ " " ++ op ++ " " ++ r ++ ")") = references l ++ references r := by
  obtain ⟨hall, hsum⟩ := Readable.ofParts ("(" ++ l ++ " " ++ op ++ " " ++ r ++ ")")
    [.word "(", .hole l, .word " ", .word op, .word " ", .hole r, .word ")"] (by simp [Part.text]) hop
    (by simp [hl, hr])
  exact ⟨hall, by simpa [Part.references] using hsum⟩

theorem readable_arithmetic {op : BinaryOp} (hl : Readable l) (hr : Readable r)
    (h : arithmetic? op l r = some sql) :
    Readable sql ∧ references sql = if op = .bitXor
      then references l ++ references r ++ (references l ++ references r)
      else references l ++ references r := by
  have hop : Part.spaced [.word "(", .hole l, .word " ", .word op.symbol, .word " ", .hole r,
      .word ")"] = true := by cases op <;> rfl
  have hbetween := readable_infix hl hr hop
  cases op with
  | pow =>
    obtain rfl := Option.some.inj h
    obtain ⟨hall, hsum⟩ := Readable.ofParts ("POW(" ++ l ++ ", " ++ r ++ ")")
      [.word "POW(", .hole l, .word ", ", .hole r, .word ")"] (by simp [Part.text]) rfl
      (by simp [hl, hr])
    exact ⟨hall, by simp [hsum, Part.references]⟩
  | floorDiv =>
    obtain rfl := Option.some.inj h
    obtain ⟨hall, hsum⟩ := Readable.ofParts ("CAST((" ++ l ++ ") / (" ++ r ++ ") AS INTEGER)")
      [.word "CAST((", .hole l, .word ") / (", .hole r, .word ") AS INTEGER)"] (by simp [Part.text])
      rfl (by simp [hl, hr])
    exact ⟨hall, by simp [hsum, Part.references]⟩
  | bitXor =>
    obtain rfl := Option.some.inj h
    obtain ⟨hall, hsum⟩ := Readable.ofParts
      ("((" ++ l ++ " | " ++ r ++ ") - (" ++ l ++ " & " ++ r ++ "))")
      [.word "((", .hole l, .word " | ", .hole r, .word ") - (", .hole l, .word " & ", .hole r,
        .word "))"] (by simp [Part.text]) rfl (by simp [hl, hr])
    exact ⟨hall, by simp [hsum, Part.references]⟩
  | matMul => cases h
  | _ =>
    obtain rfl := Option.some.inj h
    exact hbetween

theorem readable_enclosed (hl : Readable l) :
    Readable ("(" ++ l ++ ")") ∧ references ("(" ++ l ++ ")") = references l := by
  obtain ⟨hall, hsum⟩ := Readable.ofParts ("(" ++ l ++ ")") [.word "(", .hole l, .word ")"]
    (by simp [Part.text]) rfl (by simp [hl])
  exact ⟨hall, by simpa [Part.references] using hsum⟩

theorem readable_commaJoined (h : ∀ t ∈ texts, Readable t) :
    Readable (commaJoined texts) ∧ references (commaJoined texts) = texts.flatMap references :=
  readable_intercalate ⟨rfl, rfl, rfl⟩ h

theorem readable_sequence (h : ∀ t ∈ texts, Readable t) :
    Readable (Sql.sequence texts) ∧ references (Sql.sequence texts) = texts.flatMap references := by
  cases texts with
  | nil => exact readable_literal .none
  | cons t texts => exact readable_commaJoined h

theorem readable_patternTest (hl : Readable l) (negated : Bool) (pattern : String) :
    ∃ sql, Context.patternTest l negated pattern = .text sql ∧ Readable sql ∧
      references sql = references l := by
  obtain ⟨hquote, hnone⟩ := readable_quote pattern
  obtain ⟨hall, hsum⟩ := Readable.ofParts
    ("(" ++ l ++ (if negated then " NOT LIKE " else " LIKE ") ++ quote pattern ++ ")")
    [.word "(", .hole l, .word (if negated then " NOT LIKE " else " LIKE "), .hole (quote pattern),
      .word ")"] (by simp [Part.text]) (by cases negated <;> rfl) (by simp [hl, hquote])
  exact ⟨_, rfl, hall, by simpa [Part.references, hnone] using hsum⟩

theorem readable_listTest (hl : Readable l) (op : CmpOp) (h : ∀ t ∈ texts, Readable t) :
    ∃ sql, Context.listTest l op texts = .text sql ∧ Readable sql ∧
      references sql = references l ++ texts.flatMap references := by
  obtain ⟨hsequence, hitems⟩ := readable_sequence h
  obtain ⟨hall, hsum⟩ := Readable.ofParts
    ("(" ++ l ++ " " ++ comparison op ++ " (" ++ Sql.sequence texts ++ "))")
    [.word "(", .hole l, .word " ", .word (comparison op), .word " (", .hole (Sql.sequence texts),
      .word "))"] (by simp [Part.text]) (by cases op <;> rfl) (by simp [hl, hsequence])
  exact ⟨_, rfl, hall, by simpa [Part.references, hitems] using hsum⟩

theorem readable_conditional {t b o : String} (ht : Readable t) (hb : Readable b) (ho : Readable o) :
    Readable ("CASE WHEN " ++ t ++ " THEN " ++ b ++ " ELSE " ++ o ++ " END") ∧
      references ("CASE WHEN " ++ t ++ " THEN " ++ b ++ " ELSE " ++ o ++ " END") =
        references t ++ references b ++ references o := by
  obtain ⟨hall, hsum⟩ := Readable.ofParts
    ("CASE WHEN " ++ t ++ " THEN " ++ b ++ " ELSE " ++ o ++ " END")
    [.word "CASE WHEN ", .hole t, .word " THEN ", .hole b, .word " ELSE ", .hole o, .word " END"]
    (by simp [Part.text]) rfl (by simp [ht, hb, ho])
  exact ⟨hall, by simpa [Part.references] using hsum⟩

theorem readable_chained (h : ∀ t ∈ texts, Readable t) :
    Readable (chained texts) ∧ references (chained texts) = texts.flatMap references := by
  have hsep : (Part.word " AND ").isFixed = true ∧ (Part.word " AND ").opens = true ∧
      (Part.word " AND ").stops = true := ⟨rfl, rfl, rfl⟩
  obtain ⟨hall, hsum⟩ := readable_intercalate hsep h
  obtain ⟨henclosed, hreferences⟩ := readable_enclosed hall
  rw [chained.eq_def]
  split
  · simpa using h
  · exact ⟨henclosed, hreferences.trans hsum⟩

/-- Each operand of a chain of comparisons but the first and the last stands in two links. -/
theorem readable_linkTexts {first : String} (hfirst : Readable first) {links : List (CmpOp × Piece)}
    (hlinks : ∀ l ∈ links, Readable l.2.sql) :
    (∀ t ∈ linkTexts first links, Readable t) ∧ (linkTexts first links).flatMap references =
      neighbours (references first) (links.map fun l => references l.2.sql) := by
  induction links generalizing first with
  | nil => exact ⟨by simp [linkTexts], rfl⟩
  | cons l links ih =>
    obtain ⟨op, p⟩ := l
    obtain ⟨hp, hlinks⟩ := List.forall_mem_cons.1 hlinks
    obtain ⟨hrest, hsum⟩ := ih hp hlinks
    have hop : Part.spaced [.word "(", .hole first, .word " ", .word (comparison op), .word " ",
        .hole p.sql, .word ")"] = true := by cases op <;> rfl
    obtain ⟨hlink, hreferences⟩ := readable_infix hfirst hp hop
    refine ⟨List.forall_mem_cons.2 ⟨hlink, hrest⟩, ?_⟩
    rw [linkTexts, List.flatMap_cons, hreferences, hsum]
    rfl

theorem readable_connected (op : BoolOp) (h : ∀ t ∈ texts, Readable t) :
    (texts = [] ∧ connected op texts = .satisfied) ∨ ∃ sql, connected op texts = .text sql ∧
      Readable sql ∧ references sql = texts.flatMap references := by
  have hsep : (Part.word (" " ++ connective op ++ " ")).isFixed = true ∧
      (Part.word (" " ++ connective op ++ " ")).opens = true ∧
      (Part.word (" " ++ connective op ++ " ")).stops = true := by
    cases op <;> exact ⟨rfl, rfl, rfl⟩
  obtain ⟨hall, hsum⟩ := readable_intercalate hsep h
  obtain ⟨henclosed, hreferences⟩ := readable_enclosed hall
  rcases texts with _ | ⟨x, _ | ⟨y, rest⟩⟩
  · exact .inl ⟨rfl, rfl⟩
  · exact .inr ⟨x, rfl, h x List.mem_cons_self, by simp⟩
  · exact .inr ⟨_, rfl, henclosed, hreferences.trans hsum⟩

theorem readable_existence {array : FieldPath} {target : String}
    (harray : Readable array.root.document) (ht : IsWordText target)
    (hne : target ≠ documentColumn) (h : ∀ t ∈ texts, Readable t) :
    Readable (existence array target texts) ∧ references (existence array target texts) =
      references array.root.document ++ texts.flatMap references := by
  obtain ⟨hexpansion, hdocument⟩ := readable_expansion harray ht hne
  rcases readable_connected .and h with ⟨rfl, hnone⟩ | ⟨condition, hc, hcondition, hreferences⟩
  · have htext : existence array target [] =
        "EXISTS (SELECT 1 FROM " ++ array.expansion target ++ "" ++ ")" := by
      unfold existence
      rw [hnone]
    obtain ⟨hall, hsum⟩ := Readable.ofParts (existence array target [])
      [.word "EXISTS (SELECT 1 FROM ", .hole (array.expansion target), .word ")"]
      (by simp [htext, Part.text]) rfl (by simp [hexpansion])
    exact ⟨hall, by simpa [Part.references, hdocument] using hsum⟩
  · have htext : existence array target texts =
        "EXISTS (SELECT 1 FROM " ++ array.expansion target ++ (" WHERE " ++ condition) ++ ")" := by
      unfold existence
      rw [hc]
    obtain ⟨hall, hsum⟩ := Readable.ofParts (existence array target texts)
      [.word "EXISTS (SELECT 1 FROM ", .hole (array.expansion target), .word " WHERE ",
        .hole condition, .word ")"] (by simp [htext, Part.text]) rfl (by simp [hexpansion, hcondition])
    exact ⟨hall, by simpa [Part.references, hdocument, hreferences] using hsum⟩

end Operations

/-! ## Values -/

/-- The texts in a value are readable. -/
def Value.Readable (c : Context) : Value → Prop
  | text sql => Sql.Readable sql
  | path p => Sql.Readable p.root.document
  | bound _ => True
  | table name => Sql.Readable (c.rootOf name).document
  | sequence items => ∀ i ∈ items, Sql.Readable i
  | satisfied => True

def Value.references (c : Context) : Value → List Reference
  | text sql => Sql.references sql
  | path p => Sql.references p.root.document
  | bound _ => []
  | table name => Sql.references (c.rootOf name).document
  | sequence items => items.flatMap Sql.references
  | satisfied => []

section Values

variable {c : Context} {e : Expr} {v w : Value} {sql : String}

theorem readable_sqlOf (hv : v.Readable c) (h : c.sqlOf e v = .ok sql) :
    Readable sql ∧ references sql = v.references c := by
  cases v with
  | text s =>
    cases h
    exact ⟨hv, rfl⟩
  | path p =>
    cases h
    exact readable_field hv
  | bound value =>
    cases value with
    | constant l =>
      cases h
      exact readable_literal l
    | holder name members => cases h
  | table name =>
    cases h
    exact ⟨hv, rfl⟩
  | sequence items =>
    cases h
    obtain ⟨hall, hsum⟩ := readable_sequence hv
    obtain ⟨henclosed, hreferences⟩ := readable_enclosed hall
    exact ⟨henclosed, hreferences.trans hsum⟩
  | satisfied =>
    cases h
    exact readable_literal (.bool true)

theorem readable_named {id : String} (h : IsWordText id) (hne : id ≠ documentColumn) :
    (c.named id).Readable c ∧ (c.named id).references c =
      match c.scope.resolve id with
      | .table => [c.reference id]
      | _ => [] := by
  unfold Context.named
  cases hresolved : c.scope.resolve id with
  | element => exact readable_element h hne
  | bound value => exact ⟨trivial, rfl⟩
  | table => exact readable_table h hne _
  | unbound => exact ⟨h.readable, h.no_references hne⟩

theorem readable_attributeOf {whole : Expr} {label : String} (hlabel : IsWordText label)
    (hne : label ≠ documentColumn) (hv : v.Readable c) (h : c.attributeOf whole label v = .ok w) :
    w.Readable c ∧ w.references c = v.references c := by
  cases v with
  | text s =>
    cases h
    replace hv : Sql.Readable s := hv
    exact hv.attribute hlabel hne
  | path p =>
    cases h
    exact ⟨hv, rfl⟩
  | bound value =>
    simp only [Context.attributeOf] at h
    split at h
    · cases h
      exact ⟨trivial, rfl⟩
    · cases h
  | table name =>
    cases h
    exact ⟨hv, rfl⟩
  | sequence items => cases h
  | satisfied => cases h

end Values

end Sql

/-! ## Names and tables in expressions -/

namespace Expr

/-- The names that a node itself has. -/
def ownNames : Expr → List String
  | name id => [id]
  | attr _ label => [label]
  | listComp _ clauses => clauses.map (·.target)
  | generator _ clauses => clauses.map (·.target)
  | _ => []

/-- No name, attribute or variable in the expression is called so. -/
def Avoids (e : Expr) (id : String) : Prop := ∀ x ∈ e.nodes, id ∉ x.ownNames

instance (e : Expr) (id : String) : Decidable (e.Avoids id) :=
  inferInstanceAs (Decidable (∀ x ∈ e.nodes, id ∉ x.ownNames))

mutual

/-- The tables whose documents the text of an expression names, in the order of the text. An exclusive
disjunction has both operands twice, and a chain of comparisons has its inner operands twice. Inside the
conditions on the elements of an array, the variable hides a table of the same name. -/
def documents (s : Scope) : Expr → List String
  | name id =>
    match s.resolve id with
    | .table => [id]
    | _ => []
  | attr value _ => documents s value
  | subscript value _ => documents s value
  | binary left op right =>
    let both := documents s left ++ documents s right
    if op = .bitXor then both ++ both else both
  | unary _ operand => documents s operand
  | compare left _ operands => Sql.neighbours (documents s left) (documentsOfEach s operands)
  | boolean _ operands => (documentsOfEach s operands).flatten
  | conditional test body otherwise => documents s test ++ documents s body ++ documents s otherwise
  | call (attr value _) _ _ => documents s value
  | call _ args _ => (documentsOfEach s args).flatten
  | list items => (documentsOfEach s items).flatten
  | tuple items => (documentsOfEach s items).flatten
  | listComp element [⟨target, array, filters⟩] | generator element [⟨target, array, filters⟩] =>
    let inside := { s with iteration := some target }
    documents s array ++ ((if element.asName? = some target then [] else documents inside element) ++
      (documentsOfEach inside filters).flatten)
  | _ => []
termination_by structural e => e

def documentsOfEach (s : Scope) : List Expr → List (List String)
  | [] => []
  | e :: es => documents s e :: documentsOfEach s es
termination_by structural es => es

end

theorem documentsOfEach_eq (s : Scope) (es : List Expr) : documentsOfEach s es = es.map (documents s) := by
  induction es with
  | nil => rfl
  | cons e es ih => rw [documentsOfEach, ih, List.map_cons]

theorem flatten_documentsOfEach (s : Scope) (es : List Expr) :
    (documentsOfEach s es).flatten = es.flatMap (documents s) := by
  rw [documentsOfEach_eq, List.flatMap_def]

theorem documents_comprehension (s : Scope) {e element array : Expr} {target : String}
    {filters : List Expr} (h : e.comprehensionParts? = some (element, [⟨target, array, filters⟩])) :
    e.documents s = array.documents s ++ (elementConditions target element filters).flatMap
      (documents { s with iteration := some target }) := by
  have hconditions : (elementConditions target element filters).flatMap
      (documents { s with iteration := some target }) =
        (if element.asName? = some target then []
          else documents { s with iteration := some target } element) ++
        (documentsOfEach { s with iteration := some target } filters).flatten := by
    rw [elementConditions, flatten_documentsOfEach]
    split <;> simp
  obtain rfl | rfl := comprehensionParts_cases h
  · rw [hconditions, documents]
  · rw [hconditions, documents]

theorem documents_single (s : Scope) (left right : Expr) (ops : List CmpOp) :
    (compare left ops [right]).documents s = left.documents s ++ right.documents s := by
  simp [documents, documentsOfEach, Sql.neighbours]

theorem documents_call (s : Scope) (id : String) (e : Expr) (keywords : List (Keyword Expr)) :
    (call (name id) [e] keywords).documents s = e.documents s := by
  simp [documents, documentsOfEach]

theorem documents_listed (s : Scope) {e : Expr} {items : List Expr} (h : Sql.listed? e = some items) :
    e.documents s = items.flatMap (documents s) := by
  obtain rfl | rfl | ⟨rfl, rfl⟩ := Sql.listed_cases h
  · rw [documents, flatten_documentsOfEach]
  · rw [documents, flatten_documentsOfEach]
  · rfl

variable {e p x : Expr} {id : String}

theorem mem_nodesOfClauses_source {clauses : List (Clause Expr)} {k : Clause Expr} (hk : k ∈ clauses)
    (hx : x ∈ k.source.nodes) : x ∈ nodesOfClauses clauses := by
  induction clauses with
  | nil => cases hk
  | cons k' clauses ih =>
    rw [nodesOfClauses, List.mem_append, List.mem_append]
    obtain rfl | hk := List.mem_cons.1 hk
    · exact .inl (.inl hx)
    · exact .inr (ih hk)

theorem mem_nodes_of_clause {element : Expr} {clauses : List (Clause Expr)}
    (he : e.comprehensionParts? = some (element, clauses))
    (hx : x ∈ element.nodes ∨ x ∈ nodesOfClauses clauses) : x ∈ e.nodes := by
  obtain rfl | rfl := comprehensionParts_cases he
  · simpa [nodes] using .inr hx
  · simpa [nodes] using .inr hx

theorem mem_nodes_of_condition {element array : Expr} {target : String} {filters : List Expr}
    (he : e.comprehensionParts? = some (element, [⟨target, array, filters⟩]))
    (hp : p ∈ elementConditions target element filters) (hx : x ∈ p.nodes) : x ∈ e.nodes := by
  have hfilter : p ∈ filters → x ∈ nodesOfClauses [⟨target, array, filters⟩] := by
    intro hp
    simp only [nodesOfClauses, List.mem_append, mem_nodesOfAll]
    exact .inl (.inr ⟨p, hp, hx⟩)
  refine mem_nodes_of_clause he ?_
  rw [elementConditions] at hp
  split at hp
  · exact .inr (hfilter hp)
  · obtain rfl | hp := List.mem_cons.1 hp
    · exact .inl hx
    · exact .inr (hfilter hp)

theorem mem_nodes_of_ownParts (hp : p ∈ e.ownParts) (hx : x ∈ p.nodes) : x ∈ e.nodes := by
  rw [ownParts.eq_def] at hp
  split at hp
  case h_9 callee args keywords _ =>
    obtain ⟨a, ha, hp⟩ := List.mem_flatMap.1 hp
    have hxa : x ∈ a.nodes := by
      split at hp
      · rename_i clauses hparts
        obtain ⟨k, hk, rfl⟩ := List.mem_map.1 hp
        exact mem_nodes_of_clause hparts (.inr (mem_nodesOfClauses_source hk hx))
      · cases List.mem_singleton.1 hp
        exact hx
    simp only [nodes, List.mem_cons, List.mem_append, mem_nodesOfAll]
    exact .inr (.inl (.inr ⟨a, ha, hxa⟩))
  all_goals grind [nodes, mem_nodesOfAll]

theorem Avoids.part (h : e.Avoids id) (hp : p ∈ e.ownParts) : p.Avoids id :=
  fun x hx => h x (mem_nodes_of_ownParts hp hx)

theorem Avoids.name {other : String} (h : (name other).Avoids id) : other ≠ id := by
  rintro rfl
  exact h _ (mem_nodes_self _) (by simp [ownNames])

theorem Avoids.label {value : Expr} {label : String} (h : (attr value label).Avoids id) :
    label ≠ id := by
  rintro rfl
  exact h _ (mem_nodes_self _) (by simp [ownNames])

theorem Avoids.listed {items : List Expr} (h : e.Avoids id) (hlist : Sql.listed? e = some items)
    (hp : p ∈ items) : p.Avoids id := by
  obtain rfl | rfl | ⟨-, rfl⟩ := Sql.listed_cases hlist
  · exact h.part hp
  · exact h.part hp
  · cases hp

/-- The names in the conditions on the elements of an array. -/
theorem Avoids.condition {element array : Expr} {target : String} {filters : List Expr}
    (h : (Expr.call (.name quantifierName) [e] []).Avoids id)
    (he : e.comprehensionParts? = some (element, [⟨target, array, filters⟩])) :
    target ≠ id ∧ ∀ p ∈ elementConditions target element filters, p.Avoids id := by
  have hnodes : ∀ x ∈ e.nodes, id ∉ x.ownNames := by
    intro x hx
    refine h x ?_
    simp only [nodes, nodesOfAll, List.mem_cons, List.mem_append]
    exact .inr (.inl (.inr (.inl hx)))
  refine ⟨?_, fun p hp x hx => hnodes x (mem_nodes_of_condition he hp hx)⟩
  rintro rfl
  refine hnodes e (mem_nodes_self e) ?_
  obtain rfl | rfl := comprehensionParts_cases he <;> simp [ownNames]

end Expr

namespace Sql

/-! ## Expressions -/

/-- The references are those to the documents of the tables, one by one, all of them known. Where a test
is guaranteed, some may be missing. -/
structure Covers (c : Context) (ts : List String) (refs : List Reference) : Prop where
  known : ∀ ref ∈ refs, ∃ t, c.scope.tables.contains t = true ∧ ref = c.reference t
  complete : c.guaranteed = none → refs = ts.map c.reference

/-- The text is readable and names the documents of the tables. -/
structure Names (c : Context) (ts : List String) (text : String) : Prop where
  readable : Readable text
  covers : Covers c ts (references text)

/-- The texts in the value are readable and name the documents of the tables. -/
structure Value.Names (c : Context) (ts : List String) (v : Value) : Prop where
  readable : v.Readable c
  covers : Covers c ts (v.references c)

/-- The text of a piece names the documents that its expression refers to. -/
def Piece.Named (c : Context) (p : Piece) : Prop := Names c (p.expr.documents c.scope) p.sql

section Covers

variable {c : Context} {ts us : List String} {refs rs : List Reference}

theorem covers_nil : Covers c [] [] := ⟨by simp, fun _ => rfl⟩

theorem Covers.append (h : Covers c ts refs) (h' : Covers c us rs) : Covers c (ts ++ us) (refs ++ rs) where
  known ref href := (List.mem_append.1 href).elim (h.known ref) (h'.known ref)
  complete hc := by rw [List.map_append, h.complete hc, h'.complete hc]

variable {α : Type} {f : α → List String} {g : α → List Reference} {xs : List α}

theorem Covers.flatMap (h : ∀ x ∈ xs, Covers c (f x) (g x)) : Covers c (xs.flatMap f) (xs.flatMap g) := by
  induction xs with
  | nil => exact covers_nil
  | cons x xs ih =>
    obtain ⟨hx, hxs⟩ := List.forall_mem_cons.1 h
    exact hx.append (ih hxs)

theorem Covers.neighbours (hfirst : Covers c ts refs) (h : ∀ x ∈ xs, Covers c (f x) (g x)) :
    Covers c (Sql.neighbours ts (xs.map f)) (Sql.neighbours refs (xs.map g)) := by
  induction xs generalizing ts refs with
  | nil => exact covers_nil
  | cons x xs ih =>
    obtain ⟨hx, hxs⟩ := List.forall_mem_cons.1 h
    exact (hfirst.append hx).append (ih hx hxs)

end Covers

section Names

variable {c : Context} {e : Expr} {v : Value} {ts us : List String} {l r sql : String} {ps : List Piece}

theorem Names.congr {text text' : String} (h : Names c ts text)
    (hall : Readable text' ∧ references text' = references text) : Names c ts text' :=
  ⟨hall.1, hall.2 ▸ h.covers⟩

theorem Names.value (h : Names c ts sql) : (Value.text sql).Names c ts := ⟨h.readable, h.covers⟩

theorem Value.Names.of_sqlOf (h : v.Names c ts) (hsql : c.sqlOf e v = .ok sql) : Sql.Names c ts sql := by
  obtain ⟨hreadable, hreferences⟩ := readable_sqlOf h.readable hsql
  exact ⟨hreadable, hreferences ▸ h.covers⟩

theorem names_literal (l : Literal) : Names c [] l.sql := by
  obtain ⟨hreadable, hnone⟩ := readable_literal l
  exact ⟨hreadable, hnone ▸ covers_nil⟩

/-- A test is satisfied only where one is guaranteed. -/
theorem names_satisfied (hc : c.guaranteed ≠ none) : Value.satisfied.Names c ts :=
  ⟨trivial, by simp [Value.references], fun h => absurd h hc⟩

theorem names_named {id : String} (h : IsWordText id) (hne : id ≠ documentColumn) :
    (c.named id).Names c ((Expr.name id).documents c.scope) := by
  obtain ⟨hreadable, hreferences⟩ := readable_named (c := c) h hne
  refine ⟨hreadable, ?_⟩
  rw [hreferences, Expr.documents]
  cases hresolve : c.scope.resolve id with
  | table => exact ⟨by simpa using ⟨id, Scope.contains_of_resolve hresolve, rfl⟩, fun _ => rfl⟩
  | _ => exact covers_nil

theorem names_arithmetic {op : BinaryOp} (hl : Names c ts l) (hr : Names c us r)
    (h : arithmetic? op l r = some sql) :
    Names c (if op = .bitXor then ts ++ us ++ (ts ++ us) else ts ++ us) sql := by
  obtain ⟨hreadable, hreferences⟩ := readable_arithmetic hl.readable hr.readable h
  refine ⟨hreadable, ?_⟩
  have hboth := hl.covers.append hr.covers
  rw [hreferences]
  split
  · exact hboth.append hboth
  · exact hboth

theorem names_negative {e : Expr} (h : e.isNumber = true) :
    (Value.text ("-" ++ numberSql e)).Names c (e.documents c.scope) := by
  cases e with
  | literal l => exact ((names_literal l).congr (names_literal (c := c) l).readable.minus).value
  | _ => cases h

theorem names_not (h : Names c ts sql) : Names c ts ("NOT " ++ sql) := by
  obtain ⟨hall, hsum⟩ := Readable.ofParts ("NOT " ++ sql) [.word "NOT ", .hole sql]
    (by simp [Part.text]) rfl (by simp [h.readable])
  exact h.congr ⟨hall, by simpa [Part.references] using hsum⟩

theorem names_signed (h : Names c ts sql) (op : UnaryOp) : Names c ts (sign op ++ "(" ++ sql ++ ")") := by
  obtain ⟨hall, hsum⟩ := Readable.ofParts (sign op ++ "(" ++ sql ++ ")")
    [.word (sign op), .word "(", .hole sql, .word ")"] (by simp [Part.text]) (by cases op <;> rfl)
    (by simp [h.readable])
  exact h.congr ⟨hall, by simpa [Part.references] using hsum⟩

theorem names_patternTest (h : Names c ts l) (negated : Bool) (pattern : String) :
    (Context.patternTest l negated pattern).Names c ts := by
  obtain ⟨sql, heq, hreadable, hreferences⟩ := readable_patternTest h.readable negated pattern
  rw [heq]
  exact (h.congr ⟨hreadable, hreferences⟩).value

theorem names_listTest (hl : Names c ts l) (op : CmpOp) (h : ∀ p ∈ ps, p.Named c) :
    (Context.listTest l op (ps.map (·.sql))).Names c
      (ts ++ ps.flatMap fun p => p.expr.documents c.scope) := by
  obtain ⟨sql, heq, hreadable, hreferences⟩ := readable_listTest hl.readable op
    (List.forall_mem_map.2 fun p hp => (h p hp).readable)
  rw [List.flatMap_map] at hreferences
  rw [heq]
  refine Names.value ⟨hreadable, ?_⟩
  rw [hreferences]
  exact hl.covers.append (.flatMap fun p hp => (h p hp).covers)

theorem names_chained (hl : Names c ts l) {links : List (CmpOp × Piece)}
    (h : ∀ x ∈ links, x.2.Named c) : Names c
      (neighbours ts (links.map fun x => x.2.expr.documents c.scope)) (chained (linkTexts l links)) := by
  obtain ⟨htexts, hsum⟩ := readable_linkTexts hl.readable fun x hx => (h x hx).readable
  obtain ⟨hreadable, hreferences⟩ := readable_chained htexts
  refine ⟨hreadable, ?_⟩
  rw [hreferences, hsum]
  exact hl.covers.neighbours fun x hx => (h x hx).covers

theorem names_conditional {ws : List String} {t b o : String} (ht : Names c ts t) (hb : Names c us b)
    (ho : Names c ws o) :
    Names c (ts ++ us ++ ws) ("CASE WHEN " ++ t ++ " THEN " ++ b ++ " ELSE " ++ o ++ " END") := by
  obtain ⟨hreadable, hreferences⟩ := readable_conditional ht.readable hb.readable ho.readable
  exact ⟨hreadable, hreferences ▸ (ht.covers.append hb.covers).append ho.covers⟩

theorem names_sequence (h : ∀ p ∈ ps, p.Named c) :
    (Value.sequence (ps.map (·.sql))).Names c (ps.flatMap fun p => p.expr.documents c.scope) := by
  refine ⟨List.forall_mem_map.2 fun p hp => (h p hp).readable, ?_⟩
  rw [Value.references, List.flatMap_map]
  exact .flatMap fun p hp => (h p hp).covers

/-! ### Conditions -/

/-- The conditions that are written are some of the pieces. -/
theorem mem_conditionTexts {text : String} (h : text ∈ conditionTexts ps) : ∃ p ∈ ps, p.sql = text := by
  obtain ⟨p, hp, rfl⟩ := List.mem_map.1 h
  exact ⟨p, (List.mem_filter.1 hp).1, rfl⟩

theorem readable_conditionTexts (h : ∀ p ∈ ps, p.Named c) : ∀ t ∈ conditionTexts ps, Readable t := by
  intro t ht
  obtain ⟨p, hp, rfl⟩ := mem_conditionTexts ht
  exact (h p hp).readable

/-- Without a guarantee, every condition is written. -/
theorem conditionTexts_of_none (hc : c.guaranteed = none)
    (hvalues : ∀ p ∈ ps, Gives c p.expr p.value) : conditionTexts ps = ps.map (·.sql) := by
  rw [conditionTexts, List.filter_eq_self.2]
  intro p hp
  simp [(hvalues p hp).isSatisfied_of_none hc]

/-- Some conditions may be left out where a test is guaranteed. -/
theorem covers_conditionTexts (hvalues : ∀ p ∈ ps, Gives c p.expr p.value) (h : ∀ p ∈ ps, p.Named c) :
    Covers c (ps.flatMap fun p => p.expr.documents c.scope) ((conditionTexts ps).flatMap references) := by
  have hall : Covers c (ps.flatMap fun p => p.expr.documents c.scope)
      (ps.flatMap fun p => references p.sql) := .flatMap fun p hp => (h p hp).covers
  refine ⟨fun ref href => ?_, fun hc => ?_⟩
  · obtain ⟨text, htext, href⟩ := List.mem_flatMap.1 href
    obtain ⟨p, hp, rfl⟩ := mem_conditionTexts htext
    exact (h p hp).covers.known ref href
  · rw [conditionTexts_of_none hc hvalues, List.flatMap_map, hall.complete hc]

theorem names_connected (op : BoolOp) (hvalues : ∀ p ∈ ps, Gives c p.expr p.value)
    (h : ∀ p ∈ ps, p.Named c) :
    (connected op (conditionTexts ps)).Names c (ps.flatMap fun p => p.expr.documents c.scope) := by
  have hcovers := covers_conditionTexts hvalues h
  rcases readable_connected op (readable_conditionTexts h) with ⟨hnone, heq⟩ |
    ⟨sql, heq, hreadable, hreferences⟩
  · rw [hnone] at hcovers
    rw [heq]
    exact ⟨trivial, hcovers⟩
  · rw [heq]
    exact Names.value ⟨hreadable, hreferences ▸ hcovers⟩

/-- The conditions of a quantifier are all written, since nothing is guaranteed inside. -/
theorem names_existence {array : FieldPath} {target : String} (harray : (Value.path array).Names c ts)
    (htarget : IsWordText target) (hne : target ≠ documentColumn)
    (hvalues : ∀ p ∈ ps, Gives (c.within target) p.expr p.value) (h : ∀ p ∈ ps, p.Named (c.within target)) :
    Names c (ts ++ ps.flatMap fun p => p.expr.documents (c.within target).scope)
      (existence array target (conditionTexts ps)) := by
  obtain ⟨hreadable, hreferences⟩ :=
    readable_existence harray.readable htarget hne (readable_conditionTexts h)
  have hconditions := covers_conditionTexts hvalues h
  refine ⟨hreadable, ?_⟩
  rw [hreferences]
  exact harray.covers.append ⟨hconditions.known, fun _ => hconditions.complete rfl⟩

/-- The pieces of an expression whose parts name what they refer to. -/
theorem named_of_part (he : e.Avoids documentColumn) (hparts : ∀ p ∈ ps, p.expr ∈ e.ownParts)
    (hsql : ∀ p ∈ ps, c.sqlOf p.expr p.value = .ok p.sql)
    (h : ∀ p ∈ ps, p.expr.Avoids documentColumn → p.value.Names c (p.expr.documents c.scope)) :
    ∀ p ∈ ps, p.Named c :=
  fun p hp => (h p hp (he.part (hparts p hp))).of_sqlOf (hsql p hp)

end Names

/-- The value of an expression names the documents that the expression refers to. -/
theorem Gives.names {c : Context} {e : Expr} {v : Value} (h : Gives c e v)
    (he : e.Avoids documentColumn) : v.Names c (e.documents c.scope) := by
  induction h with
  | literal c h => exact (names_literal _).value
  | name c h => exact names_named (isWordText_of_isIdentifier h.1) he.name
  | attr hlabel hvalue h ih =>
    have hv := ih (he.part (by simp [Expr.ownParts]))
    obtain ⟨hreadable, hreferences⟩ :=
      readable_attributeOf (isWordText_of_isIdentifier hlabel.1) he.label hv.readable h
    exact ⟨hreadable, hreferences ▸ hv.covers⟩
  | item hvalue hindex ih =>
    have hv := ih (he.part (by simp [Expr.ownParts]))
    exact ⟨hv.readable, hv.covers⟩
  | binary hleft hright hl hr h ihLeft ihRight =>
    have hl := (ihLeft (he.part (by simp [Expr.ownParts]))).of_sqlOf hl
    have hr := (ihRight (he.part (by simp [Expr.ownParts]))).of_sqlOf hr
    exact (names_arithmetic hl hr h).value
  | number c h hnumber => exact names_negative hnumber
  | noneOf h hcall hsql ih =>
    exact (names_not ((ih (he.part (by simp [Expr.ownParts]))).of_sqlOf hsql)).value
  | signed h hnumber hcall hsatisfied hsql ih =>
    exact (names_signed ((ih (he.part (by simp [Expr.ownParts]))).of_sqlOf hsql) _).value
  | guaranteed h =>
    refine names_satisfied fun hc => ?_
    rw [Context.isGuaranteed, hc] at h
    cases h
  | @listed c left right op v l items hg hop hlist hleft hl hitems hsql ihLeft ihItems =>
    have hl := (ihLeft (he.part (by simp [Expr.ownParts]))).of_sqlOf hl
    have hright : right.Avoids documentColumn := he.part (by simp [Expr.ownParts])
    have hnamed : ∀ p ∈ items, p.Named c := fun p hp =>
      (ihItems p hp (hright.listed hlist (List.mem_map_of_mem hp))).of_sqlOf (hsql p hp)
    have htest := names_listTest hl op hnamed
    rw [Expr.documents_single, Expr.documents_listed _ hlist, List.flatMap_map]
    exact htest
  | @pattern c text right op v r hop hlist hright hr ih =>
    have hr := (ih (he.part (by simp [Expr.ownParts]))).of_sqlOf hr
    rw [Expr.documents_single]
    exact names_patternTest hr _ _
  | @chain c left ops operands v first links hne hops hoperands hg hplain hleft hfirst hlinks hsql
      ihLeft ihLinks =>
    have hfirst := (ihLeft (he.part (by simp [Expr.ownParts]))).of_sqlOf hfirst
    have hnamed : ∀ x ∈ links, x.2.Named c := by
      intro x hx
      have hmem : x.2.expr ∈ operands := hoperands ▸ List.mem_map_of_mem hx
      exact (ihLinks x hx (he.part (by simp [Expr.ownParts, hmem]))).of_sqlOf (hsql x hx)
    have hchain := names_chained hfirst hnamed
    rw [Expr.documents, Expr.documentsOfEach_eq, ← hoperands, List.map_map]
    exact hchain.value
  | @connected c op operands ps hps htwo hor hvalues hsql ih =>
    subst hps
    rw [Expr.documents, Expr.flatten_documentsOfEach, List.flatMap_map]
    exact names_connected op hvalues (named_of_part he (fun p hp => List.mem_map_of_mem hp) hsql ih)
  | absorbed hmem h ih =>
    refine names_satisfied fun hc => ?_
    cases h.isSatisfied_of_none hc
  | conditional htest hbody hotherwise ht hb ho ihTest ihBody ihOtherwise =>
    have ht := (ihTest (he.part (by simp [Expr.ownParts]))).of_sqlOf ht
    have hb := (ihBody (he.part (by simp [Expr.ownParts]))).of_sqlOf hb
    have ho := (ihOtherwise (he.part (by simp [Expr.ownParts]))).of_sqlOf ho
    exact (names_conditional ht hb ho).value
  | @length c id e p hid h ih =>
    have hv := ih (he.part (by simp [Expr.ownParts, h.comprehensionParts]))
    obtain ⟨hlength, hreferences⟩ := readable_length hv.readable
    rw [Expr.documents_call]
    exact Names.value ⟨hlength, hreferences ▸ hv.covers⟩
  | @quantified c id e element array target filters p ps hid htarget hparts hchain harray hps hvalues
      hsql ihArray ih =>
    subst hid
    obtain ⟨hne, hconditions⟩ := he.condition hparts
    have hv := ihArray (he.part (by simp [Expr.ownParts, hparts]))
    have hnamed : ∀ p ∈ ps, p.Named (c.within target) := fun p hp =>
      (ih p hp (hconditions _ (hps ▸ List.mem_map_of_mem hp))).of_sqlOf (hsql p hp)
    rw [Expr.documents_call, Expr.documents_comprehension _ hparts, ← hps, List.flatMap_map]
    exact (names_existence hv (isWordText_of_isIdentifier htarget.1) hne hvalues hnamed).value
  | method hpattern hvalue hr ih =>
    exact names_patternTest ((ih (he.part (by simp [Expr.ownParts]))).of_sqlOf hr) _ _
  | @list c items ps hps hvalues hsql ih =>
    subst hps
    rw [Expr.documents, Expr.flatten_documentsOfEach, List.flatMap_map]
    exact names_sequence (named_of_part he (fun p hp => List.mem_map_of_mem hp) hsql ih)
  | @tuple c items ps hps hvalues hsql ih =>
    subst hps
    rw [Expr.documents, Expr.flatten_documentsOfEach, List.flatMap_map]
    exact names_sequence (named_of_part he (fun p hp => List.mem_map_of_mem hp) hsql ih)

end Sql

end DocQuery
