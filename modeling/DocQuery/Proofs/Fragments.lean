import DocQuery.Proofs.Lexemes
import DocQuery.Proofs.Tokens
import DocQuery.Sql.Path

/-! # Fragments of SQL texts

A fragment is a text that a scan passes from any depth, and after which it stands as before: its
parentheses are in pairs, its strings are closed, and it does not end in half a comment. Fragments in
a row make a fragment.

* `Fragment.ofParts`: a text made of fixed words and fragments is a fragment if the words alone pass
  the scan, which is checked by computing.
* `IsWord`: a text without special characters, such as a name or a number without a sign.
* `FieldPath.fragment_field`, `fragment_length`, `fragment_expansion`: the SQL for a path is a
  fragment if that for its document is, whatever the steps of the path are.
-/

set_option autoImplicit false

namespace DocQuery.Sql

open Token

/-- The scan passes the text from any depth, and stands after it as before. -/
def Fragment (text : String) : Prop :=
  ∀ depth, Scan.run ⟨depth, .plain⟩ text.toList = some ⟨depth, .plain⟩

theorem fragment_empty : Fragment "" := fun _ => rfl

theorem Fragment.append {a b : String} (ha : Fragment a) (hb : Fragment b) : Fragment (a ++ b) := by
  intro depth
  rw [String.toList_append, Scan.run_append, ha depth, Option.bind_some, hb depth]

/-! ## Words with fragments between them -/

/-- A fixed word, or a text that is known to be a fragment. -/
inductive Part where
  | word (text : String)
  | hole (text : String)

def Part.text : Part → String
  | word t => t
  | hole t => t

/-- Goes on over a part without looking at what is in a hole. -/
def Part.scan (s : Scan) : Part → Option Scan
  | word t => s.run t.toList
  | hole _ => if s.mode = .plain then some s else none

/-- Goes on over several parts. -/
def Part.scanAll : Scan → List Part → Option Scan
  | s, [] => some s
  | s, p :: ps => (p.scan s).bind fun s' => scanAll s' ps

/-- A scan that passes from some depth passes from any greater depth. -/
theorem Scan.mark_deeper {s s' : Scan} {c : Char} (h : s.mark c = some s') (depth : Nat) :
    mark ⟨s.depth + depth, s.mode⟩ c = some ⟨s'.depth + depth, s'.mode⟩ := by
  obtain ⟨rfl, rfl⟩ | ⟨rfl, hpos, rfl⟩ | ⟨rfl, hmode, rfl⟩ | ⟨rfl, rfl⟩ | ⟨hc, hmode, rfl⟩ :=
    mark_cases h
  · simp [mark, Nat.add_right_comm]
  · have hdeep : ¬(s.depth + depth = 0) := by omega
    have heq : s.depth + depth - 1 = s.depth - 1 + depth := by omega
    simp only [mark, hdeep, heq]
    rfl
  · simp [mark, hmode]
  · simp [mark]
  · simp only [List.mem_cons, List.not_mem_nil, or_false, not_or] at hc
    simp [mark, hc, hmode]

theorem Scan.run_deeper {s s' : Scan} {cs : List Char} (h : s.run cs = some s') (depth : Nat) :
    run ⟨s.depth + depth, s.mode⟩ cs = some ⟨s'.depth + depth, s'.mode⟩ := by
  induction cs generalizing s with
  | nil =>
    cases h
    rfl
  | cons c cs ih =>
    obtain ⟨t, hstep, hrun⟩ := Option.bind_eq_some_iff.1 h
    have hdeep : step ⟨s.depth + depth, s.mode⟩ c = some ⟨t.depth + depth, t.mode⟩ := by
      rw [step] at hstep ⊢
      split at hstep
      · cases hstep
        exact if_pos ‹_›
      · rw [if_neg ‹_›]
        split at hstep
        · cases hstep
          exact if_pos ‹_›
        · rw [if_neg ‹_›]
          exact mark_deeper hstep depth
    rw [run, hdeep]
    exact ih hrun

theorem Part.run_text {s s' : Scan} {ps : List Part} (h : scanAll s ps = some s')
    (holes : ∀ t, .hole t ∈ ps → Fragment t) (depth : Nat) :
    Scan.run ⟨s.depth + depth, s.mode⟩ (ps.flatMap fun p => p.text.toList) =
      some ⟨s'.depth + depth, s'.mode⟩ := by
  induction ps generalizing s with
  | nil =>
    cases h
    rfl
  | cons p ps ih =>
    obtain ⟨t, hscan, hrest⟩ := Option.bind_eq_some_iff.1 h
    have hp : Scan.run ⟨s.depth + depth, s.mode⟩ p.text.toList =
        some ⟨t.depth + depth, t.mode⟩ := by
      cases p with
      | word w => exact Scan.run_deeper hscan depth
      | hole w =>
        rw [scan] at hscan
        split at hscan
        · rename_i hmode
          cases hscan
          rw [hmode]
          exact holes w List.mem_cons_self (s.depth + depth)
        · cases hscan
    rw [List.flatMap_cons, Scan.run_append, hp]
    exact ih hrest fun t ht => holes t (List.mem_cons_of_mem _ ht)

theorem Fragment.ofParts {text : String} (ps : List Part)
    (htext : text.toList = ps.flatMap fun p => p.text.toList)
    (h : Part.scanAll ⟨0, .plain⟩ ps = some ⟨0, .plain⟩)
    (holes : ∀ t, .hole t ∈ ps → Fragment t) : Fragment text := by
  intro depth
  simpa [htext] using Part.run_text h holes depth

/-! ## Words without special characters -/

/-- Whether a character outside strings changes nothing. -/
def isOrdinary (c : Char) : Bool := c ∉ ['\'', ';', '(', ')', '-', '/', '*']

/-- A text that is not empty and has ordinary characters only. -/
structure IsWord (text : String) : Prop where
  nonempty : text.toList ≠ []
  ordinary : ∀ c ∈ text.toList, isOrdinary c = true

theorem Scan.step_ordinary {s : Scan} {c : Char} (hs : s.mode ≠ .string) (hc : isOrdinary c = true) :
    s.step c = some ⟨s.depth, .plain⟩ := by
  simp only [isOrdinary, List.mem_cons, List.not_mem_nil, or_false, not_or, decide_eq_true_eq] at hc
  simp [step, mark, hs, hc]

theorem Scan.run_ordinary {cs : List Char} (hc : ∀ c ∈ cs, isOrdinary c = true) (depth : Nat) :
    run ⟨depth, .plain⟩ cs = some ⟨depth, .plain⟩ := by
  induction cs with
  | nil => rfl
  | cons c cs ih =>
    have hstep : step ⟨depth, .plain⟩ c = some ⟨depth, .plain⟩ :=
      step_ordinary nofun (hc c List.mem_cons_self)
    rw [run, hstep]
    exact ih fun d hd => hc d (List.mem_cons_of_mem _ hd)

theorem fragment_of_ordinary {text : String} (h : ∀ c ∈ text.toList, isOrdinary c = true) :
    Fragment text := fun depth => Scan.run_ordinary h depth

theorem IsWord.fragment {text : String} (h : IsWord text) : Fragment text :=
  fragment_of_ordinary h.ordinary

/-- A sign in front of a word is not the second of two. -/
theorem IsWord.fragment_minus {text : String} (h : IsWord text) : Fragment ("-" ++ text) := by
  intro depth
  obtain ⟨c, cs, hcs⟩ := List.exists_cons_of_ne_nil h.nonempty
  have hord := h.ordinary
  rw [hcs] at hord
  have hstep : Scan.step ⟨depth, .minus⟩ c = some ⟨depth, .plain⟩ :=
    Scan.step_ordinary nofun (hord c List.mem_cons_self)
  have htext : ("-" ++ text).toList = '-' :: c :: cs := by simp [hcs]
  rw [htext]
  change Scan.run ⟨depth, .minus⟩ (c :: cs) = _
  rw [Scan.run, hstep]
  exact Scan.run_ordinary (fun d hd => hord d (List.mem_cons_of_mem _ hd)) depth

theorem isOrdinary_of_isIdentChar {c : Char} (h : isIdentChar c = true) : isOrdinary c = true := by
  have hspecial : ∀ d ∈ ['\'', ';', '(', ')', '-', '/', '*'], isIdentChar d = false := by decide
  rw [isOrdinary, decide_eq_true_eq]
  intro hc
  rw [hspecial c hc] at h
  cases h

theorem isWord_of_isIdentifier {text : String} (h : IsIdentifier text.toList) : IsWord text := by
  have hchars := h.isIdentChar
  obtain ⟨c, cs, heq, -⟩ := h
  exact ⟨by simp [heq], fun d hd => isOrdinary_of_isIdentChar (hchars d hd)⟩

theorem isOrdinary_of_isDigit {c : Char} (h : c.isDigit = true) : isOrdinary c = true :=
  isOrdinary_of_isIdentChar (isIdentChar_of_isDigit h)

theorem isWord_natCast (n : Nat) : IsWord (toString (n : Int)) where
  nonempty := by
    rw [toString_natCast]
    exact Nat.toDigits_ne_nil
  ordinary := by
    rw [toString_natCast]
    exact fun c hc => isOrdinary_of_isDigit (isDigit_toDigits n c hc)

theorem fragment_int (n : Int) : Fragment (toString n) := by
  cases n with
  | ofNat n => exact (isWord_natCast n).fragment
  | negSucc n =>
    have htext : toString (Int.negSucc n) = "-" ++ toString ((n + 1 : Nat) : Int) := rfl
    rw [htext]
    exact (isWord_natCast (n + 1)).fragment_minus

/-! ## Strings and lists -/

theorem Scan.run_doubled (cs : List Char) (depth : Nat) :
    run ⟨depth, .string⟩ (doubled cs) = some ⟨depth, .string⟩ := by
  induction cs with
  | nil => rfl
  | cons c cs ih =>
    rw [doubled]
    split
    · exact ih
    · rename_i hc
      have hstep : step ⟨depth, .string⟩ c = some ⟨depth, .string⟩ := by simp [step, hc]
      rw [run, hstep]
      exact ih

/-- Whatever a text holds, the string around it is closed at its end and not before. -/
theorem fragment_quote (text : String) : Fragment (quote text) := by
  intro depth
  have htext : (quote text).toList = '\'' :: (doubled text.toList ++ ['\'']) := by simp [quote]
  rw [htext, Scan.run]
  change Scan.run ⟨depth, .string⟩ (doubled text.toList ++ ['\'']) = _
  rw [Scan.run_append, Scan.run_doubled]
  rfl

theorem fragment_intercalate {sep : String} (hsep : Fragment sep) {items : List String}
    (h : ∀ i ∈ items, Fragment i) : Fragment (sep.intercalate items) := by
  induction items with
  | nil => exact fragment_empty
  | cons i items ih =>
    have hi := h i List.mem_cons_self
    have hrest := ih fun j hj => h j (List.mem_cons_of_mem _ hj)
    cases items with
    | nil => simpa using hi
    | cons j items =>
      have htext : sep.intercalate (i :: j :: items) = i ++ sep ++ sep.intercalate (j :: items) := by
        apply String.toList_inj.1
        simp [String.toList_intercalate]
      rw [htext]
      exact (hi.append hsep).append hrest

theorem fragment_commaJoined {items : List String} (h : ∀ i ∈ items, Fragment i) :
    Fragment (commaJoined items) :=
  fragment_intercalate (fun _ => rfl) h

theorem fragment_join {items : List String} (h : ∀ i ∈ items, Fragment i) :
    Fragment (String.join items) := by
  induction items with
  | nil => exact fragment_empty
  | cons i items ih =>
    have htext : String.join (i :: items) = i ++ String.join items := by
      apply String.toList_inj.1
      simp
    rw [htext]
    exact (h i List.mem_cons_self).append (ih fun j hj => h j (List.mem_cons_of_mem _ hj))

theorem fragment_sequence {items : List String} (h : ∀ i ∈ items, Fragment i) :
    Fragment (sequence items) := by
  cases items with
  | nil => exact fun _ => rfl
  | cons i items => exact fragment_commaJoined h

end DocQuery.Sql

/-! ## Paths -/

namespace DocQuery.FieldPath

open Sql

variable {p : FieldPath}

theorem fragment_arguments (h : Fragment p.root.document) : Fragment p.arguments := by
  unfold arguments
  split
  · exact h
  · exact .ofParts [.hole p.root.document, .word ", ", .hole (quote p.jsonPath)]
      (by simp [Part.text]) rfl (by simp [h, fragment_quote])

theorem fragment_field (h : Fragment p.root.document) : Fragment p.field := by
  unfold field
  split
  · exact h
  · exact .ofParts [.word "json_extract(", .hole p.arguments, .word ")"] (by simp [Part.text]) rfl
      (by simp [fragment_arguments h])

theorem fragment_length (h : Fragment p.root.document) : Fragment p.length := by
  unfold length
  exact .ofParts [.word "json_array_length(", .hole p.arguments, .word ")"] (by simp [Part.text]) rfl
    (by simp [fragment_arguments h])

theorem fragment_expansion (h : Fragment p.root.document) {target : String}
    (ht : Fragment target) : Fragment (p.expansion target) := by
  unfold expansion
  exact .ofParts [.word "json_each(", .hole p.arguments, .word ") AS ", .hole target]
    (by simp [Part.text]) rfl (by simp [fragment_arguments h, ht])

end DocQuery.FieldPath

namespace DocQuery.Root

open Sql

theorem fragment_table {name : String} (h : IsWord name) (qualified : Bool) :
    Fragment (Root.table name qualified).document := by
  unfold document
  dsimp only
  split
  · exact .ofParts [.hole name, .word ".", .word documentColumn] (by simp [Part.text]) rfl
      (by simp [h.fragment])
  · exact fun _ => rfl

theorem fragment_element {target : String} (h : IsWord target) :
    Fragment (Root.element target).document :=
  .ofParts [.hole target, .word ".value"] (by simp [Part.text, document]) rfl
    (by simp [h.fragment])

end DocQuery.Root
