import DocQuery.Proofs.Lexemes
import DocQuery.Proofs.Tokens
import DocQuery.Expr.Render

/-! # Strings between quotes

A text is written between quotes in expressions and in SQL, and in both it is read back: the reader
stops at the quote that ends the string and finds the text that was written.

* `stringPiece_render`: the literal of a text in an expression, whatever follows it.
* `Sql.string?`: the string that an SQL text starts with, and the rest of the text.
* `Sql.Place.before`: what a reader of an SQL string has seen at a place. Reading it leads to the place
  (`stringFrom?_before`), and a string that is found from the place on goes on from it
  (`before_append_of_stringFrom?`).
* `Sql.string_eq_some_iff_quote`: the SQL texts that start with a string are those that start with
  `quote` of it, where no other quote follows.
-/

set_option autoImplicit false

namespace DocQuery

/-! ## Strings of expressions -/

/-- The literal of a text is read as that text, and what follows it is left over. -/
theorem stringPiece_render (s r : String) :
    Token.stringPiece ((Literal.str s).render ++ r).toList = .ok s r.toList := by
  rw [Literal.render, String.toList_append]
  exact Token.stringPiece_quoted s r.toList

namespace Sql

/-! ## Strings of SQL -/

/-- The content of the string that is read at a place, and what follows the string. There is nothing
if no string starts here, or if it does not end. -/
def stringFrom? : Place → List Char → Option (List Char × List Char)
  | .outside, [] => none
  | .outside, c :: cs => if c = '\'' then stringFrom? (.inside []) cs else none
  | .inside _, [] => none
  | .inside content, c :: cs =>
    if c = '\'' then stringFrom? (.quote content) cs
    else stringFrom? (.inside (content ++ [c])) cs
  | .quote content, [] => some (content, [])
  | .quote content, c :: cs =>
    if c = '\'' then stringFrom? (.inside (content ++ [c])) cs else some (content, c :: cs)

/-- The string that a text starts with, and the rest of the text. -/
def string? (text : String) : Option (String × String) :=
  (stringFrom? .outside text.toList).map (Prod.map String.ofList String.ofList)

/-- The part of a string that stands before a place. -/
def Place.before : Place → List Char
  | outside => []
  | inside content => '\'' :: doubled content
  | quote content => '\'' :: (doubled content ++ ['\''])

theorem toList_quote (s : String) : (quote s).toList = (Place.quote s.toList).before := by
  simp [quote, Place.before]

/-! ### From the text to the place -/

/-- Quotes inside a string come in pairs, so after the characters of a text the reader is inside the
string again. -/
theorem stringFrom?_doubled (content cs t : List Char) :
    stringFrom? (.inside content) (doubled cs ++ t) = stringFrom? (.inside (content ++ cs)) t := by
  induction cs generalizing content with
  | nil => rw [doubled, List.nil_append, List.append_nil]
  | cons c cs ih =>
    have hcontent : content ++ c :: cs = (content ++ [c]) ++ cs := by simp
    rw [doubled, hcontent]
    split
    · rename_i hc
      rw [List.cons_append, List.cons_append, stringFrom?, if_pos rfl, stringFrom?, if_pos rfl, ih, hc]
    · rename_i hc
      rw [List.cons_append, stringFrom?, if_neg hc, ih]

theorem stringFrom?_before (p : Place) (t : List Char) :
    stringFrom? .outside (p.before ++ t) = stringFrom? p t := by
  have hinside : ∀ content t, stringFrom? .outside ('\'' :: doubled content ++ t) =
      stringFrom? (.inside content) t := by
    intro content t
    rw [List.cons_append, stringFrom?, if_pos rfl, stringFrom?_doubled, List.nil_append]
  cases p with
  | outside => rfl
  | inside content => exact hinside content t
  | quote content =>
    have htext : (Place.quote content).before ++ t = '\'' :: doubled content ++ '\'' :: t := by
      simp [Place.before]
    rw [htext, hinside, stringFrom?, if_pos rfl]

/-- A quote ends the string if no other quote follows. -/
theorem stringFrom?_quote {r : List Char} (hr : r.head? ≠ some '\'') (content : List Char) :
    stringFrom? (.quote content) r = some (content, r) := by
  cases r with
  | nil => rfl
  | cons c r =>
    have hc : c ≠ '\'' := fun h => hr (congrArg some h)
    rw [stringFrom?, if_neg hc]

/-! ### From the place to the text -/

/-- What one character does: the string goes on, and so does a reader of the whole text; or the string
has ended in front of it. -/
theorem stringFrom?_cons_cases {p : Place} {c : Char} {t content r : List Char}
    (h : stringFrom? p (c :: t) = some (content, r)) :
    (∃ q : Place, stringFrom? q t = some (content, r) ∧ q.before = p.before ++ [c] ∧
        lexemesFrom? p (c :: t) = lexemesFrom? q t) ∨
      p = .quote content ∧ r = c :: t ∧ c ≠ '\'' := by
  cases p with
  | outside =>
    rw [stringFrom?] at h
    split at h
    · rename_i hc
      exact .inl ⟨_, h, by simp [Place.before, doubled, hc], by rw [lexemesFrom?, if_pos hc]⟩
    · cases h
  | inside seen =>
    rw [stringFrom?] at h
    split at h
    · rename_i hc
      exact .inl ⟨_, h, by simp [Place.before, hc], by rw [lexemesFrom?, if_pos hc]⟩
    · rename_i hc
      exact .inl ⟨_, h, by simp [Place.before, doubled_append, doubled, hc],
        by rw [lexemesFrom?, if_neg hc]⟩
  | quote seen =>
    rw [stringFrom?] at h
    split at h
    · rename_i hc
      exact .inl ⟨_, h, by simp [Place.before, doubled_append, doubled, hc],
        by rw [lexemesFrom?, if_pos hc]⟩
    · rename_i hc
      cases h
      exact .inr ⟨rfl, rfl, hc⟩

theorem stringFrom?_nil {p : Place} {content r : List Char}
    (h : stringFrom? p [] = some (content, r)) : p = .quote content ∧ r = [] := by
  cases p with
  | quote seen =>
    cases h
    exact ⟨rfl, rfl⟩
  | _ => cases h

/-- What was seen and what is still to be read are together the string that is found, between quotes,
and the rest. -/
theorem before_append_of_stringFrom? {p : Place} {t content r : List Char}
    (h : stringFrom? p t = some (content, r)) :
    p.before ++ t = (Place.quote content).before ++ r ∧ r.head? ≠ some '\'' := by
  induction t generalizing p with
  | nil =>
    obtain ⟨rfl, rfl⟩ := stringFrom?_nil h
    exact ⟨rfl, by simp⟩
  | cons c t ih =>
    rcases stringFrom?_cons_cases h with ⟨q, hq, hbefore, -⟩ | ⟨rfl, rfl, hc⟩
    · have htext : q.before ++ t = p.before ++ c :: t := by rw [hbefore, List.append_assoc]; rfl
      rw [← htext]
      exact ih hq
    · exact ⟨rfl, by simpa using hc⟩

theorem stringFrom?_eq_some_iff {t content r : List Char} :
    stringFrom? .outside t = some (content, r) ↔
      t = (Place.quote content).before ++ r ∧ r.head? ≠ some '\'' := by
  constructor
  · exact before_append_of_stringFrom?
  · rintro ⟨rfl, hr⟩
    rw [stringFrom?_before, stringFrom?_quote hr]

/-- The lexemes of a text that starts with a string are the string and those of the rest. -/
theorem lexemesFrom?_of_stringFrom? {p : Place} {t content r : List Char}
    (h : stringFrom? p t = some (content, r)) :
    lexemesFrom? p t = (.string content :: ·) <$> lexemesFrom? .outside r := by
  induction t generalizing p with
  | nil =>
    obtain ⟨rfl, rfl⟩ := stringFrom?_nil h
    rfl
  | cons c t ih =>
    rcases stringFrom?_cons_cases h with ⟨q, hq, -, hlexemes⟩ | ⟨rfl, rfl, hc⟩
    · rw [hlexemes]
      exact ih hq
    · rw [lexemesFrom?, if_neg hc, lexemesFrom?, if_neg hc]
      simp [Function.comp_def]

/-! ### Quoted texts -/

theorem string?_eq_some_iff {text s r : String} :
    string? text = some (s, r) ↔ stringFrom? .outside text.toList = some (s.toList, r.toList) := by
  constructor
  · intro h
    obtain ⟨found, hfound, hpair⟩ := Option.map_eq_some_iff.1 h
    cases hpair
    simpa using hfound
  · intro h
    simp [string?, h]

/-- An SQL text is read as a string with the content `s` and a rest `r` exactly if it is `quote s` with
`r` behind it and `r` does not go on with a quote. So different texts are quoted differently. -/
theorem string_eq_some_iff_quote :
    (∀ text s r : String, string? text = some (s, r) ↔
      text = quote s ++ r ∧ r.toList.head? ≠ some '\'') ∧ Function.Injective quote := by
  have hiff : ∀ text s r : String, string? text = some (s, r) ↔
      text = quote s ++ r ∧ r.toList.head? ≠ some '\'' := by
    intro text s r
    rw [string?_eq_some_iff, stringFrom?_eq_some_iff, ← toList_quote, ← String.toList_append,
      String.toList_inj]
  refine ⟨hiff, fun s s' h => ?_⟩
  have hread : ∀ s, string? (quote s) = some (s, "") := fun s => (hiff _ s "").2 ⟨by simp, by simp⟩
  have hpair : some (s, "") = some (s', "") := by rw [← hread s, h, hread s']
  cases hpair
  rfl

example : string? "'''it''s''' AS x" = some ("'it's'", " AS x") := by decide +kernel

end Sql

end DocQuery
