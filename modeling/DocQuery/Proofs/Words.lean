import DocQuery.Proofs.Fragments
import DocQuery.Proofs.Strings

/-! # The words of SQL texts

The characters of a text outside its strings make up words: the names, the numbers and the keywords.
A word is as long as it can be.

* `Chunk`, `chunksOf`: the strings, the words and the other characters of a text.
* `Whole`: a text that can stand beside others. `Whole.ofParts`: the chunks of a text made of fixed
  words and whole texts are those of its parts.
* `Reference`, `references`: the places where the column of the documents is named, each with the word
  in front of it.
* `Readable`: a whole text whose references do not depend on what stands beside it.
  `Readable.ofParts`: the references of a text made of fixed words and readable texts are theirs.
-/

set_option autoImplicit false

namespace DocQuery.Sql

/-! ## Chunks -/

/-- Whether a character belongs to a word. -/
def isWordChar (c : Char) : Bool := c.isAlphanum || c == '_' || c == '$' || 128 ≤ c.toNat

/-- A string, a word, or another character outside strings. -/
inductive Chunk where
  | string (content : List Char)
  | word (text : List Char)
  | mark (c : Char)
deriving DecidableEq, Repr

namespace Chunk

def dot : Chunk := mark '.'

def isWord : Chunk → Bool
  | word _ => true
  | _ => false

/-- A lexeme in front of chunks. The character of a word is part of the word behind it. -/
def cons : Lexeme → List Chunk → List Chunk
  | .string content, rest => string content :: rest
  | .mark c, rest =>
    if isWordChar c then
      match rest with
      | word w :: rest => word (c :: w) :: rest
      | rest => word [c] :: rest
    else mark c :: rest

end Chunk

/-- The chunks that lexemes make up. -/
def chunks (ls : List Lexeme) : List Chunk := ls.foldr Chunk.cons []

/-- No word starts here. -/
def Apart (xs : List Chunk) : Prop := ∀ x, xs.head? = some x → x.isWord = false

variable {ls ms : List Lexeme}

theorem cons_append (l : Lexeme) (xs : List Chunk) {ys : List Chunk} (h : Apart ys) :
    Chunk.cons l (xs ++ ys) = Chunk.cons l xs ++ ys := by
  cases l with
  | string content => rfl
  | mark c =>
    cases xs with
    | nil =>
      cases ys with
      | nil => simp
      | cons y ys =>
        have hy := h y rfl
        simp only [Chunk.cons, List.nil_append]
        split
        · cases y with
          | word w => cases hy
          | _ => rfl
        · rfl
    | cons x xs =>
      simp only [Chunk.cons, List.cons_append]
      split
      · cases x <;> rfl
      · rfl

theorem foldr_cons_eq (ls : List Lexeme) {ys : List Chunk} (h : Apart ys) :
    ls.foldr Chunk.cons ys = chunks ls ++ ys := by
  induction ls with
  | nil => rfl
  | cons l ls ih => rw [List.foldr_cons, ih, cons_append l _ h, chunks, chunks, List.foldr_cons]

/-- A new word starts behind this lexeme. -/
def Lexeme.isBreak : Lexeme → Bool
  | .string _ => true
  | .mark c => !isWordChar c

theorem cons_of_isBreak {l : Lexeme} (h : l.isBreak = true) :
    ∃ x : Chunk, x.isWord = false ∧ ∀ xs, Chunk.cons l xs = x :: xs := by
  cases l with
  | string content => exact ⟨.string content, rfl, fun _ => rfl⟩
  | mark c =>
    refine ⟨.mark c, rfl, fun xs => ?_⟩
    simp only [Lexeme.isBreak, Bool.not_eq_true'] at h
    simp [Chunk.cons, h]

/-- Where the lexemes on one side have a break, no word goes on. -/
theorem chunks_append (h : (∃ l, ls.getLast? = some l ∧ l.isBreak = true) ∨
    ∀ l, ms.head? = some l → l.isBreak = true) : chunks (ls ++ ms) = chunks ls ++ chunks ms := by
  rcases h with ⟨l, hl, hbreak⟩ | h
  · obtain ⟨front, rfl⟩ := List.getLast?_eq_some_iff.1 hl
    obtain ⟨x, hx, hcons⟩ := cons_of_isBreak hbreak
    have hfront : ∀ ms, chunks (front ++ l :: ms) = chunks front ++ x :: chunks ms := by
      intro ms
      rw [chunks, List.foldr_append, List.foldr_cons, hcons]
      refine foldr_cons_eq front ?_
      rintro y ⟨⟩
      exact hx
    rw [List.append_assoc, List.singleton_append, hfront, hfront, List.append_assoc]
    rfl
  · rw [chunks, List.foldr_append]
    refine foldr_cons_eq ls ?_
    cases ms with
    | nil => simp [Apart]
    | cons m ms =>
      obtain ⟨x, hx, hcons⟩ := cons_of_isBreak (h m rfl)
      rw [List.foldr_cons, hcons]
      rintro y ⟨⟩
      exact hx

/-- The chunks of a text; there are none if a string in it does not end. -/
def chunksOf (text : String) : List Chunk := (lexemes? text).elim [] chunks

/-! ## References -/

/-- How the column of the documents is named: alone, behind a word and a dot, or behind a dot that no
word stands in front of. -/
inductive Reference where
  | bare
  | of (table : String)
  | stray
deriving DecidableEq, Repr

/-- The reference behind two chunks. -/
def Reference.behind (first second : Option Chunk) : Reference :=
  if second = some .dot then
    match first with
    | some (.word w) => of (String.ofList w)
    | _ => stray
  else bare

/-- The references among chunks; two chunks stand in front of them. -/
def referencesFrom (first second : Option Chunk) : List Chunk → List Reference
  | [] => []
  | x :: xs =>
    (if x = .word documentColumn.toList then [.behind first second] else []) ++
      referencesFrom second (some x) xs

def references (text : String) : List Reference := referencesFrom none none (chunksOf text)

/-- What stands in front of the chunks does not matter for their references, nor do they for what
stands behind them. -/
structure Bounded (xs : List Chunk) : Prop where
  head : xs.take 2 ≠ [.dot, .word documentColumn.toList]
  last : xs.getLast? ≠ some .dot

theorem referencesFrom_eq {xs : List Chunk} (hxs : xs.take 2 ≠ [.dot, .word documentColumn.toList])
    {first second : Option Chunk} (h : second ≠ some .dot) :
    referencesFrom first second xs = referencesFrom none none xs := by
  have hfirst : Reference.behind first second = .behind none none := by
    simp [Reference.behind, h]
  rcases xs with _ | ⟨x, _ | ⟨y, ys⟩⟩
  · rfl
  · simp [referencesFrom, hfirst]
  · simp only [referencesFrom, hfirst]
    by_cases hx : x = .dot
    · have hy : y ≠ .word documentColumn.toList := by
        rintro rfl
        exact hxs (by rw [hx]; rfl)
      simp [hy]
    · have hsecond : ∀ s : Option Chunk, Reference.behind s (some x) = .bare := by
        simp [Reference.behind, hx]
      simp only [hsecond]

theorem referencesFrom_append {xs ys : List Chunk}
    (hys : ys.take 2 ≠ [.dot, .word documentColumn.toList]) (hxs : xs.getLast? ≠ some .dot)
    {first second : Option Chunk} (h : xs = [] → second ≠ some .dot) :
    referencesFrom first second (xs ++ ys) =
      referencesFrom first second xs ++ referencesFrom none none ys := by
  induction xs generalizing first second with
  | nil => exact referencesFrom_eq hys (h rfl)
  | cons x xs ih =>
    have hrest : xs.getLast? ≠ some .dot := by
      cases xs with
      | nil => simp
      | cons x' xs => simpa using hxs
    have hx : xs = [] → some x ≠ some .dot := by
      rintro rfl
      simpa using hxs
    rw [List.cons_append, referencesFrom, referencesFrom, ih hrest hx, List.append_assoc]

theorem referencesFrom_of_not_mem {ys : List Chunk} (h : .word documentColumn.toList ∉ ys)
    (first second : Option Chunk) : referencesFrom first second ys = [] := by
  induction ys generalizing first second with
  | nil => rfl
  | cons y ys ih =>
    rw [List.mem_cons, not_or] at h
    rw [referencesFrom, if_neg (Ne.symm h.1), ih h.2, List.append_nil]

theorem referencesFrom_append_of_not_mem (xs : List Chunk) {ys : List Chunk}
    (h : .word documentColumn.toList ∉ ys) (first second : Option Chunk) :
    referencesFrom first second (xs ++ ys) = referencesFrom first second xs := by
  induction xs generalizing first second with
  | nil => exact referencesFrom_of_not_mem h first second
  | cons x xs ih => rw [List.cons_append, referencesFrom, referencesFrom, ih]

/-- Where every reference has a table, the table and a dot stand in front of the column. -/
theorem suffix_of_references {P : String → Prop} {xs ys : List Chunk} {first second : Option Chunk}
    (h : ∀ ref ∈ referencesFrom first second (xs ++ .word documentColumn.toList :: ys),
      ∃ t, P t ∧ ref = .of t) :
    ∃ w, P (String.ofList w) ∧ [some (.word w), some .dot] <:+ first :: second :: xs.map some := by
  induction xs generalizing first second with
  | nil =>
    obtain ⟨t, ht, heq⟩ := h (.behind first second) (by simp [referencesFrom])
    rw [Reference.behind.eq_def] at heq
    split at heq
    · rename_i hdot
      split at heq
      · rename_i w
        cases heq
        exact ⟨w, ht, by simp [hdot]⟩
      · cases heq
    · cases heq
  | cons x xs ih =>
    have hrest : ∀ ref ∈ referencesFrom second (some x) (xs ++ .word documentColumn.toList :: ys),
        ∃ t, P t ∧ ref = .of t := by
      intro ref href
      refine h ref ?_
      rw [List.cons_append, referencesFrom]
      exact List.mem_append_right _ href
    obtain ⟨w, hw, hsuffix⟩ := ih hrest
    exact ⟨w, hw, hsuffix.trans (List.suffix_cons _ _)⟩

theorem Bounded.append {xs ys : List Chunk} (hxs : Bounded xs) (hys : Bounded ys) :
    Bounded (xs ++ ys) := by
  constructor
  · rcases xs with _ | ⟨x, _ | ⟨x', xs⟩⟩
    · exact hys.head
    · have hx : x ≠ .dot := by simpa using hxs.last
      cases ys <;> simp [hx]
    · exact hxs.head
  · rw [List.getLast?_append]
    cases h : ys.getLast? with
    | none => simpa [h] using hxs.last
    | some y =>
      have hy := hys.last
      rw [h] at hy
      simpa using hy

/-! ## Texts beside other texts -/

/-- What stands here ends a word and a string. -/
def Stops (cs : List Char) : Prop := ∀ c, cs.head? = some c → c ≠ '\'' ∧ isWordChar c = false

/-- The lexemes of the text are these, whatever follows it, as long as it ends words and strings. -/
def Reads (text : List Char) (ls : List Lexeme) : Prop :=
  ∀ cs, Stops cs → lexemesFrom? .outside (text ++ cs) = (ls ++ ·) <$> lexemesFrom? .outside cs

/-- A text that can stand beside others. -/
def Whole (text : String) : Prop := ∃ ls, Reads text.toList ls

theorem Reads.lexemes {text : List Char} (h : Reads text ls) :
    lexemesFrom? .outside text = some ls := by
  have hnil := h [] (by simp [Stops])
  simpa [lexemesFrom?] using hnil

theorem chunksOf_eq {text : String} (h : Reads text.toList ls) : chunksOf text = chunks ls := by
  rw [chunksOf, lexemes?, h.lexemes]
  rfl

theorem Whole.lexemes {text : String} (h : Whole text) : (lexemes? text).isSome = true := by
  obtain ⟨ls, hreads⟩ := h
  rw [lexemes?, hreads.lexemes]
  rfl

theorem lexemesFrom?_append {p : Place} {cs ds : List Char} {ls : List Lexeme}
    (h : lexemesFrom? p cs = some ls) (hds : ds.head? ≠ some '\'') :
    lexemesFrom? p (cs ++ ds) = (ls ++ ·) <$> lexemesFrom? .outside ds := by
  induction cs generalizing p ls with
  | nil =>
    cases p with
    | outside =>
      cases h
      simp
    | inside content => cases h
    | quote content =>
      cases h
      cases ds with
      | nil => rfl
      | cons d ds =>
        have hd : d ≠ '\'' := by simpa using hds
        simp [lexemesFrom?, hd, Function.comp_def]
  | cons c cs ih =>
    by_cases hc : c = '\''
    · cases p <;> simp only [lexemesFrom?, List.cons_append, if_pos hc] at h ⊢ <;> exact ih h
    · cases p with
      | inside content =>
        simp only [lexemesFrom?, List.cons_append, if_neg hc] at h ⊢
        exact ih h
      | _ =>
        simp only [lexemesFrom?, List.cons_append, if_neg hc] at h ⊢
        obtain ⟨rest, hrest, rfl⟩ := Option.map_eq_some_iff.1 h
        rw [ih hrest]
        simp [Function.comp_def]

/-- A text in which every string ends can stand beside others. -/
theorem whole_of_lexemes {text : String} (h : (lexemes? text).isSome = true) : Whole text := by
  obtain ⟨ls, hls⟩ := Option.isSome_iff_exists.1 h
  refine ⟨ls, fun cs hcs => lexemesFrom?_append hls fun hhead => ?_⟩
  exact (hcs _ hhead).1 rfl

/-- A string that does not end goes on over what follows, unless that has a quote. -/
theorem lexemesFrom?_append_of_none {p : Place} {cs ds : List Char} (h : lexemesFrom? p cs = none)
    (hds : '\'' ∉ ds) : lexemesFrom? p (cs ++ ds) = none := by
  have hinside : ∀ content, lexemesFrom? (.inside content) ds = none := by
    intro content
    induction ds generalizing content with
    | nil => rfl
    | cons d ds ih =>
      rw [List.mem_cons, not_or] at hds
      rw [lexemesFrom?, if_neg (Ne.symm hds.1), ih hds.2]
  induction cs generalizing p with
  | nil =>
    cases p with
    | inside content => exact hinside content
    | _ => cases h
  | cons c cs ih =>
    by_cases hc : c = '\''
    · cases p <;> simp only [lexemesFrom?, List.cons_append, if_pos hc] at h ⊢ <;> exact ih h
    · cases p with
      | inside content =>
        simp only [lexemesFrom?, List.cons_append, if_neg hc] at h ⊢
        exact ih h
      | _ =>
        simp only [lexemesFrom?, List.cons_append, if_neg hc] at h ⊢
        rw [ih (Option.map_eq_none_iff.1 h)]
        rfl

/-- Outside strings, the characters that are no quotes are lexemes. -/
theorem lexemes_marks {text : List Char} (h : '\'' ∉ text) (cs : List Char) :
    lexemesFrom? .outside (text ++ cs) = (text.map .mark ++ ·) <$> lexemesFrom? .outside cs := by
  induction text with
  | nil => simp
  | cons c text ih =>
    rw [List.mem_cons, not_or] at h
    rw [List.cons_append, lexemesFrom?, if_neg (Ne.symm h.1), ih h.2]
    simp [Function.comp_def]

theorem reads_of_not_quote {text : String} (h : '\'' ∉ text.toList) :
    Reads text.toList (text.toList.map .mark) :=
  fun cs _ => lexemes_marks h cs

namespace Part

/-- Whether a fixed word can stand between others: it has no quote, does not end in a dot and names no
document. -/
def isFixed : Part → Bool
  | word t =>
    let xs := chunks (t.toList.map .mark)
    !t.toList.contains '\'' && xs.take 2 != [.dot, .word documentColumn.toList] &&
      xs.getLast? != some .dot &&
      (referencesFrom none none xs).isEmpty
  | hole _ => true

theorem isFixed_hole (t : String) : (hole t).isFixed = true := rfl

/-- Whether a new word starts behind the part. -/
def opens : Part → Bool
  | word t => t.toList.getLast?.any (!isWordChar ·)
  | hole _ => false

/-- Whether the part ends a word in front of it. -/
def stops : Part → Bool
  | word t => t.toList.head?.any (!isWordChar ·)
  | hole _ => false

/-- Whether no word goes on from one part to the next. -/
def spaced : List Part → Bool
  | [] => true
  | [p] => p.isFixed
  | p :: q :: ps => p.isFixed && (p.opens || q.stops) && spaced (q :: ps)

def references : Part → List Reference
  | word _ => []
  | hole t => Sql.references t

variable {p q : Part} {ps : List Part}

theorem spaced_cons (h : spaced (p :: ps) = true) :
    p.isFixed = true ∧ spaced ps = true ∧
      ∀ q qs, ps = q :: qs → p.opens = true ∨ q.stops = true := by
  cases ps with
  | nil => exact ⟨h, rfl, by simp⟩
  | cons q ps =>
    simp only [spaced, Bool.and_eq_true, Bool.or_eq_true] at h
    refine ⟨h.1.1, h.2, ?_⟩
    rintro q qs ⟨⟩
    exact h.1.2

theorem isFixed_word {t : String} (h : (word t).isFixed = true) : '\'' ∉ t.toList ∧
    Bounded (chunksOf t) ∧ Sql.references t = [] := by
  simp only [isFixed, Bool.and_eq_true, Bool.not_eq_true', bne_iff_ne, List.isEmpty_iff] at h
  have hquote : '\'' ∉ t.toList := by simpa using h.1.1.1
  rw [Sql.references, chunksOf_eq (reads_of_not_quote hquote)]
  exact ⟨hquote, ⟨h.1.1.2, h.1.2⟩, h.2⟩

theorem isBreak_of_opens {t : String} (h : (word t).opens = true) :
    ∃ l, (t.toList.map Lexeme.mark).getLast? = some l ∧ l.isBreak = true := by
  obtain ⟨c, hc, hword⟩ := Option.any_eq_true _ _ |>.1 h
  exact ⟨.mark c, by simp [hc], hword⟩

theorem stops_text (hstops : q.stops = true) (hfixed : q.isFixed = true) (cs : List Char) :
    Stops (q.text.toList ++ cs) := by
  cases q with
  | hole t => cases hstops
  | word t =>
    obtain ⟨c, hc, hword⟩ := Option.any_eq_true _ _ |>.1 hstops
    have hquote := (isFixed_word hfixed).1
    intro d hd
    rw [Part.text, List.head?_append, hc] at hd
    cases hd
    refine ⟨?_, by simpa using hword⟩
    rintro rfl
    exact hquote (List.mem_of_head? hc)

/-- The lexemes of a part. A part that ends words starts with a break, and a part behind which a word
starts ends with one. -/
theorem reads_part (hfixed : p.isFixed = true) (hwhole : ∀ t, p = .hole t → Whole t) :
    ∃ ls, Reads p.text.toList ls ∧
      (p.opens = true → ∃ l, ls.getLast? = some l ∧ l.isBreak = true) ∧
      (p.stops = true → ∃ l, ls.head? = some l ∧ l.isBreak = true) := by
  cases p with
  | word t =>
    refine ⟨t.toList.map .mark, reads_of_not_quote (isFixed_word hfixed).1, isBreak_of_opens, ?_⟩
    intro hstops
    obtain ⟨c, hc, hword⟩ := Option.any_eq_true _ _ |>.1 hstops
    exact ⟨.mark c, by simp [hc], hword⟩
  | hole t =>
    obtain ⟨ls, hreads⟩ := hwhole t rfl
    refine ⟨ls, hreads, fun hopens => ?_, fun hstops => ?_⟩
    · cases hopens
    · cases hstops

/-- The lexemes of parts are those of each part. The last fact carries the induction: a part that
ends words starts with a break. -/
theorem reads (h : spaced ps = true) (holes : ∀ t, .hole t ∈ ps → Whole t) :
    ∃ ls, Reads (ps.flatMap fun p => p.text.toList) ls ∧
      chunks ls = (ps.flatMap fun p => chunksOf p.text) ∧
      ∀ q qs, ps = q :: qs → q.stops = true → ∃ l, ls.head? = some l ∧ l.isBreak = true := by
  induction ps with
  | nil => exact ⟨[], fun cs _ => by simp, rfl, by simp⟩
  | cons p ps ih =>
    obtain ⟨hfixed, hspaced, hnext⟩ := spaced_cons h
    obtain ⟨ls, hreads, hchunks, hbreak⟩ :=
      ih hspaced fun t ht => holes t (List.mem_cons_of_mem _ ht)
    obtain ⟨lp, hp, hopens, hstops⟩ :=
      reads_part hfixed fun t ht => holes t (ht ▸ List.mem_cons_self)
    -- Behind this part there is nothing, or a break on one of the two sides.
    have hside : (∃ l, lp.getLast? = some l ∧ l.isBreak = true) ∨
        ∀ l, ls.head? = some l → l.isBreak = true := by
      cases ps with
      | nil =>
        cases hreads.lexemes
        exact .inr (by simp)
      | cons q qs =>
        rcases hnext q qs rfl with hp | hq
        · exact .inl (hopens hp)
        · obtain ⟨l, hl, hlbreak⟩ := hbreak q qs rfl hq
          refine .inr fun l' hl' => ?_
          cases hl.symm.trans hl'
          exact hlbreak
    refine ⟨lp ++ ls, fun cs hcs => ?_, ?_, ?_⟩
    · have hrest : lexemesFrom? .outside (p.text.toList ++ ((ps.flatMap fun p => p.text.toList) ++ cs)) =
          (lp ++ ·) <$> lexemesFrom? .outside ((ps.flatMap fun p => p.text.toList) ++ cs) := by
        cases p with
        | word t =>
          cases hp.lexemes.symm.trans (reads_of_not_quote (isFixed_word hfixed).1).lexemes
          exact lexemes_marks (isFixed_word hfixed).1 _
        | hole t =>
          refine hp _ ?_
          cases ps with
          | nil => exact hcs
          | cons q qs =>
            rw [List.flatMap_cons, List.append_assoc]
            have hstop : q.stops = true := (hnext q qs rfl).resolve_left (by simp [opens])
            exact stops_text hstop (spaced_cons hspaced).1 _
      rw [List.flatMap_cons, List.append_assoc, hrest, hreads cs hcs]
      simp [Function.comp_def]
    · rw [chunks_append hside, hchunks, List.flatMap_cons, chunksOf_eq hp]
    · rintro q qs ⟨⟩ hq
      obtain ⟨l, hl, hlbreak⟩ := hstops hq
      exact ⟨l, by rw [List.head?_append, hl]; rfl, hlbreak⟩

end Part

/-- The chunks of a text made of fixed words and whole texts are those of its parts. -/
theorem Whole.ofParts (text : String) (ps : List Part)
    (htext : text.toList = ps.flatMap fun p => p.text.toList) (h : Part.spaced ps = true)
    (holes : ∀ t, .hole t ∈ ps → Whole t) :
    Whole text ∧ chunksOf text = ps.flatMap fun p => chunksOf p.text := by
  obtain ⟨ls, hreads, hchunks, -⟩ := Part.reads h holes
  rw [← htext] at hreads
  exact ⟨⟨ls, hreads⟩, (chunksOf_eq hreads).trans hchunks⟩

/-- A text that can stand beside others without changing their references or its own. -/
structure Readable (text : String) : Prop where
  whole : Whole text
  bounded : Bounded (chunksOf text)

theorem bounded_nil : Bounded [] := ⟨by simp, by simp⟩

theorem referencesFrom_flatMap {ps : List Part} (h : ∀ p ∈ ps, Bounded (chunksOf p.text)) :
    Bounded (ps.flatMap fun p => chunksOf p.text) ∧
      referencesFrom none none (ps.flatMap fun p => chunksOf p.text) =
        ps.flatMap fun p => references p.text := by
  induction ps with
  | nil => exact ⟨bounded_nil, rfl⟩
  | cons p ps ih =>
    obtain ⟨hp, hps⟩ := List.forall_mem_cons.1 h
    obtain ⟨hbounded, hreferences⟩ := ih hps
    refine ⟨hp.append hbounded, ?_⟩
    rw [List.flatMap_cons, List.flatMap_cons, referencesFrom_append hbounded.head hp.last (by simp),
      hreferences]
    rfl

theorem Part.isFixed_of_spaced {ps : List Part} (h : Part.spaced ps = true) :
    ∀ p ∈ ps, p.isFixed = true := by
  induction ps with
  | nil => simp
  | cons p ps ih =>
    obtain ⟨hfixed, hspaced, -⟩ := Part.spaced_cons h
    exact List.forall_mem_cons.2 ⟨hfixed, ih hspaced⟩

theorem Readable.ofParts (text : String) (ps : List Part)
    (htext : text.toList = ps.flatMap fun p => p.text.toList) (h : Part.spaced ps = true)
    (holes : ∀ t, .hole t ∈ ps → Readable t) :
    Readable text ∧ references text = ps.flatMap Part.references := by
  obtain ⟨hwhole, hchunks⟩ := Whole.ofParts text ps htext h fun t ht => (holes t ht).whole
  have hparts : ∀ p ∈ ps, Bounded (chunksOf p.text) ∧ references p.text = p.references := by
    intro p hp
    cases p with
    | word t => exact (Part.isFixed_word (Part.isFixed_of_spaced h _ hp)).2
    | hole t => exact ⟨(holes t hp).bounded, rfl⟩
  obtain ⟨hbounded, hreferences⟩ := referencesFrom_flatMap fun p hp => (hparts p hp).1
  refine ⟨⟨hwhole, hchunks ▸ hbounded⟩, ?_⟩
  rw [references, hchunks, hreferences]
  exact List.flatMap_congr fun p hp => (hparts p hp).2

/-! ## Words, strings and numbers -/

theorem chunks_word {cs : List Char} (h : ∀ c ∈ cs, isWordChar c = true) (hne : cs ≠ []) :
    chunks (cs.map .mark) = [.word cs] := by
  induction cs with
  | nil => exact absurd rfl hne
  | cons c cs ih =>
    obtain ⟨hc, hcs⟩ := List.forall_mem_cons.1 h
    rw [List.map_cons, chunks, List.foldr_cons]
    change Chunk.cons (.mark c) (chunks (cs.map .mark)) = _
    cases cs with
    | nil => simp [chunks, Chunk.cons, hc]
    | cons d ds =>
      rw [ih hcs (by simp)]
      simp [Chunk.cons, hc]

/-- The characters of a word, of which there is at least one. -/
structure IsWordText (text : String) : Prop where
  nonempty : text ≠ ""
  chars : ∀ c ∈ text.toList, isWordChar c = true

theorem not_quote_of_isWordChar {cs : List Char} (h : ∀ c ∈ cs, isWordChar c = true) : '\'' ∉ cs :=
  fun hmem => absurd (h _ hmem) (by decide)

theorem IsWordText.chunks_eq {text : String} (h : IsWordText text) :
    chunks (text.toList.map .mark) = [.word text.toList] :=
  chunks_word h.chars fun hnil => h.nonempty (String.toList_eq_nil_iff.1 hnil)

theorem IsWordText.reads {text : String} (h : IsWordText text) :
    Reads text.toList (text.toList.map .mark) :=
  reads_of_not_quote (not_quote_of_isWordChar h.chars)

theorem IsWordText.chunksOf_eq {text : String} (h : IsWordText text) :
    chunksOf text = [.word text.toList] :=
  (Sql.chunksOf_eq h.reads).trans h.chunks_eq

theorem isWordText_of_mem_chunks {ls : List Lexeme} {w : List Char} (h : .word w ∈ chunks ls) :
    IsWordText (String.ofList w) := by
  suffices hword : w ≠ [] ∧ ∀ c ∈ w, isWordChar c = true by
    exact ⟨by simpa using hword.1, by simpa using hword.2⟩
  induction ls generalizing w with
  | nil => cases h
  | cons l ls ih =>
    change Chunk.word w ∈ Chunk.cons l (chunks ls) at h
    generalize chunks ls = xs at h ih
    cases l with
    | string content => exact ih (by simpa [Chunk.cons] using h)
    | mark c =>
      rw [Chunk.cons.eq_def] at h
      dsimp only at h
      split at h
      · rename_i hc
        split at h
        · rename_i w' rest
          obtain heq | hmem := List.mem_cons.1 h
          · cases heq
            obtain ⟨-, hchars⟩ := ih List.mem_cons_self
            exact ⟨by simp, List.forall_mem_cons.2 ⟨hc, hchars⟩⟩
          · exact ih (List.mem_cons_of_mem _ hmem)
        · obtain heq | hmem := List.mem_cons.1 h
          · cases heq
            exact ⟨by simp, by simpa using hc⟩
          · exact ih hmem
      · exact ih (by simpa using h)

theorem isWordText_of_mem_chunksOf {text : String} {w : List Char} (h : .word w ∈ chunksOf text) :
    IsWordText (String.ofList w) := by
  rw [chunksOf] at h
  cases hls : lexemes? text with
  | none => simp [hls] at h
  | some ls => exact isWordText_of_mem_chunks (by simpa [hls] using h)

/-- Where the references of a text have tables, a table and a dot stand in front of the column each time
it is named. -/
theorem exists_suffix_of_references {P : String → Prop} {text : String} {before after : List Chunk}
    (h : ∀ ref ∈ references text, ∃ t, P t ∧ ref = .of t)
    (htext : chunksOf text = before ++ .word documentColumn.toList :: after) :
    ∃ t, P t ∧ IsWordText t ∧ [.word t.toList, .dot] <:+ before := by
  rw [references, htext] at h
  obtain ⟨w, hw, hsuffix⟩ := suffix_of_references h
  have hbefore : [.word w, .dot] <:+ before := by
    simp only [List.suffix_cons_iff, List.cons.injEq, reduceCtorEq, false_and, false_or] at hsuffix
    obtain ⟨front, hfront⟩ := hsuffix
    obtain ⟨xs, ys, rfl, -, hys⟩ := List.map_eq_append_iff.1 hfront.symm
    obtain rfl : ys = [.word w, .dot] := List.map_injective_iff.2 (Option.some_injective _) hys
    exact ⟨xs, rfl⟩
  have hmem : .word w ∈ chunksOf text := by
    rw [htext]
    exact List.mem_append_left _ (hbefore.subset List.mem_cons_self)
  exact ⟨String.ofList w, hw, isWordText_of_mem_chunksOf hmem, by simpa using hbefore⟩

theorem IsWordText.readable {text : String} (h : IsWordText text) : Readable text where
  whole := ⟨_, h.reads⟩
  bounded := by
    rw [h.chunksOf_eq]
    exact ⟨by simp, by simp [Chunk.dot]⟩

theorem IsWordText.no_references {text : String} (h : IsWordText text) (hne : text ≠ documentColumn) :
    references text = [] := by
  have hchars : text.toList ≠ documentColumn.toList := fun heq => hne (String.toList_injective heq)
  rw [references, h.chunksOf_eq]
  simp [referencesFrom, hchars]

section Dotted

variable {text label : String}

theorem Reads.dotted (h : Reads text.toList ls) (hlabel : IsWordText label) :
    Reads (text ++ "." ++ label).toList (ls ++ .mark '.' :: label.toList.map .mark) := by
  intro cs hcs
  have hstop : Stops ('.' :: (label.toList ++ cs)) := by
    rintro c ⟨⟩
    decide
  have hquote : '\'' ∉ '.' :: label.toList := by simp [not_quote_of_isWordChar hlabel.chars]
  have hdot : (text ++ "." ++ label).toList ++ cs = text.toList ++ '.' :: (label.toList ++ cs) := by
    simp
  rw [hdot, h _ hstop, ← List.cons_append, lexemes_marks hquote]
  simp [Function.comp_def]

theorem chunks_dotted (hlabel : IsWordText label) :
    chunks (ls ++ .mark '.' :: label.toList.map .mark) = chunks ls ++ [.dot, .word label.toList] := by
  have hbreak : ∀ l, (Lexeme.mark '.' :: label.toList.map .mark).head? = some l →
      l.isBreak = true := by
    rintro l ⟨⟩
    decide
  have hdot : chunks ([.mark '.'] ++ label.toList.map .mark) = [.dot, .word label.toList] := by
    rw [chunks_append (.inl ⟨.mark '.', rfl, by decide⟩), hlabel.chunks_eq]
    rfl
  rw [chunks_append (.inr hbreak), ← hdot]
  rfl

theorem Whole.dotted (h : Whole text) (hlabel : IsWordText label) : Whole (text ++ "." ++ label) ∧
    chunksOf (text ++ "." ++ label) = chunksOf text ++ [.dot, .word label.toList] := by
  obtain ⟨ls, hreads⟩ := h
  have hdotted := hreads.dotted hlabel
  exact ⟨⟨_, hdotted⟩, by rw [chunksOf_eq hdotted, chunks_dotted hlabel, chunksOf_eq hreads]⟩

/-- A text with an attribute behind it. -/
theorem Readable.attribute (h : Readable text) (hlabel : IsWordText label)
    (hne : label ≠ documentColumn) :
    Readable (text ++ "." ++ label) ∧ references (text ++ "." ++ label) = references text := by
  have hchars : documentColumn.toList ≠ label.toList := fun heq => hne (String.toList_injective heq).symm
  obtain ⟨hwhole, hchunks⟩ := h.whole.dotted hlabel
  have hbounded := h.bounded
  refine ⟨⟨hwhole, ?_⟩, ?_⟩
  · rw [hchunks]
    generalize chunksOf text = xs at hbounded
    refine ⟨?_, by simp [Chunk.dot]⟩
    rcases xs with _ | ⟨x, _ | ⟨y, xs⟩⟩
    · simp [Ne.symm hchars]
    · simp [Chunk.dot]
    · exact hbounded.head
  · rw [references, hchunks]
    refine referencesFrom_append_of_not_mem _ ?_ _ _
    simp [Chunk.dot, hchars]

/-- Words with dots between them. The first one has the property `P`, the others have `Q`. -/
inductive Dotted (P Q : String → Prop) : String → Prop
  | word {w : String} (h : IsWordText w) (hP : P w) : Dotted P Q w
  | label {text label : String} (h : Dotted P Q text) (hlabel : IsWordText label) (hQ : Q label) :
      Dotted P Q (text ++ "." ++ label)

theorem Dotted.mono {P Q P' Q' : String → Prop} (h : Dotted P Q text) (hP : ∀ w, P w → P' w)
    (hQ : ∀ w, Q w → Q' w) : Dotted P' Q' text := by
  induction h with
  | word h hw => exact .word h (hP _ hw)
  | label _ hlabel hl ih => exact .label ih hlabel (hQ _ hl)

theorem Dotted.readable (h : Dotted (· ≠ documentColumn) (· ≠ documentColumn) text) :
    Readable text ∧ references text = [] := by
  induction h with
  | word h hw => exact ⟨h.readable, h.no_references hw⟩
  | label _ hlabel hl ih =>
    obtain ⟨hreadable, hreferences⟩ := ih.1.attribute hlabel hl
    exact ⟨hreadable, hreferences.trans ih.2⟩

/-- The document of a table with the name of the table in front of it. -/
theorem IsWordText.document (h : IsWordText text) (hne : text ≠ documentColumn) :
    Readable (text ++ "." ++ documentColumn) ∧
      references (text ++ "." ++ documentColumn) = [.of text] := by
  have hcolumn : IsWordText documentColumn := ⟨by decide, by decide⟩
  have hchars : text.toList ≠ documentColumn.toList := fun heq => hne (String.toList_injective heq)
  obtain ⟨hwhole, hchunks⟩ := h.readable.whole.dotted hcolumn
  rw [h.chunksOf_eq] at hchunks
  refine ⟨⟨hwhole, ?_⟩, ?_⟩
  · rw [hchunks]
    exact ⟨by simp [Chunk.dot], by simp [Chunk.dot]⟩
  · rw [references, hchunks]
    simp [referencesFrom, hchars, Chunk.dot, Reference.behind]

end Dotted

theorem reads_quote (text : String) : Reads (quote text).toList [.string text.toList] := by
  intro cs hcs
  have hhead : cs.head? ≠ some '\'' := fun h => (hcs _ h).1 rfl
  have hstring : stringFrom? .outside ((quote text).toList ++ cs) = some (text.toList, cs) := by
    rw [stringFrom?_eq_some_iff, toList_quote]
    exact ⟨rfl, hhead⟩
  exact lexemesFrom?_of_stringFrom? hstring

theorem whole_quote (text : String) :
    Whole (quote text) ∧ chunksOf (quote text) = [.string text.toList] :=
  ⟨⟨_, reads_quote text⟩, chunksOf_eq (reads_quote text)⟩

theorem readable_quote (text : String) : Readable (quote text) ∧ references (quote text) = [] := by
  obtain ⟨hwhole, hchunks⟩ := whole_quote text
  refine ⟨⟨hwhole, ?_⟩, ?_⟩
  · rw [hchunks]
    exact ⟨by simp, by simp [Chunk.dot]⟩
  · rw [references, hchunks]
    rfl

theorem readable_empty : Readable "" ∧ references "" = [] :=
  Readable.ofParts "" [] rfl rfl (by simp)

theorem readable_intercalate {sep : String} (hsep : (Part.word sep).isFixed = true ∧
    (Part.word sep).opens = true ∧ (Part.word sep).stops = true)
    {items : List String} (h : ∀ i ∈ items, Readable i) :
    Readable (sep.intercalate items) ∧
      references (sep.intercalate items) = items.flatMap references := by
  induction items with
  | nil => exact readable_empty
  | cons x items ih =>
    obtain ⟨hx, hitems⟩ := List.forall_mem_cons.1 h
    cases items with
    | nil => simpa using hx
    | cons y items =>
      obtain ⟨hrest, hreferences⟩ := ih hitems
      rw [String.intercalate_cons_cons]
      generalize sep.intercalate (y :: items) = rest at hrest hreferences
      have hspaced : Part.spaced [.hole x, .word sep, .hole rest] = true := by
        simp only [Part.spaced, Part.isFixed_hole, hsep, Bool.or_true, Bool.true_or, Bool.and_self]
      have htext : (x ++ sep ++ rest).toList =
          [Part.hole x, .word sep, .hole rest].flatMap fun p => p.text.toList := by simp [Part.text]
      obtain ⟨hall, hsum⟩ := Readable.ofParts _ _ htext hspaced (by simp [hx, hrest])
      refine ⟨hall, ?_⟩
      rw [hsum]
      simp [Part.references, hreferences]

end DocQuery.Sql
