import DocQuery.Proofs.Stability
import DocQuery.Proofs.Reading
import DocQuery.Proofs.Enclosed
import DocQuery.Query.Source

/-! # Texts that are wrapped

A text that is an expression stands for the same expression in parentheses, and behind the head of
an anonymous function without parameters.

* `rise_of_reader`: a text that can be read closes all its parentheses.
* `parse_parenthesized`, `parse_lambda`: what the wrapped texts are read as.
* `parse_wrapped`: wrapping a text does not change its expression.
-/

set_option autoImplicit false

namespace DocQuery

open Text Token DocQuery.Parser

/-! ## Blanks at the end -/

/-- A text that can be read is an expression with blanks behind it. -/
theorem reader_of_parse {text : String} {e : Expr} (h : Expr.parse text = .ok e) :
    ∃ r, Expr.reader text.toList = .ok e r ∧ ∀ c ∈ r, isBlank c = true := by
  rw [Expr.parse] at h
  dsimp only at h
  split at h
  · rename_i value r hr
    split at h
    · rename_i hblank
      cases h
      refine ⟨r, hr, ?_⟩
      rw [List.isEmpty_iff, trimStart, List.dropWhile_eq_nil_iff] at hblank
      exact hblank
    · cases h
  · cases h

theorem parse_of_reader {text : String} {e : Expr} {r : List Char}
    (h : Expr.reader text.toList = .ok e r) (hr : ∀ c ∈ r, isBlank c = true) :
    Expr.parse text = .ok e := by
  have hblank : trimStart r = [] := List.dropWhile_eq_nil_iff.2 hr
  simp [Expr.parse, h, hblank]

/-- A text that can be read closes all the parentheses that it opens. -/
theorem rise_of_reader {s r : List Char} {e : Expr} (h : Expr.reader s = .ok e r)
    (hr : ∀ c ∈ r, isBlank c = true) : rise .outside s = 0 := by
  have htaken : Taken 1 0 s r := (inner_grammar (s.length + 1)).expression.ok h
  have hrise := htaken.rise
  have hnil : rise .outside r = 0 := by
    have happend := rise_append (fun c hc => not_mem_marks (by decide) (hr c hc)) []
    rwa [List.append_nil] at happend
  omega

/-- Blanks that end a text are among its trailing blanks. -/
theorem mem_rtakeWhile_of_suffix {class' : Char → Bool} {s r : List Char} (h : r <:+ s)
    (hr : ∀ c ∈ r, class' c = true) : ∀ c ∈ r, c ∈ s.rtakeWhile class' := by
  obtain ⟨front, rfl⟩ := h
  intro c hc
  rw [List.rtakeWhile, List.reverse_append,
    List.takeWhile_append_of_pos (fun d hd => hr d (List.mem_reverse.1 hd))]
  simp [hc]

/-! ## Parentheses -/

theorem fails_of_skipGap {α : Type} {p : Parser α} (h : Skips p) {s : List Char}
    (hs : Fails p (skipGap s)) : Fails p s := by
  induction s with
  | nil => exact hs
  | cons c s ih =>
    cases hc : isGap c with
    | true => exact h.fails hc (ih (by rwa [skipGap_gap hc] at hs))
    | false => rwa [skipGap_cons hc] at hs

namespace Grammar

variable {g : Grammar} {e : Expr} {s r : List Char}

/-- After an expression and a gap, a parenthesis ends. -/
theorem parenTail_close (hr : ∀ c ∈ r, isGap c = true) (first : Expr) :
    g.parenTail first (r ++ [')']) = .ok first [] := by
  have hskip : skipGap (r ++ [')']) = [')'] := by
    rw [skipGap, List.dropWhile_append_of_pos hr]
    rfl
  have hclauses : Fails g.clauses (r ++ [')']) := by
    refine fails_bind (fails_bind (keyword_fails ?_) _) _
    rw [hskip]
    rfl
  have hcomma : Fails (symbol ",") (r ++ [')']) := by
    refine operator_fails ?_
    rw [hskip]
    rfl
  have hclose : symbol ")" (r ++ [')']) = .ok () [] := by
    refine symbol_ok ?_
    rw [hskip]
    rfl
  have hmany : g.commaTail (r ++ [')']) = .ok [] (r ++ [')']) :=
    many_of_fails (fails_bind hcomma _)
  rw [parenTail_eq, bind_ok (opt_of_fails hclauses)]
  dsimp only [Option.elim]
  rw [bind_ok hmany, bind_ok (opt_of_fails hcomma), bind_ok hclose]
  rfl

/-- An expression in parentheses, with a gap behind it. -/
theorem paren_of_expression (hskips : Skips g.expression)
    (hfails : ∀ t, Fails g.expression (')' :: t))
    (h : g.expression (s ++ [')']) = .ok e (r ++ [')'])) (hr : ∀ c ∈ r, isGap c = true) :
    g.paren ('(' :: (s ++ [')'])) = .ok e [] := by
  -- If the parenthesis were closed at once, no expression could be read there.
  have hclose : Fails (symbol ")") (s ++ [')']) := by
    cases hs : symbol ")" (s ++ [')']) with
    | error place => exact ⟨place, hs⟩
    | ok u t =>
      have hskip : skipGap (s ++ [')']) = ')' :: t := skipGap_of_symbol hs
      obtain ⟨place, hplace⟩ := fails_of_skipGap hskips (by rw [hskip]; exact hfails t)
      rw [h] at hplace
      cases hplace
  rw [paren, bind_ok (symbol_ok rfl), orElse_of_fails (fails_bind hclose _), bind_ok h,
    parenTail_close hr]

end Grammar

/-- An atom that is a whole text in brackets is an expression of every level. -/
theorem reaches_of_atom {g : Grammar} {s : List Char} {e : Expr} (hs : ∀ k, Opens k s)
    (h : g.atom s = .ok e []) (L : Level) : Reaches g s [] L e := by
  obtain ⟨d, hd⟩ := Nat.exists_eq_add_of_le L.rank_le
  induction d generalizing L with
  | zero =>
    have hatom : L = .atom := Level.rank_injective hd.symm
    subst hatom
    exact .whole rfl (by decide) h
  | succ d ih =>
    have htighter := Level.rank_tighter (L := L) (by omega)
    have hbound := L.rank_le_bound
    have hrank : 1 ≤ L.rank := by cases L <;> decide
    exact .up (ih L.tighter (by omega)) (hs _) .stop (by omega)

theorem parse_parenthesized {text : String} {e : Expr} (h : Expr.parse text = .ok e)
    (htrailing : ∀ c ∈ text.toList.rtakeWhile isBlank, isGap c = true) :
    Expr.parse ("(" ++ text ++ ")") = .ok e := by
  obtain ⟨r, hread, hblank⟩ := reader_of_parse h
  have hsuffix : r <:+ text.toList := ((inner_grammar _).expression.ok hread).suffix
  have hgap : ∀ c ∈ r, isGap c = true := fun c hc =>
    htrailing c (mem_rtakeWhile_of_suffix hsuffix hblank c hc)
  let n := text.toList.length + 2
  have hinner : (grammar n).expression (text.toList ++ [')']) = .ok e (r ++ [')']) :=
    stable_expression .close hread (rise_of_reader hread hblank) (by omega)
  have hparen := Grammar.paren_of_expression (skips_expression n)
    (fun t => expression_fails (by decide) n t) hinner hgap
  have hwhole : (grammar n).anyExpression ('(' :: (text.toList ++ [')'])) = .ok e [] :=
    (reaches_of_atom (fun k => .bracket (by decide) _) (Grammar.atom_of_paren hparen)
      .expression).parser .stop (by decide)
  have hlist : ("(" ++ text ++ ")").toList = '(' :: (text.toList ++ [')']) := by simp
  refine parse_of_reader (r := []) ?_ (by simp)
  rw [hlist, Expr.reader, List.length_cons, List.length_append]
  exact hwhole

/-! ## Anonymous functions -/

theorem parse_lambda {text : String} {e : Expr} (h : Expr.parse text = .ok e) :
    Expr.parse ("lambda: " ++ text) = .ok (.lambda [] none none e) := by
  obtain ⟨r, hread, hblank⟩ := reader_of_parse h
  let n := text.toList.length + 8
  have hinner : (grammar n).expression text.toList = .ok e r := by
    have hstable := stable_expression .none hread (rise_of_reader hread hblank)
      (by omega : text.toList.length < n)
    simpa using hstable
  have hbody : (grammar n).expression (' ' :: text.toList) = .ok e r :=
    (skips_expression n).ok rfl hinner
  have hkeyword : keyword "lambda" ("lambda: ".toList ++ text.toList) =
      .ok () (':' :: ' ' :: text.toList) :=
    keyword_ok rfl (wordEnd_cons (by decide) _)
  have hparams : (grammar n).parameters (':' :: ' ' :: text.toList) =
      .ok [] (':' :: ' ' :: text.toList) :=
    Grammar.parameters_none _ _
  have hlambda : (grammar n).lambda ("lambda: ".toList ++ text.toList) =
      .ok (.lambda [] none none e) r := by
    rw [Grammar.lambda, bind_ok hkeyword, bind_ok hparams, bind_ok (symbol_ok rfl), bind_ok hbody]
    rfl
  refine parse_of_reader (r := r) ?_ hblank
  rw [String.toList_append]
  exact orElse_ok hlambda

theorem Source.expr_text (text : String) :
    (Source.text text).expr = Expr.parse text >>= bodyOf := rfl

theorem Source.bodyOf_of_not_lambda {e : Expr}
    (he : ∀ params rest named body, e ≠ .lambda params rest named body) : bodyOf e = .ok e := by
  cases e with
  | lambda params rest named body => exact absurd rfl (he params rest named body)
  | _ => rfl

/-- Wrapping a text does not change its expression. In parentheses, only gaps may end the text,
since other blanks cannot stand in front of a token. -/
theorem parse_wrapped (text : String) (e : Expr) (h : Expr.parse text = .ok e) :
    ((∀ c ∈ text.toList.rtakeWhile isBlank, isGap c = true) →
      Expr.parse ("(" ++ text ++ ")") = .ok e) ∧
    ((∀ params rest named body, e ≠ .lambda params rest named body) →
      (Source.text ("lambda: " ++ text)).expr = .ok e ∧ (Source.text text).expr = .ok e) := by
  refine ⟨parse_parenthesized h, fun he => ⟨?_, ?_⟩⟩
  · rw [Source.expr_text, parse_lambda h]
    rfl
  · rw [Source.expr_text, h]
    exact Source.bodyOf_of_not_lambda he

/-- A call with a parenthesis in a string, and a gap behind it. -/
theorem parse_wrapped_call :
    Expr.parse ("(" ++ "f(')', x)\t" ++ ")") =
      .ok (.call (.name "f") [.literal (.str ")"), .name "x"] []) ∧
    (Source.text ("lambda: " ++ "f(')', x)\t")).expr =
      .ok (.call (.name "f") [.literal (.str ")"), .name "x"] []) ∧
    (Source.text "f(')', x)\t").expr =
      .ok (.call (.name "f") [.literal (.str ")"), .name "x"] []) := by
  have hparse : Expr.parse "f(')', x)\t" =
      .ok (.call (.name "f") [.literal (.str ")"), .name "x"] []) := by cbv
  obtain ⟨hparen, hlambda⟩ := parse_wrapped _ _ hparse
  exact ⟨hparen (by decide), hlambda (by simp)⟩

end DocQuery
