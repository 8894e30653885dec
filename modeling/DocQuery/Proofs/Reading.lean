import DocQuery.Proofs.Arguments
import DocQuery.Expr.Parse

/-! # Every spelling is read back

The main result is `Spelling.parse`: a text that writes an expression is read as that expression. It
is proved by induction on the spelling, for every text that may follow it.

Levels at which operands are grouped from the left need care. The parser of such a level reads an
operand and then a run of links, while the spelling has the last link outermost; so the statement for
these levels says what has been read before the repetition ends (`Reaches`).
-/

set_option autoImplicit false

namespace DocQuery

open DocQuery.Parser Token

/-! ## How a spelling begins -/

theorem Level.rank_le_tighter (L : Level) : L.rank ≤ L.tighter.rank := by cases L <;> decide

theorem Begins.append {k m : Nat} {s t : List Char} (h : Begins k s) (hm : m ≤ k)
    (ht : ∀ r, ∃ j, Follow j (t ++ r)) : Begins m (s ++ t) := by
  intro j r hr
  obtain ⟨i, hi⟩ := ht r
  rw [List.append_assoc]
  exact (h hi).mono hm

/-- A spelling starts like an expression of its level. -/
theorem Spelling.begins {L : Level} {e : Expr} {s : List Char} (h : Spelling L e s) :
    Begins L.rank s := by
  induction h with
  | @up L _ _ _ ih => exact fun j r hr => (ih hr).mono L.rank_le_tighter
  | @lambda e s params rest named =>
    intro j r hr
    obtain ⟨c, t, heq, hc⟩ := @Grammar.parameterText_head (' ' :: (s ++ r))
      (parameterTexts (params.map (·.map Prod.snd)) rest named)
    have htext : "lambda".toList ++ (parameterText
        (parameterTexts (params.map (·.map Prod.snd)) rest named) ++ ':' :: ' ' :: s) ++ r =
        "lambda".toList ++ c :: t := by
      rw [← heq, List.append_assoc, List.append_assoc]
      rfl
    rw [htext]
    exact .lambda (by decide) hc t
  | conditional _ _ _ ih =>
    exact ih.append (by decide) fun r => ⟨1, by rw [List.append_assoc]; exact .condition _⟩
  | boolean op first second others _ ih =>
    refine (ih first List.mem_cons_self).append op.level.rank_le_tighter fun r => ⟨op.level.rank, ?_⟩
    rw [List.flatMap_cons, List.append_assoc, List.append_assoc]
    exact .operand op _
  | negation => exact fun j r _ => .negation (by decide) _
  | compare _ links some _ ih =>
    refine ih.append (by decide) fun r => ⟨5, ?_⟩
    cases links with
    | nil => exact absurd rfl some
    | cons l links =>
      rw [List.flatMap_cons, List.append_assoc, List.append_assoc]
      exact .link l.1 _
  | binary op _ _ _ ih =>
    exact ih.append (Nat.le_refl _) fun r => ⟨_, by rw [List.append_assoc]; exact .binary op _⟩
  | sign op hop =>
    intro j r _
    cases op with
    | not => exact absurd rfl hop
    | neg => exact .sign (by decide) (by decide) _
    | pos => exact .sign (by decide) (by decide) _
    | invert => exact .sign (by decide) (by decide) _
  | power _ _ ih =>
    exact ih.append (by decide) fun r => ⟨_, by rw [List.append_assoc]; exact .binary .pow _⟩
  | attr _ _ _ ih => exact ih.append (Nat.le_refl _) fun r => ⟨14, .trailer (by decide) _⟩
  | gapAttr _ _ ih => exact ih.append (Nat.le_refl _) fun r => ⟨14, .gapAttr _⟩
  | call _ _ _ _ _ _ _ _ _ ih => exact ih.append (Nat.le_refl _) fun r => ⟨14, .trailer (by decide) _⟩
  | subscript _ _ _ ih => exact ih.append (Nat.le_refl _) fun r => ⟨14, .trailer (by decide) _⟩
  | subscripts _ _ _ _ ih => exact ih.append (Nat.le_refl _) fun r => ⟨14, .trailer (by decide) _⟩
  | none =>
    exact fun j r hr => .word (reserved_isIdentifier (by decide)) (by decide) (by decide) hr
  | bool b =>
    intro j r hr
    cases b with
    | true =>
      exact .word (w := "True".toList) (reserved_isIdentifier (by decide)) (by decide) (by decide) hr
    | false =>
      exact .word (w := "False".toList) (reserved_isIdentifier (by decide)) (by decide) (by decide) hr
  | int n =>
    intro j r _
    have hdigits := isDigit_toDigits n
    cases hds : Nat.toDigits 10 n with
    | nil => exact absurd hds Nat.toDigits_ne_nil
    | cons c cs => exact .digit (hdigits c (by simp [hds])) _
  | str v =>
    intro j r _
    rw [toList_quoted]
    exact .bracket (by decide) _
  | @name id h =>
    intro j r hr
    refine .word h.1 (fun heq => h.2 ?_) (fun heq => h.2 ?_) hr
    · rw [String.toList_inj.1 heq]
      decide
    · rw [String.toList_inj.1 heq]
      decide
  | _ => exact fun j r _ => .bracket (by decide) _

/-! ## Levels that group from the left -/

/-- Whether the level is one of binary operators that group from the left. -/
def Level.isChain : Level → Bool
  | bitOr | bitXor | bitAnd | shift | arith | term => true
  | _ => false

/-- An operator of the level with the operand after it. -/
def Level.link (g : Grammar) (L : Level) : Parser (BinaryOp × Expr) := do
  let o ← L.operators
  let e ← L.tighter.parser g
  return (o, e)

/-- An expression with one more link. -/
def Expr.linked (left : Expr) (link : BinaryOp × Expr) : Expr := .binary left link.1 link.2

theorem Level.parser_eq_leftChain {L : Level} (h : L.isChain = true) (g : Grammar) :
    L.parser g = Grammar.leftChain (L.tighter.parser g) L.operators := by
  cases L <;> first | rfl | cases h

/-- How far the parser of a level has come in front of `r`. Where operands or trailers are grouped
from the left, it has read `e`, but may still go on. -/
inductive Reaches (g : Grammar) (s r : List Char) : Level → Expr → Prop
  | whole {L : Level} {e : Expr} (chain : L.isChain = false) (primary : L ≠ .primary)
      (h : L.parser g s = .ok e r) : Reaches g s r L e
  | chain {L : Level} {first : Expr} {mid : List Char} {links : List (BinaryOp × Expr)}
      (chain : L.isChain = true) (h : L.tighter.parser g s = .ok first mid)
      (run : Steps (L.link g) links mid r) : Reaches g s r L (links.foldl Expr.linked first)
  | trailers {first : Expr} {mid : List Char} {ts : List Grammar.Trailer}
      (h : g.atom s = .ok first mid) (run : Steps g.trailer ts mid r) :
      Reaches g s r .primary (ts.foldl Grammar.Trailer.apply first)

/-- The levels below the bound take up what may follow where the parser of the level `L` has come. -/
def Level.bound (L : Level) : Nat := if L.isChain || L == .primary then L.rank + 1 else L.rank

theorem Level.rank_le_bound (L : Level) : L.rank ≤ L.bound := by cases L <;> decide

theorem Level.bound_le_tighter (L : Level) : L.bound ≤ L.tighter.rank := by cases L <;> decide

theorem Level.bound_of_chain {L : Level} (h : L.isChain = true) :
    L.bound = L.rank + 1 ∧ L.tighter.rank = L.rank + 1 := by
  cases L <;> first | decide | cases h

theorem Follow.no_point {k : Nat} {t : List Char} (h : Follow k t) (hk : k < 14) :
    t.head? ≠ some '.' := by
  cases h with
  | stop => simp
  | close h t =>
    intro heq
    cases heq
    revert h
    decide
  | trailer => omega
  | _ => exact nofun

theorem Follow.ne_nil {k : Nat} {t : List Char} (h : Follow k t) (hk : 0 < k) : t ≠ [] := by
  cases h with
  | stop => omega
  | _ => simp [spaced]

namespace Reaches

variable {g : Grammar} {s r : List Char} {L : Level} {e : Expr} {k : Nat}

/-- Where nothing follows that the level takes up, the parser stops. -/
theorem parser (h : Reaches g s r L e) (hr : Follow k r) (hk : k < L.rank) :
    L.parser g s = .ok e r := by
  cases h with
  | whole _ _ h => exact h
  | @chain _ _ mid links chain h run =>
    have hmany : many (do
        let o ← L.operators
        let e ← L.tighter.parser g
        return (o, e)) mid = .ok links r :=
      many_of_steps run (fails_bind (hr.operators_fail hk) _)
    rw [Level.parser_eq_leftChain chain, Grammar.leftChain, bind_ok h, bind_ok hmany]
    rfl
  | trailers h run =>
    have hmany := many_of_steps run (hr.trailer_fails hk g)
    change g.primary s = _
    rw [Grammar.primary, bind_ok h, bind_ok hmany]
    rfl

/-- An expression of the next level is one of this level when nothing more of it follows. -/
theorem up (h : Reaches g s r L.tighter e) (hs : Opens L.tighter.rank s) (hr : Follow k r)
    (hk : k < L.bound) : Reaches g s r L e := by
  have hread : L.tighter.parser g s = .ok e r :=
    h.parser hr (Nat.lt_of_lt_of_le hk L.bound_le_tighter)
  -- Every level asks the tighter one first, and what follows is too loose to go on with.
  cases L with
  | atom => exact h
  | primary => exact .trailers hread (.done r)
  | expression =>
    refine .whole rfl nofun ?_
    replace hread : g.disjunction s = .ok e r := hread
    change g.anyExpression s = _
    have hlambda : Fails g.lambda s := fails_bind (hs.lambda_fails (by decide)) _
    rw [Grammar.anyExpression, orElse_of_fails hlambda, Grammar.conditional, bind_ok hread,
      bind_ok (opt_of_fails (fails_bind (hr.if_fails hk) _))]
    rfl
  | disjunction =>
    refine .whole rfl nofun ?_
    replace hread : g.conjunction s = .ok e r := hread
    change g.disjunction s = _
    have hor : Fails (keyword BoolOp.or.keyword) r := hr.connective_fails hk
    rw [Grammar.disjunction, Grammar.boolChain, bind_ok hread,
      bind_ok (many_of_fails (fails_bind hor _))]
    rfl
  | conjunction =>
    refine .whole rfl nofun ?_
    replace hread : g.negation s = .ok e r := hread
    change g.conjunction s = _
    have hand : Fails (keyword BoolOp.and.keyword) r := hr.connective_fails hk
    rw [Grammar.conjunction, Grammar.boolChain, bind_ok hread,
      bind_ok (many_of_fails (fails_bind hand _))]
    rfl
  | negation =>
    refine .whole rfl nofun ?_
    change g.negation s = _
    rw [Grammar.negation, orElse_of_fails (fails_bind (hs.not_fails (by decide)) _)]
    exact hread
  | comparison =>
    refine .whole rfl nofun ?_
    replace hread : g.bitOr s = .ok e r := hread
    change g.comparison s = _
    rw [Grammar.comparison, bind_ok hread, bind_ok (many_of_fails (fails_bind (hr.cmpOp_fails hk) _))]
    rfl
  | signed =>
    refine .whole rfl nofun ?_
    change g.signed s = _
    rw [Grammar.signed, orElse_of_fails (fails_bind (hs.sign_fails (by decide)) _)]
    exact hread
  | power =>
    refine .whole rfl nofun ?_
    replace hread : g.primary s = .ok e r := hread
    change g.power s = _
    rw [Grammar.power, bind_ok hread,
      bind_ok (opt_of_fails (fails_bind (hr.power_fails hk) _))]
    rfl
  | _ => exact @chain g s r _ e r [] rfl hread (.done r)

end Reaches

/-! ## Lengths

A parser has as many rounds as its text has characters, and every inner text is shorter. -/

theorem length_le_flatMap {α : Type} {f : α → List Char} {a : α} {l : List α} (h : a ∈ l) :
    (f a).length ≤ (l.flatMap f).length := by
  induction l with
  | nil => cases h
  | cons b l ih =>
    rw [List.flatMap_cons, List.length_append]
    rcases List.mem_cons.1 h with rfl | h
    · omega
    · have := ih h
      omega

theorem length_le_commas {t : List Char} {ts : List (List Char)} (h : t ∈ ts) :
    t.length ≤ (commas ts).length := by
  cases ts with
  | nil => cases h
  | cons u ts =>
    rw [commas, List.length_append]
    rcases List.mem_cons.1 h with rfl | h
    · omega
    · have := length_le_flatMap (f := fun t => ',' :: ' ' :: t) h
      simp only [List.length_cons] at this
      rw [withCommas]
      omega

theorem Param.length_le {p : Param Written} {w : Written} (h : w ∈ p.default) :
    w.2.length ≤ (p.map Prod.snd).text.length := by
  obtain ⟨id, default⟩ := p
  cases h
  simp only [Param.map, Option.map_some, Param.text, List.length_append, List.length_cons]
  omega

theorem length_commas_le (ts : List (List Char)) :
    (commas ts).length ≤ (parameterText ts).length := by
  cases ts with
  | nil => exact Nat.le_refl _
  | cons t ts => exact Nat.le_succ _

theorem length_le_parameterText {params : List (Param Written)} (rest named : Option String)
    {p : Param Written} {w : Written} (hp : p ∈ params) (h : w ∈ p.default) :
    w.2.length ≤
      (parameterText (parameterTexts (params.map (·.map Prod.snd)) rest named)).length := by
  have hmem : (p.map Prod.snd).text ∈ parameterTexts (params.map (·.map Prod.snd)) rest named := by
    refine List.mem_append_left _ (List.mem_append_left _ ?_)
    exact List.mem_map_of_mem (List.mem_map_of_mem hp)
  calc w.2.length
    _ ≤ (p.map Prod.snd).text.length := Param.length_le h
    _ ≤ _ := length_le_commas hmem
    _ ≤ _ := length_commas_le _

theorem Positional.length_le (a : Positional Written) :
    a.value.2.length ≤ (a.map Prod.snd).text.length := by
  obtain ⟨spread, w⟩ := a
  cases spread
  · exact Nat.le_refl _
  · exact Nat.le_succ _

theorem Passed.length_le (a : Passed Written) :
    a.value.2.length ≤ (a.map Prod.snd).text.length := by
  have := a.toPositional.length_le
  simp only [Passed.map, Passed.text, List.length_append]
  omega

theorem Passed.length_clause {a : Passed Written} {c : Clause Written} (h : c ∈ a.clauses) :
    (c.map Prod.snd).text.length ≤ (a.map Prod.snd).text.length := by
  have hmem := length_le_flatMap (f := Clause.text)
    (List.mem_map_of_mem (f := fun c : Clause Written => c.map Prod.snd) h)
  rw [Passed.text, List.length_append]
  exact Nat.le_trans hmem (Nat.le_add_left _ _)

theorem Keyword.length_le (k : Keyword Written) :
    k.value.2.length ≤ (k.map Prod.snd).text.length := by
  obtain ⟨label, w⟩ := k
  cases label with
  | none => exact Nat.le_add_right _ 2
  | some id =>
    simp only [Keyword.map, Keyword.text, List.length_append, List.length_cons]
    omega

theorem Clause.length_source (c : Clause Written) :
    c.source.2.length ≤ (c.map Prod.snd).text.length := by
  simp only [Clause.map, Clause.text, List.length_append]
  omega

theorem Clause.length_condition {c : Clause Written} {w : Written} (h : w ∈ c.conditions) :
    w.2.length ≤ (c.map Prod.snd).text.length := by
  have hmem := length_le_flatMap (f := fun t => spaced "if" ++ t) (List.mem_map_of_mem (f := Prod.snd) h)
  simp only [Clause.map, Clause.text, List.length_append] at hmem ⊢
  omega

theorem Index.length_le {i : Index Written} {w : Written} (h : w ∈ i.parts) :
    w.2.length ≤ (i.map Prod.snd).text.length := by
  cases i with
  | single v =>
    cases List.mem_singleton.1 h
    exact Nat.le_refl _
  | slice lower upper step =>
    simp only [Index.parts, List.mem_append, Option.mem_toList] at h
    rcases h with (rfl | rfl) | rfl
    · simp only [Index.map, Option.map_some, Index.text, Option.getD_some, List.length_append]
      omega
    · simp only [Index.map, Option.map_some, Index.text, Option.getD_some, List.length_append,
        List.length_cons]
      omega
    · simp only [Index.map, Option.map_some, Index.text, List.length_append, List.length_cons]
      omega

/-! ## Reading a spelling -/

/-- After `n` rounds, the text is read at the level up to whatever may follow it. A point after digits
would belong to a number. -/
def Readable (n : Nat) (L : Level) (e : Expr) (s : List Char) : Prop :=
  ∀ ⦃k : Nat⦄ ⦃r : List Char⦄, Follow k r → k < L.bound →
    (r.head? = some '.' → ∃ c ∈ s, c.isDigit = false) → Reaches (grammar n) (s ++ r) r L e

/-- The text is read at the level when there are enough rounds. -/
def ReadBack (L : Level) (e : Expr) (s : List Char) : Prop := ∀ n, s.length ≤ n → Readable n L e s

section ReadBack

variable {L : Level} {e : Expr} {s t u : List Char} {n : Nat}

theorem Readable.reads (h : Readable n L e s) (hL : L ≠ .atom) :
    Reads (L.parser (grammar n)) L.rank (e, s) := by
  intro k r hr hk
  have hrank : L.rank ≤ 14 := by cases L <;> first | decide | exact absurd rfl hL
  have hpoint := hr.no_point (by omega)
  exact (h hr (Nat.lt_of_lt_of_le hk L.rank_le_bound) fun heq => absurd heq hpoint).parser hr hk

/-- At a level that does not group from the left, it is enough to say what the parser reads. -/
theorem readable_whole (hchain : L.isChain = false) (hprimary : L ≠ .primary)
    (h : Reads (L.parser (grammar n)) L.rank (e, s)) : Readable n L e s := by
  intro k r hr hk _
  refine .whole hchain hprimary (h k r hr ?_)
  have hbound : L.bound = L.rank := by simp [Level.bound, hchain, hprimary]
  omega

/-- Inner parsers have one round less. -/
theorem ReadBack.inner {p : Grammar → Parser Expr} (h : ReadBack L e s)
    (hp : ∀ g : Grammar, p g.next = L.parser g) (hL : L ≠ .atom) (hn : s.length < n) :
    Reads (p (grammar n)) L.rank (e, s) := by
  cases n with
  | zero => omega
  | succ n =>
    rw [grammar, hp]
    exact (h n (by omega)).reads hL

theorem ReadBack.expression (h : ReadBack .expression e s) (hn : s.length < n) :
    Reads (grammar n).expression 1 (e, s) :=
  h.inner (p := Grammar.expression) (fun _ => rfl) nofun hn

theorem ReadBack.orTest (h : ReadBack .disjunction e s) (hn : s.length < n) :
    Reads (grammar n).orTest 2 (e, s) :=
  h.inner (p := Grammar.orTest) (fun _ => rfl) nofun hn

theorem skips_orTest (n : Nat) : Skips (grammar n).orTest := by
  cases n with
  | zero => exact fun _ _ _ => True.intro
  | succ n => exact Grammar.skips_disjunction (grammar n)

theorem skips_notTest (n : Nat) : Skips (grammar n).notTest := by
  cases n with
  | zero => exact fun _ _ _ => True.intro
  | succ n => exact Grammar.skips_negation (grammar n)

theorem skips_factor (n : Nat) : Skips (grammar n).factor := by
  cases n with
  | zero => exact fun _ _ _ => True.intro
  | succ n => exact Grammar.skips_signed (grammar n)

theorem expression_fails_of_missing {r : List Char} (n : Nat) (h : MissingPart r) :
    Fails (grammar n).expression r := by
  obtain ⟨c, t, rfl, hc⟩ := h
  exact expression_fails ((by decide : ∀ c ∈ [']', ',', ':'], c ∈ [')', ']', ',', ':']) c hc) n t

/-! ### Loose levels -/

theorem readBack_up (h : ReadBack L.tighter e s) (hs : Begins L.tighter.rank s) :
    ReadBack L e s := by
  intro n hn k r hr hk hpoint
  have hbound := L.bound_le_tighter
  have hrank := L.tighter.rank_le_bound
  exact (h n hn hr (by omega) hpoint).up (hs hr) hr hk

theorem readBack_lambda {params : List (Param Written)} {rest named : Option String}
    (names : ∀ p ∈ params, IsName p.name) (restName : ∀ id ∈ rest, IsName id)
    (namedName : ∀ id ∈ named, IsName id)
    (hopen : ∀ p ∈ params, ∀ w ∈ p.default, Begins 1 w.2)
    (defaults : ∀ p ∈ params, ∀ w ∈ p.default, ReadBack .expression w.1 w.2)
    (body : ReadBack .expression e s) :
    ReadBack .expression (.lambda (params.map (·.map Prod.fst)) rest named e)
      ("lambda".toList ++ (parameterText (parameterTexts (params.map (·.map Prod.snd)) rest named) ++
        ':' :: ' ' :: s)) := by
  intro n hn
  have hlambda : "lambda".toList.length = 6 := rfl
  simp only [List.length_append, List.length_cons, hlambda] at hn
  refine readable_whole rfl nofun fun k r hr hk => ?_
  have hread := Grammar.parameterItems_read names restName namedName hopen fun p hp w hw =>
    (defaults p hp w hw).expression (n := n) (by
      have := length_le_parameterText rest named hp hw
      omega)
  have hbody := body.expression (n := n) (by omega) k r hr hk
  have hlambda := Grammar.lambda_ok (skips_expression n) hread hbody
  rw [Grammar.parameterItems_texts, Grammar.parameterItems_plains, Grammar.parameterItems_rest,
    Grammar.parameterItems_named] at hlambda
  simp only [List.append_assoc, List.cons_append]
  exact orElse_ok hlambda

theorem readBack_conditional {body test otherwise : Expr} (hs : Begins 2 s)
    (hbody : ReadBack .disjunction body s) (htest : ReadBack .disjunction test t)
    (hotherwise : ReadBack .expression otherwise u) :
    ReadBack .expression (.conditional test body otherwise)
      (s ++ (spaced "if" ++ (t ++ (spaced "else" ++ u)))) := by
  intro n hn
  simp only [List.length_append, spaced_append, List.length_cons] at hn
  refine readable_whole rfl nofun fun k r hr hk => ?_
  simp only [List.append_assoc]
  have hif : Follow 1 (spaced "if" ++ (t ++ (spaced "else" ++ (u ++ r)))) := .condition _
  have hlambda : Fails (grammar n).lambda (s ++ (spaced "if" ++ (t ++ (spaced "else" ++ (u ++ r))))) :=
    fails_bind ((hs hif).lambda_fails (by decide)) _
  have hb : (grammar n).disjunction (s ++ (spaced "if" ++ (t ++ (spaced "else" ++ (u ++ r))))) =
      .ok body (spaced "if" ++ (t ++ (spaced "else" ++ (u ++ r)))) :=
    (hbody n (by omega)).reads nofun 1 _ hif (by decide)
  have ht : (grammar n).disjunction (t ++ (spaced "else" ++ (u ++ r))) =
      .ok test (spaced "else" ++ (u ++ r)) :=
    (htest n (by omega)).reads nofun 0 _ (.otherwise _) (by decide)
  have hu := hotherwise.expression (n := n) (by omega) k r hr hk
  have htail : (do
        keyword "if"
        let test ← (grammar n).disjunction
        keyword "else"
        let otherwise ← (grammar n).expression
        return (test, otherwise) : Parser (Expr × Expr))
      (spaced "if" ++ (t ++ (spaced "else" ++ (u ++ r)))) = .ok (test, otherwise) r := by
    rw [bind_ok (keyword_spaced (by decide) _),
      bind_ok ((Grammar.skips_disjunction _).ok (by decide) ht),
      bind_ok (keyword_spaced (by decide) _), bind_ok ((skips_expression n).ok (by decide) hu)]
    rfl
  change (grammar n).anyExpression _ = _
  rw [Grammar.anyExpression, orElse_of_fails hlambda, Grammar.conditional, bind_ok hb,
    bind_ok (opt_ok htail)]
  rfl

/-! ### Connectives and comparisons -/

theorem BoolOp.keyword_mem_reserved (op : BoolOp) : op.keyword ∈ reserved := by
  cases op <;> decide

theorem BoolOp.parser_eq_boolChain (op : BoolOp) (g : Grammar) :
    op.level.parser g = Grammar.boolChain op (op.level.tighter.parser g) := by
  cases op <;> rfl

theorem BoolOp.level_facts (op : BoolOp) : op.level.isChain = false ∧ op.level ≠ .primary ∧
    op.level.tighter ≠ .atom ∧ op.level.tighter.rank = op.level.rank + 1 := by
  cases op <;> decide

theorem readBack_boolean {op : BoolOp} {first second : Written} {others : List Written}
    (operands : ∀ w ∈ first :: second :: others, ReadBack op.level.tighter w.1 w.2) :
    ReadBack op.level (.boolean op ((first :: second :: others).map Prod.fst))
      (first.2 ++ (second :: others).flatMap fun w => spaced op.keyword ++ w.2) := by
  intro n hn
  obtain ⟨hchain, hprimary, hatom, hrank⟩ := op.level_facts
  refine readable_whole hchain hprimary fun k r hr hk => ?_
  have hreads : ∀ w ∈ first :: second :: others,
      Reads (op.level.tighter.parser (grammar n)) (op.level.rank + 1) w := by
    intro w hw
    rw [← hrank]
    refine (operands w hw n ?_).reads hatom
    rw [List.length_append] at hn
    rcases List.mem_cons.1 hw with rfl | hw
    · omega
    · have := length_le_flatMap (f := fun w : Written => spaced op.keyword ++ w.2) hw
      rw [List.length_append] at this
      omega
  obtain ⟨j, hj, hfollow⟩ := Grammar.follow_words (Follow.operand op) (Nat.lt_succ_self _)
    (Nat.lt_succ_of_lt hk) hr (second :: others)
  have hfirst := hreads first List.mem_cons_self j _ hfollow hj
  have hmany := many_of_steps (Grammar.steps_words op.keyword_mem_reserved (Follow.operand op)
      (Nat.lt_succ_self _) (Grammar.skips_level (grammar n) op.level.tighter)
      (fun w hw => hreads w (List.mem_cons_of_mem first hw)) (Nat.lt_succ_of_lt hk) hr)
    (fails_bind (hr.connective_fails hk) _)
  rw [List.append_assoc, op.parser_eq_boolChain, Grammar.boolChain, bind_ok hfirst, bind_ok hmany]
  rfl

theorem readBack_negation (h : ReadBack .negation e s) :
    ReadBack .negation (.unary .not e) ("not".toList ++ ' ' :: s) := by
  intro n hn
  have hnot : "not".toList.length = 3 := rfl
  simp only [List.length_append, List.length_cons, hnot] at hn
  refine readable_whole rfl nofun fun k r hr hk => ?_
  have hread := h.inner (p := Grammar.notTest) (n := n) (fun _ => rfl) nofun (by omega) k r hr hk
  rw [List.append_assoc, List.cons_append]
  apply orElse_ok
  rw [bind_ok (keyword_ok (after?_append _ _) (wordEnd_cons (by decide) _)),
    bind_ok ((skips_notTest n).ok (by decide) hread)]
  rfl

/-- A comparison operator is read in front of an operand, which is no negation. -/
theorem cmpOp_spaced {k : Nat} (op : CmpOp) (h : Opens k t) (hk : 4 < k) :
    Grammar.cmpOp (spaced op.symbol ++ t) = .ok op (' ' :: t) := by
  cases op with
  | same =>
    have hnot : Fails (keyword "not") (' ' :: t) := (skips_keyword "not").fails (by decide)
      (h.not_fails hk)
    have hword : Fails (do keyword "is"; keyword "not"; return CmpOp.notSame) (spaced "is" ++ t) :=
      fails_bind_ok (keyword_spaced (by decide) t) (fails_bind hnot _)
    have hsymbols : ∀ w ∈ ["==", "!=", "<=", ">="], Fails (symbol w) (spaced "is" ++ t) := by
      intro w hw
      simp only [List.mem_cons, List.not_mem_nil, or_false] at hw
      rcases hw with rfl | rfl | rfl | rfl <;> exact ⟨_, rfl⟩
    have hless : Fails (operator "<" ['<']) (spaced "is" ++ t) := ⟨_, rfl⟩
    have hgreater : Fails (operator ">" ['>']) (spaced "is" ++ t) := ⟨_, rfl⟩
    have hnotIn : Fails (keyword "not") (spaced "is" ++ t) := ⟨_, rfl⟩
    change Grammar.cmpOp (spaced "is" ++ t) = _
    rw [Grammar.cmpOp, orElse_of_fails (fails_bind (hsymbols "==" (by decide)) _),
      orElse_of_fails (fails_bind (hsymbols "!=" (by decide)) _),
      orElse_of_fails (fails_bind (hsymbols "<=" (by decide)) _),
      orElse_of_fails (fails_bind (hsymbols ">=" (by decide)) _),
      orElse_of_fails (fails_bind hless _), orElse_of_fails (fails_bind hgreater _),
      orElse_of_fails (fails_bind hnotIn _), orElse_of_fails hword]
    rfl
  | _ => rfl

/-- The links of a comparison are read one after the other. -/
theorem steps_links {k : Nat} {r : List Char} {links : List (CmpOp × Written)}
    (hs : ∀ l ∈ links, Begins 6 l.2.2)
    (h : ∀ l ∈ links, Reads (grammar n).bitOr 6 l.2) (hr : Follow k r) (hk : k < 5) :
    (∃ j, j < 6 ∧ Follow j ((links.flatMap fun l => spaced l.1.symbol ++ l.2.2) ++ r)) ∧
    Steps (do let o ← Grammar.cmpOp; let e ← (grammar n).bitOr; return (o, e))
      (links.map fun l => (l.1, l.2.1))
      ((links.flatMap fun l => spaced l.1.symbol ++ l.2.2) ++ r) r := by
  induction links with
  | nil => exact ⟨⟨k, by omega, hr⟩, .done r⟩
  | cons l links ih =>
    obtain ⟨⟨j, hj, hfollow⟩, hsteps⟩ := ih (fun m hm => hs m (List.mem_cons_of_mem l hm))
      (fun m hm => h m (List.mem_cons_of_mem l hm))
    have hopen := hs l List.mem_cons_self hfollow
    have hread := h l List.mem_cons_self j _ hfollow hj
    rw [List.flatMap_cons, List.append_assoc, List.append_assoc]
    refine ⟨⟨5, by omega, .link l.1 _⟩, .more ?_ ?_ hsteps⟩
    · rw [bind_ok (cmpOp_spaced l.1 hopen (by decide)),
        bind_ok ((Grammar.skips_bitOr (grammar n)).ok (by decide) hread)]
      rfl
    · simp only [spaced_append, List.length_append, List.length_cons]
      omega

theorem readBack_compare {links : List (CmpOp × Written)} (hne : links ≠ [])
    (hs : ∀ l ∈ links, Begins 6 l.2.2) (hleft : ReadBack .bitOr e s)
    (operands : ∀ l ∈ links, ReadBack .bitOr l.2.1 l.2.2) :
    ReadBack .comparison (.compare e (links.map (·.1)) (links.map (·.2.1)))
      (s ++ links.flatMap fun l => spaced l.1.symbol ++ l.2.2) := by
  intro n hn
  rw [List.length_append] at hn
  refine readable_whole rfl nofun fun k r hr hk => ?_
  have hreads : ∀ l ∈ links, Reads (grammar n).bitOr 6 l.2 := by
    intro l hl
    have := length_le_flatMap (f := fun l : CmpOp × Written => spaced l.1.symbol ++ l.2.2) hl
    rw [List.length_append] at this
    exact (operands l hl n (by omega)).reads nofun
  obtain ⟨⟨j, hj, hfollow⟩, hsteps⟩ := steps_links hs hreads hr hk
  have hfirst : (grammar n).bitOr (s ++ ((links.flatMap fun l => spaced l.1.symbol ++ l.2.2) ++ r)) =
      .ok e ((links.flatMap fun l => spaced l.1.symbol ++ l.2.2) ++ r) :=
    (hleft n (by omega)).reads nofun j _ hfollow hj
  have hmany := many_of_steps hsteps (fails_bind (hr.cmpOp_fails hk) _)
  rw [List.append_assoc]
  change (grammar n).comparison _ = _
  rw [Grammar.comparison, bind_ok hfirst, bind_ok hmany]
  cases links with
  | nil => exact absurd rfl hne
  | cons l links => simp [List.map_map, Function.comp_def]

/-! ### Tight levels -/

theorem operators_spaced {op : BinaryOp} (hop : op ≠ .pow) (t : List Char) :
    op.level.operators (spaced op.symbol ++ t) = .ok op (' ' :: t) := by
  cases op <;> first | rfl | exact absurd rfl hop

theorem BinaryOp.isChain_level {op : BinaryOp} (hop : op ≠ .pow) :
    op.level.isChain = true ∧ op.level.tighter ≠ .atom := by
  cases op <;> first | decide | exact absurd rfl hop

/-- The left operand of an operator is what its level has reached in front of the operator. -/
theorem readBack_binary {left right : Expr} {op : BinaryOp} (hop : op ≠ .pow)
    (hleft : ReadBack op.level left s) (hright : ReadBack op.level.tighter right t) :
    ReadBack op.level (.binary left op right) (s ++ (spaced op.symbol ++ t)) := by
  intro n hn k r hr hk hpoint
  simp only [List.length_append] at hn
  obtain ⟨hchain, hatom⟩ := BinaryOp.isChain_level hop
  obtain ⟨hbound, hrank⟩ := Level.bound_of_chain hchain
  simp only [List.append_assoc]
  have hreached := hleft n (by omega) (.binary op (t ++ r)) (by omega) fun heq => by
    rw [spaced_append] at heq
    cases heq
  have hread := (hright n (by omega)).reads hatom k r hr (by omega)
  have hlink : op.level.link (grammar n) (spaced op.symbol ++ (t ++ r)) = .ok (op, right) r := by
    rw [Level.link, bind_ok (operators_spaced hop _),
      bind_ok ((Grammar.skips_level _ _).ok (by decide) hread)]
    rfl
  have hshorter : r.length < (spaced op.symbol ++ (t ++ r)).length := by
    simp only [spaced_append, List.length_append, List.length_cons]
    omega
  generalize hL : op.level = L at *
  cases hreached with
  | whole chain => rw [hchain] at chain; cases chain
  | trailers => cases hchain
  | @chain _ first mid links _ h run =>
    have hstep := Reaches.chain hchain h (run.snoc hlink hshorter)
    rw [List.foldl_append] at hstep
    exact hstep

theorem sign_ok {op : UnaryOp} (hop : op ≠ .not) (t : List Char) :
    Grammar.sign (op.mark.toList ++ t) = .ok op t := by
  cases op with
  | not => exact absurd rfl hop
  | neg =>
    apply orElse_ok
    exact (bind_ok (symbol_ok rfl) _).trans rfl
  | pos =>
    have hminus : Fails (symbol "-") (UnaryOp.pos.mark.toList ++ t) := ⟨_, rfl⟩
    rw [Grammar.sign, orElse_of_fails (fails_bind hminus _)]
    apply orElse_ok
    exact (bind_ok (symbol_ok rfl) _).trans rfl
  | invert =>
    have hminus : Fails (symbol "-") (UnaryOp.invert.mark.toList ++ t) := ⟨_, rfl⟩
    have hplus : Fails (symbol "+") (UnaryOp.invert.mark.toList ++ t) := ⟨_, rfl⟩
    rw [Grammar.sign, orElse_of_fails (fails_bind hminus _), orElse_of_fails (fails_bind hplus _)]
    exact (bind_ok (symbol_ok rfl) _).trans rfl

theorem readBack_sign {op : UnaryOp} (hop : op ≠ .not) (h : ReadBack .signed e s) :
    ReadBack .signed (.unary op e) (op.mark.toList ++ s) := by
  intro n hn
  have hmark : 0 < op.mark.toList.length := by cases op <;> decide
  rw [List.length_append] at hn
  refine readable_whole rfl nofun fun k r hr hk => ?_
  have hread := h.inner (p := Grammar.factor) (n := n) (fun _ => rfl) nofun (by omega) k r hr hk
  rw [List.append_assoc]
  apply orElse_ok
  rw [bind_ok (sign_ok hop _), bind_ok hread]
  rfl

theorem Follow.ne_signed {k : Nat} {r : List Char} (h : Follow k r) : k ≠ 12 := by
  cases h with
  | operand op => cases op <;> decide
  | binary op => cases op <;> decide
  | _ => decide

theorem readBack_power {base exponent : Expr} (hbase : ReadBack .primary base s)
    (hexponent : ReadBack .signed exponent t) :
    ReadBack .power (.binary base .pow exponent) (s ++ (spaced "**" ++ t)) := by
  intro n hn
  simp only [List.length_append, spaced_append, List.length_cons] at hn
  refine readable_whole rfl nofun fun k r hr hk => ?_
  simp only [List.append_assoc]
  have hb : (grammar n).primary (s ++ (spaced "**" ++ (t ++ r))) =
      .ok base (spaced "**" ++ (t ++ r)) :=
    (hbase n (by omega)).reads nofun 13 _ (.binary .pow (t ++ r)) (by decide)
  have hne := hr.ne_signed
  have hk' : k < 13 := hk
  have ht := hexponent.inner (p := Grammar.factor) (n := n) (fun _ => rfl) nofun (by omega) k r hr
    (show k < 12 by omega)
  have htail : (do symbol "**"; (grammar n).factor : Parser Expr) (spaced "**" ++ (t ++ r)) =
      .ok exponent r := by
    rw [bind_ok (symbol_ok (r := ' ' :: (t ++ r)) rfl)]
    exact (skips_factor n).ok (by decide) ht
  change (grammar n).power _ = _
  rw [Grammar.power, bind_ok hb, bind_ok (opt_ok htail)]
  rfl

/-! ### Trailers -/

theorem readable_trailer {e' : Expr} (hfollow : ∀ r, Follow 14 (u ++ r))
    (h : Readable n .primary e s) (hpoint : u.head? = some '.' → ∃ d ∈ s, d.isDigit = false)
    (htrailer : ∀ r, WordEnd r → ∃ trailer : Grammar.Trailer,
      (grammar n).trailer (u ++ r) = .ok trailer r ∧ trailer.apply e = e') :
    Readable n .primary e' (s ++ u) := by
  intro k r hr hk _
  obtain ⟨trailer, hstep, rfl⟩ := htrailer r hr.wordEnd
  have hne : u ≠ [] := by
    have := (hfollow []).ne_nil (by decide)
    rwa [List.append_nil] at this
  have hreached := h (hfollow r) (by decide) fun heq => hpoint (by
    rwa [List.head?_append_of_ne_nil _ hne] at heq)
  have hshorter : r.length < (u ++ r).length := by
    have := List.length_pos_iff.2 hne
    rw [List.length_append]
    omega
  rw [List.append_assoc]
  generalize hprimary : Level.primary = L at hreached
  cases hreached with
  | whole _ primary => exact absurd hprimary.symm primary
  | chain chain =>
    subst hprimary
    cases chain
  | trailers hatom run =>
    have hmore := Reaches.trailers hatom (run.snoc hstep hshorter)
    rw [List.foldl_append] at hmore
    exact hmore

theorem readBack_attr {label : String} (h : ReadBack .primary e s) (hlabel : IsName label)
    (hs : ∃ c ∈ s, c.isDigit = false) :
    ReadBack .primary (.attr e label) (s ++ '.' :: label.toList) := by
  intro n hn
  rw [List.length_append] at hn
  exact readable_trailer (fun _ => .trailer (by decide) _) (h n (by omega)) (fun _ => hs) fun r hr =>
    ⟨.attr label, Grammar.trailer_attr hlabel hr, rfl⟩

theorem readBack_gapAttr {label : String} (h : ReadBack .primary e s) (hlabel : IsName label) :
    ReadBack .primary (.attr e label) (s ++ ' ' :: '.' :: label.toList) := by
  intro n hn
  rw [List.length_append] at hn
  exact readable_trailer (fun _ => .gapAttr _) (h n (by omega)) nofun fun r hr =>
    ⟨.attr label, Grammar.trailer_gapAttr hlabel hr, rfl⟩

theorem readBack_call {args : List (Passed Written)} {keywords : List (Keyword Written)}
    (h : ReadBack .primary e s) (labels : ∀ k ∈ keywords, ∀ id ∈ k.label, IsName id)
    (proper : ∀ a ∈ args, a.Proper)
    (hopenArgs : ∀ a ∈ args, Begins 1 a.value.2) (hopenKeywords : ∀ k ∈ keywords, Begins 1 k.value.2)
    (hargs : ∀ a ∈ args, ReadBack .expression a.value.1 a.value.2)
    (sources : ∀ a ∈ args, ∀ c ∈ a.clauses, ReadBack .disjunction c.source.1 c.source.2)
    (conditions : ∀ a ∈ args, ∀ c ∈ a.clauses, ∀ w ∈ c.conditions, ReadBack .disjunction w.1 w.2)
    (hkeywords : ∀ k ∈ keywords, ReadBack .expression k.value.1 k.value.2) :
    ReadBack .primary
      (.call e (args.map fun a => (a.map Prod.fst).expr) (keywords.map (·.map Prod.fst)))
      (s ++ '(' :: (commas (args.map (fun a => (a.map Prod.snd).text) ++
        keywords.map fun k => (k.map Prod.snd).text) ++ [')'])) := by
  intro n hn
  simp only [List.length_append, List.length_cons] at hn
  have hreadArgs : ∀ a ∈ args, ReadsItem (grammar n).argument ')'
      (.positional (a.map Prod.fst).expr, (a.map Prod.snd).text) := by
    intro a ha
    have hmem := length_le_commas (List.mem_append_left
      (keywords.map fun k => (k.map Prod.snd).text)
      (List.mem_map_of_mem (f := fun a : Passed Written => (a.map Prod.snd).text) ha))
    have hlength := a.length_le
    refine Grammar.argument_passed (proper a ha) (hopenArgs a ha)
      ((hargs a ha).expression (by omega)) (skips_orTest n) (fun c hc => ?_) fun c hc w hw => ?_
    · have := Passed.length_clause hc
      have := c.length_source
      exact (sources a ha c hc).orTest (by omega)
    · have := Passed.length_clause hc
      have := Clause.length_condition hw
      exact (conditions a ha c hc w hw).orTest (by omega)
  have hreadKeywords : ∀ k ∈ keywords, ReadsItem (grammar n).expression ')' k.value := by
    intro k hk
    have hmem := length_le_commas (List.mem_append_right (args.map fun a => (a.map Prod.snd).text)
      (List.mem_map_of_mem (f := fun k : Keyword Written => (k.map Prod.snd).text) hk))
    have hlength := k.length_le
    exact ((hkeywords k hk).expression (by omega)).item (by decide)
  refine readable_trailer (fun _ => .trailer (by decide) _) (h n (by omega)) nofun fun r _ => ?_
  obtain ⟨items, htrailer, hpositionals, hlabelled⟩ :=
    Grammar.trailer_call (r := r) (skips_expression n) labels hreadArgs hopenKeywords hreadKeywords
      (expression_fails (by decide) n r)
  refine ⟨.call items, ?_, ?_⟩
  · rw [List.cons_append, List.append_assoc]
    exact htrailer
  · rw [Grammar.Trailer.apply, hpositionals, hlabelled]

theorem readBack_subscript {i : Index Written} (h : ReadBack .primary e s)
    (parts : ∀ w ∈ i.parts, ReadBack .expression w.1 w.2) :
    ReadBack .primary (.subscript e (i.map Prod.fst).expr)
      (s ++ '[' :: ((i.map Prod.snd).text ++ [']'])) := by
  intro n hn
  simp only [List.length_append, List.length_cons] at hn
  have hreads : ∀ w ∈ i.parts, Reads (grammar n).expression 1 w := by
    intro w hw
    have := Index.length_le hw
    exact (parts w hw).expression (by omega)
  refine readable_trailer (fun _ => .trailer (by decide) _) (h n (by omega)) nofun fun r _ =>
    ⟨.index _, ?_, rfl⟩
  rw [List.cons_append, List.append_assoc]
  exact Grammar.trailer_index hreads fun r => expression_fails_of_missing n

theorem readBack_subscripts {first : Index Written} {others : List (Index Written)}
    (h : ReadBack .primary e s)
    (parts : ∀ i ∈ first :: others, ∀ w ∈ i.parts, ReadBack .expression w.1 w.2) :
    ReadBack .primary
      (.subscript e (.tuple ((first :: others).map fun i => (i.map Prod.fst).expr)))
      (s ++ '[' :: (commas ((first :: others).map fun i => (i.map Prod.snd).text) ++
        (loneComma others ++ [']']))) := by
  intro n hn
  simp only [List.length_append, List.length_cons] at hn
  have hreads : ∀ i ∈ first :: others, ∀ w ∈ i.parts, Reads (grammar n).expression 1 w := by
    intro i hi w hw
    have hmem := length_le_commas
      (List.mem_map_of_mem (f := fun i : Index Written => (i.map Prod.snd).text) hi)
    have hlength := Index.length_le hw
    exact (parts i hi w hw).expression (by omega)
  refine readable_trailer (fun _ => .trailer (by decide) _) (h n (by omega)) nofun fun r _ =>
    ⟨.index _, ?_, rfl⟩
  rw [List.cons_append, List.append_assoc, List.append_assoc]
  exact Grammar.trailer_indices (skips_expression n) hreads fun r => expression_fails_of_missing n

/-! ### Atoms -/

theorem readBack_atom (h : ∀ n, s.length ≤ n → ∀ k r, Follow k r →
    (r.head? = some '.' → ∃ c ∈ s, c.isDigit = false) → (grammar n).atom (s ++ r) = .ok e r) :
    ReadBack .atom e s :=
  fun n hn k r hr _ hpoint => .whole rfl nofun (h n hn k r hr hpoint)

theorem readBack_paren (hs : Begins 1 s) (h : ReadBack .expression e s) :
    ReadBack .atom e ('(' :: (s ++ [')'])) := by
  refine readBack_atom fun n hn k r _ _ => ?_
  simp only [List.length_append, List.length_cons] at hn
  have hread := h.expression (n := n) (by omega) 0 (')' :: r) (.close (by decide) r) (by decide)
  rw [List.cons_append, List.append_assoc]
  exact Grammar.atom_of_paren (Grammar.paren_ok hs hread)

/-- The expressions of a list of items are read by the inner parsers. -/
theorem reads_items {ws : List Written} {c : Char} (hc : c ∈ [')', ']', ',', ':'])
    (h : ∀ w ∈ ws, ReadBack .expression w.1 w.2)
    (hn : (commas (ws.map Prod.snd)).length < n) :
    ∀ w ∈ ws, ReadsItem (grammar n).expression c w := by
  intro w hw
  have := length_le_commas (List.mem_map_of_mem (f := Prod.snd) hw)
  exact ((h w hw).expression (by omega)).item hc

theorem readBack_tuple {first : Written} {others : List Written} (hs : Begins 1 first.2)
    (items : ∀ w ∈ first :: others, ReadBack .expression w.1 w.2) :
    ReadBack .atom (.tuple ((first :: others).map Prod.fst))
      ('(' :: (commas ((first :: others).map Prod.snd) ++ (loneComma others ++ [')']))) := by
  refine readBack_atom fun n hn k r _ _ => ?_
  simp only [List.length_append, List.length_cons] at hn
  have hreads := reads_items (n := n) (by decide : ')' ∈ [')', ']', ',', ':']) items (by omega)
  rw [List.cons_append, List.append_assoc, List.append_assoc]
  exact Grammar.atom_of_paren (Grammar.paren_tuple (skips_expression n) hs hreads
    (expression_fails (by decide) n r))

theorem readBack_list {items : List Written} (hs : ∀ w ∈ items, Begins 1 w.2)
    (h : ∀ w ∈ items, ReadBack .expression w.1 w.2) :
    ReadBack .atom (.list (items.map Prod.fst)) ('[' :: (commas (items.map Prod.snd) ++ [']'])) := by
  refine readBack_atom fun n hn k r _ _ => ?_
  simp only [List.length_append, List.length_cons] at hn
  have hreads := reads_items (n := n) (by decide : ']' ∈ [')', ']', ',', ':']) h (by omega)
  rw [List.cons_append, List.append_assoc]
  exact Grammar.atom_of_bracket (Grammar.bracket_list (skips_expression n) hs hreads)

/-- The clauses of a comprehension are read, and its element stops in front of them. -/
theorem reads_clauses {cs : List (Clause Written)} {d : Char} {r : List Char}
    (hd : d ∈ [')', ']', ',']) (hne : cs ≠ []) (targets : ∀ c ∈ cs, IsName c.target)
    (sources : ∀ c ∈ cs, ReadBack .disjunction c.source.1 c.source.2)
    (conditions : ∀ c ∈ cs, ∀ w ∈ c.conditions, ReadBack .disjunction w.1 w.2)
    (hn : (cs.flatMap fun c => (c.map Prod.snd).text).length < n) :
    Follow 0 ((cs.flatMap fun c => (c.map Prod.snd).text) ++ d :: r) ∧
    (grammar n).clauses ((cs.flatMap fun c => (c.map Prod.snd).text) ++ d :: r) =
      .ok (cs.map (·.map Prod.fst)) (d :: r) := by
  have hlength : ∀ c ∈ cs, (c.map Prod.snd).text.length < n := by
    intro c hc
    have := length_le_flatMap (f := fun c : Clause Written => (c.map Prod.snd).text) hc
    omega
  have hsources : ∀ c ∈ cs, Reads (grammar n).orTest 2 c.source := by
    intro c hc
    have := c.length_source
    have := hlength c hc
    exact (sources c hc).orTest (by omega)
  have hconditions : ∀ c ∈ cs, ∀ w ∈ c.conditions, Reads (grammar n).orTest 2 w := by
    intro c hc w hw
    have := Clause.length_condition hw
    have := hlength c hc
    exact (conditions c hc w hw).orTest (by omega)
  constructor
  · cases cs with
    | nil => exact absurd rfl hne
    | cons c cs =>
      simp only [List.flatMap_cons, Clause.text, List.append_assoc]
      exact .clause _
  · exact Grammar.clauses_ok (skips_orTest n) hne targets hsources hconditions hd

theorem readBack_listComp {clauses : List (Clause Written)} (hs : Begins 1 s)
    (h : ReadBack .expression e s) (hne : clauses ≠ []) (targets : ∀ c ∈ clauses, IsName c.target)
    (sources : ∀ c ∈ clauses, ReadBack .disjunction c.source.1 c.source.2)
    (conditions : ∀ c ∈ clauses, ∀ w ∈ c.conditions, ReadBack .disjunction w.1 w.2) :
    ReadBack .atom (.listComp e (clauses.map (·.map Prod.fst)))
      ('[' :: (s ++ (clauses.flatMap (fun c => (c.map Prod.snd).text) ++ [']']))) := by
  refine readBack_atom fun n hn k r _ _ => ?_
  simp only [List.length_append, List.length_cons] at hn
  obtain ⟨hfollow, hclauses⟩ := reads_clauses (n := n) (r := r) (by decide : ']' ∈ [')', ']', ',']) hne
    targets sources conditions (by omega)
  have hread := h.expression (n := n) (by omega) 0 _ hfollow (by decide)
  rw [List.cons_append, List.append_assoc, List.append_assoc]
  exact Grammar.atom_of_bracket (Grammar.bracket_listComp (hs hfollow) hread hclauses)

theorem readBack_generator {clauses : List (Clause Written)} (hs : Begins 1 s)
    (h : ReadBack .expression e s) (hne : clauses ≠ []) (targets : ∀ c ∈ clauses, IsName c.target)
    (sources : ∀ c ∈ clauses, ReadBack .disjunction c.source.1 c.source.2)
    (conditions : ∀ c ∈ clauses, ∀ w ∈ c.conditions, ReadBack .disjunction w.1 w.2) :
    ReadBack .atom (.generator e (clauses.map (·.map Prod.fst)))
      ('(' :: (s ++ (clauses.flatMap (fun c => (c.map Prod.snd).text) ++ [')']))) := by
  refine readBack_atom fun n hn k r _ _ => ?_
  simp only [List.length_append, List.length_cons] at hn
  obtain ⟨hfollow, hclauses⟩ := reads_clauses (n := n) (r := r) (by decide : ')' ∈ [')', ']', ',']) hne
    targets sources conditions (by omega)
  have hread := h.expression (n := n) (by omega) 0 _ hfollow (by decide)
  rw [List.cons_append, List.append_assoc, List.append_assoc]
  exact Grammar.atom_of_paren (Grammar.paren_generator (hs hfollow) hread hclauses)

end ReadBack

/-- Every spelling is read back. -/
theorem Spelling.readBack {L : Level} {e : Expr} {s : List Char} (h : Spelling L e s) :
    ReadBack L e s := by
  -- On the spelling: what may follow a part is what the marks of the form around it begin with.
  induction h with
  | up h ih => exact readBack_up ih h.begins
  | lambda params rest named names restName namedName defaults _ ihDefaults ihBody =>
    exact readBack_lambda names restName namedName
      (fun p hp w hw => (defaults p hp w hw).begins) ihDefaults ihBody
  | conditional hbody _ _ ihBody ihTest ihOtherwise =>
    exact readBack_conditional hbody.begins ihBody ihTest ihOtherwise
  | boolean op first second others _ ih => exact readBack_boolean ih
  | negation _ ih => exact readBack_negation ih
  | compare _ links some operands ihLeft ih =>
    exact readBack_compare some (fun l hl => (operands l hl).begins) ihLeft ih
  | binary op hop _ _ ihLeft ihRight => exact readBack_binary hop ihLeft ihRight
  | sign op hop _ ih => exact readBack_sign hop ih
  | power _ _ ihBase ihExponent => exact readBack_power ihBase ihExponent
  | attr _ hlabel hs ih => exact readBack_attr ih hlabel hs
  | gapAttr _ hlabel ih => exact readBack_gapAttr ih hlabel
  | call _ args keywords labels proper hargs _ _ hkeywords ih ihArgs ihSources ihConditions
      ihKeywords =>
    exact readBack_call ih labels proper (fun a ha => (hargs a ha).begins)
      (fun k hk => (hkeywords k hk).begins) ihArgs ihSources ihConditions ihKeywords
  | subscript _ i _ ih ihParts => exact readBack_subscript ih ihParts
  | subscripts _ first others _ ih ihParts => exact readBack_subscripts ih ihParts
  | paren h ih => exact readBack_paren h.begins ih
  | unit =>
    exact readBack_atom fun n _ _ r _ _ => Grammar.atom_of_paren (Grammar.paren_unit (grammar n) r)
  | tuple first others items ih => exact readBack_tuple (items first List.mem_cons_self).begins ih
  | list items h ih => exact readBack_list (fun w hw => (h w hw).begins) ih
  | listComp h clauses some targets _ _ ih ihSources ihConditions =>
    exact readBack_listComp h.begins ih some targets ihSources ihConditions
  | generator h clauses some targets _ _ ih ihSources ihConditions =>
    exact readBack_generator h.begins ih some targets ihSources ihConditions
  | none => exact readBack_atom fun _ _ _ _ hr _ => Grammar.atom_none hr
  | bool b => exact readBack_atom fun _ _ _ _ hr _ => Grammar.atom_bool b hr
  | int n hn =>
    refine readBack_atom fun _ _ _ r hr hpoint => Grammar.atom_int hn hr fun heq => ?_
    obtain ⟨c, hc, hdigit⟩ := hpoint heq
    rw [isDigit_toDigits n c hc] at hdigit
    cases hdigit
  | str v => exact readBack_atom fun _ _ _ _ hr _ => Grammar.atom_str hr.stringPiece_fails.1
  | name h => exact readBack_atom fun _ _ _ _ hr _ => Grammar.atom_name h hr

theorem Spelling.reader {e : Expr} {s : List Char} (h : Spelling .expression e s) :
    Expr.reader s = .ok e [] := by
  have hread := h.readBack.expression (Nat.lt_succ_self s.length) 0 [] .stop (by decide)
  rw [List.append_nil] at hread
  exact hread

/-- A text that writes an expression is read as that expression. -/
theorem Spelling.parse {e : Expr} {t : String} (h : Spelling .expression e t.toList) :
    Expr.parse t = .ok e := by
  rw [Expr.parse]
  dsimp only
  rw [h.reader]
  rfl

end DocQuery
