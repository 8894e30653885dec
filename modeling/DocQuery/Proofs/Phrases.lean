import DocQuery.Proofs.Lookahead

/-! # Reading one phrase of the grammar

What each rule of the grammar reads, given what the parsers inside it read. Nothing here depends on
how often the grammar was unrolled: `g` is any record of parsers.

* `skips_level`, `expression_fails`: gaps in front of a phrase, and texts that start none.
* `steps_withCommas`: items that are separated by commas.
* `paren_ok`, `bracket_list`, `clauses_ok`, `atom_str`, …: one lemma for each form.
-/

set_option autoImplicit false

namespace DocQuery

open DocQuery.Parser Token

/-! ## Gaps in front of a phrase -/

namespace Grammar

theorem skips_atom (g : Grammar) : Skips g.atom :=
  ((skips_operator _ _).bind _).orElse <| ((skips_operator _ _).bind _).orElse <|
    ((skips_operator _ _).bind _).orElse <| (skips_stringLiteral.bind _).orElse <|
    (skips_number.bind _).orElse <| ((skips_keyword _).bind _).orElse <|
    ((skips_keyword _).bind _).orElse <| ((skips_keyword _).bind _).orElse (skips_name.bind _)

theorem skips_signed (g : Grammar) : Skips g.signed :=
  ((((skips_operator _ _).bind _).orElse <| ((skips_operator _ _).bind _).orElse
    ((skips_operator _ _).bind _)).bind _).orElse (((skips_atom g).bind _).bind _)

theorem skips_bitOr (g : Grammar) : Skips g.bitOr :=
  ((((((skips_signed g).bind _).bind _).bind _).bind _).bind _).bind _

theorem skips_negation (g : Grammar) : Skips g.negation :=
  ((skips_keyword _).bind _).orElse ((skips_bitOr g).bind _)

theorem skips_disjunction (g : Grammar) : Skips g.disjunction :=
  ((skips_negation g).bind _).bind _

theorem skips_anyExpression (g : Grammar) : Skips g.anyExpression :=
  ((skips_keyword _).bind _).orElse ((skips_disjunction g).bind _)

/-- A gap in front of a phrase makes no difference. -/
theorem skips_level (g : Grammar) (L : Level) : Skips (L.parser g) := by
  cases L with
  | expression => exact skips_anyExpression g
  | disjunction => exact skips_disjunction g
  | conjunction => exact (skips_negation g).bind _
  | negation => exact skips_negation g
  | comparison => exact (skips_bitOr g).bind _
  | bitOr => exact skips_bitOr g
  | bitXor => exact (((((skips_signed g).bind _).bind _).bind _).bind _).bind _
  | bitAnd => exact ((((skips_signed g).bind _).bind _).bind _).bind _
  | shift => exact (((skips_signed g).bind _).bind _).bind _
  | arith => exact ((skips_signed g).bind _).bind _
  | term => exact (skips_signed g).bind _
  | signed => exact skips_signed g
  | power => exact ((skips_atom g).bind _).bind _
  | primary => exact (skips_atom g).bind _
  | atom => exact skips_atom g

end Grammar

theorem skips_expression (n : Nat) : Skips (grammar n).expression := by
  cases n with
  | zero => exact fun _ _ _ => True.intro
  | succ n => exact Grammar.skips_anyExpression (grammar n)

/-! ## Texts that start no phrase -/

namespace Grammar

theorem atom_fails {c : Char} (h : c ∈ [')', ']', ',', ':']) (g : Grammar) (t : List Char) :
    Fails g.atom (c :: t) := by
  simp only [List.mem_cons, List.not_mem_nil, or_false] at h
  rcases h with rfl | rfl | rfl | rfl <;> exact ⟨_, rfl⟩

theorem anyExpression_fails {c : Char} (h : c ∈ [')', ']', ',', ':']) (g : Grammar)
    (t : List Char) : Fails g.anyExpression (c :: t) := by
  have hwords : Fails (keyword "lambda") (c :: t) ∧ Fails (keyword "not") (c :: t) ∧
      Fails sign (c :: t) := by
    simp only [List.mem_cons, List.not_mem_nil, or_false] at h
    rcases h with rfl | rfl | rfl | rfl <;> exact ⟨⟨_, rfl⟩, ⟨_, rfl⟩, ⟨_, rfl⟩⟩
  have hpower : Fails g.power (c :: t) := fails_bind (fails_bind (atom_fails h g t) _) _
  have hsigned : Fails g.signed (c :: t) := fails_orElse (fails_bind hwords.2.2 _) hpower
  have hbitOr : Fails g.bitOr (c :: t) :=
    fails_bind (fails_bind (fails_bind (fails_bind (fails_bind (fails_bind hsigned _) _) _) _) _) _
  have hnegation : Fails g.negation (c :: t) :=
    fails_orElse (fails_bind hwords.2.1 _) (fails_bind hbitOr _)
  exact fails_orElse (fails_bind hwords.1 _) (fails_bind (fails_bind (fails_bind hnegation _) _) _)

end Grammar

/-- A closing bracket or a separator starts no expression. -/
theorem expression_fails {c : Char} (h : c ∈ [')', ']', ',', ':']) (n : Nat) (t : List Char) :
    Fails (grammar n).expression (c :: t) := by
  cases n with
  | zero => exact ⟨_, rfl⟩
  | succ n => exact Grammar.anyExpression_fails h (grammar n) t

/-! ## Items between commas -/

/-- The text goes on with a comma or with the bracket `c`. -/
def Closes (c : Char) (r : List Char) : Prop := ∃ d t, r = d :: t ∧ (d = ',' ∨ d = c)

theorem closes_self (c : Char) (t : List Char) : Closes c (c :: t) := ⟨c, t, rfl, .inr rfl⟩

theorem closes_comma (c : Char) (t : List Char) : Closes c (',' :: t) := ⟨',', t, rfl, .inl rfl⟩

theorem Closes.follow {c : Char} {r : List Char} (h : Closes c r) (hc : c ∈ [')', ']', ',', ':']) :
    Follow 0 r := by
  obtain ⟨d, t, rfl, rfl | rfl⟩ := h
  · exact .close (by decide) t
  · exact .close hc t

theorem closes_withCommas {c : Char} {r : List Char} (h : Closes c r) (ts : List (List Char)) :
    Closes c (withCommas ts ++ r) := by
  cases ts with
  | nil => exact h
  | cons t ts => exact closes_comma c _

/-- The parser reads the value `w.1` from the text `w.2` in front of a comma or of the bracket `c`. -/
def ReadsItem {α : Type} (item : Parser α) (c : Char) (w : α × List Char) : Prop :=
  ∀ r, Closes c r → item (w.2 ++ r) = .ok w.1 r

/-- The parser reads the expression `w.1` from the text `w.2` where only a level below `k` takes up what
follows. -/
def Reads (p : Parser Expr) (k : Nat) (w : Written) : Prop :=
  ∀ j r, Follow j r → j < k → p (w.2 ++ r) = .ok w.1 r

theorem Reads.item {p : Parser Expr} {w : Written} {c : Char} (h : Reads p 1 w)
    (hc : c ∈ [')', ']', ',', ':']) : ReadsItem p c w :=
  fun r hr => h 0 r (hr.follow hc) (by omega)

/-- Items are read one after the other, each with the comma in front of it. -/
theorem steps_withCommas {α : Type} {item : Parser α} {c : Char} {r : List Char}
    (hskip : Skips item) {ws : List (α × List Char)} (h : ∀ w ∈ ws, ReadsItem item c w)
    (hr : Closes c r) :
    Steps (do symbol ","; item) (ws.map Prod.fst) (withCommas (ws.map Prod.snd) ++ r) r := by
  induction ws with
  | nil => exact .done r
  | cons w ws ih =>
    have hrest := ih fun v hv => h v (List.mem_cons_of_mem w hv)
    have htext : withCommas ((w :: ws).map Prod.snd) ++ r =
        ',' :: ' ' :: (w.2 ++ (withCommas (ws.map Prod.snd) ++ r)) := by
      simp [withCommas]
    have hitem := h w List.mem_cons_self _ (closes_withCommas hr (ws.map Prod.snd))
    rw [htext]
    refine .more ?_ ?_ hrest
    · rw [bind_ok (symbol_ok (r := ' ' :: _) rfl)]
      exact hskip.ok (by decide) hitem
    · simp only [List.length_cons, List.length_append]
      omega

theorem comma_fails {c : Char} (hc : c ∈ [')', ']', ':']) (t : List Char) :
    Fails (symbol ",") (c :: t) := by
  simp only [List.mem_cons, List.not_mem_nil, or_false] at hc
  rcases hc with rfl | rfl | rfl <;> exact ⟨_, rfl⟩

/-- A comma that no item follows is given back. -/
theorem comma_item_fails {α : Type} {item : Parser α} {c : Char} {t : List Char}
    (h : Fails item (c :: t)) : Fails (do symbol ","; item) (',' :: c :: t) :=
  fails_bind_ok (symbol_ok rfl) h

/-- What closes a list: an optional comma and a bracket, where the comma is one that no item
follows. -/
theorem closing_fails {α β : Type} {item : Parser α} {c : Char} {r : List Char} {others : List β}
    (hc : c ∈ [')', ']', ':']) (h : Fails item (c :: r)) :
    Fails (do symbol ","; item) (loneComma others ++ c :: r) := by
  cases others with
  | nil => exact comma_item_fails h
  | cons w ws => exact fails_bind (comma_fails hc r) _

theorem opt_loneComma {β : Type} {c : Char} (hc : c ∈ [')', ']', ':']) (others : List β)
    (r : List Char) :
    opt (symbol ",") (loneComma others ++ c :: r) =
      .ok (if others.isEmpty then some () else none) (c :: r) := by
  cases others with
  | nil => exact opt_ok (symbol_ok rfl)
  | cons w ws => exact opt_of_fails (comma_fails hc r)

theorem closes_loneComma {β : Type} (c : Char) (others : List β) (r : List Char) :
    Closes c (loneComma others ++ c :: r) := by
  cases others with
  | nil => exact closes_comma c (c :: r)
  | cons w ws => exact closes_self c r

namespace Grammar

variable {g : Grammar} {e : Expr} {s t r : List Char}

theorem clauses_fails {c : Char} (hc : c ∈ [')', ']', ':']) (h : Closes c r) :
    Fails g.clauses r := by
  apply fails_bind
  apply fails_bind
  obtain ⟨d, t, rfl, rfl | rfl⟩ := h
  · exact ⟨_, rfl⟩
  · simp only [List.mem_cons, List.not_mem_nil, or_false] at hc
    rcases hc with rfl | rfl | rfl <;> exact ⟨_, rfl⟩

/-! ## Parentheses and brackets -/

theorem close_fails (h : Opens 1 t) : Fails (symbol ")") t ∧ Fails (symbol "]") t :=
  ⟨h.operator_fails [] (by decide), h.operator_fails [] (by decide)⟩

theorem paren_ok (hopen : Begins 1 s)
    (h : g.expression (s ++ ')' :: r) = .ok e (')' :: r)) :
    g.paren ('(' :: (s ++ ')' :: r)) = .ok e r := by
  obtain ⟨place, hclauses⟩ : Fails g.clauses (')' :: r) :=
    clauses_fails (by decide) (closes_self ')' r)
  have hmany : g.commaTail (')' :: r) = .ok [] (')' :: r) :=
    many_of_fails (fails_bind (comma_fails (by decide) r) _)
  have htail : g.parenTail e (')' :: r) = .ok e r := by
    rw [parenTail, hclauses]
    dsimp only
    rw [bind_ok hmany, bind_ok (opt_of_fails (comma_fails (by decide) r)), bind_ok (symbol_ok rfl)]
    rfl
  have hopening := hopen (.close (by decide) r : Follow 0 (')' :: r))
  rw [paren, bind_ok (symbol_ok rfl), orElse_of_fails (fails_bind (close_fails hopening).1 _),
    bind_ok h, htail]

theorem paren_unit (g : Grammar) (r : List Char) : g.paren ('(' :: ')' :: r) = .ok (.tuple []) r := by
  rw [paren, bind_ok (symbol_ok rfl)]
  apply orElse_ok
  rw [bind_ok (symbol_ok rfl)]
  rfl

theorem paren_tuple {first : Written} {others : List Written} (hskip : Skips g.expression)
    (hopen : Begins 1 first.2)
    (h : ∀ w ∈ first :: others, ReadsItem g.expression ')' w)
    (hend : Fails g.expression (')' :: r)) :
    g.paren ('(' :: (commas ((first :: others).map Prod.snd) ++ (loneComma others ++ ')' :: r))) =
      .ok (.tuple ((first :: others).map Prod.fst)) r := by
  have hlast := closes_loneComma ')' others r
  have hrest := closes_withCommas hlast (others.map Prod.snd)
  have hfirst := h first List.mem_cons_self _ hrest
  obtain ⟨place, hclauses⟩ : Fails g.clauses
      (withCommas (others.map Prod.snd) ++ (loneComma others ++ ')' :: r)) :=
    clauses_fails (by decide) hrest
  have hmany : g.commaTail (withCommas (others.map Prod.snd) ++ (loneComma others ++ ')' :: r)) =
      .ok (others.map Prod.fst) (loneComma others ++ ')' :: r) :=
    many_of_steps (steps_withCommas hskip (fun w hw => h w (List.mem_cons_of_mem first hw)) hlast)
      (closing_fails (by decide) hend)
  have htail : g.parenTail first.1
      (withCommas (others.map Prod.snd) ++ (loneComma others ++ ')' :: r)) =
      .ok (.tuple ((first :: others).map Prod.fst)) r := by
    rw [parenTail, hclauses]
    dsimp only
    rw [bind_ok hmany, bind_ok (opt_loneComma (by decide) others r), bind_ok (symbol_ok rfl)]
    cases others <;> rfl
  have hopening := hopen (hrest.follow (by decide))
  rw [List.map_cons, commas, List.append_assoc, paren, bind_ok (symbol_ok rfl),
    orElse_of_fails (fails_bind (close_fails hopening).1 _), bind_ok hfirst, htail]

theorem bracket_list {items : List Written} (hskip : Skips g.expression)
    (hopen : ∀ w ∈ items, Begins 1 w.2)
    (h : ∀ w ∈ items, ReadsItem g.expression ']' w) :
    g.bracket ('[' :: (commas (items.map Prod.snd) ++ ']' :: r)) =
      .ok (.list (items.map Prod.fst)) r := by
  cases items with
  | nil =>
    rw [bracket, bind_ok (symbol_ok rfl)]
    apply orElse_ok
    rw [bind_ok (symbol_ok rfl)]
    rfl
  | cons first others =>
    have hlast := closes_self ']' r
    have hrest := closes_withCommas hlast (others.map Prod.snd)
    have hfirst := h first List.mem_cons_self _ hrest
    obtain ⟨place, hclauses⟩ : Fails g.clauses (withCommas (others.map Prod.snd) ++ ']' :: r) :=
      clauses_fails (by decide) hrest
    have hmany : g.commaTail (withCommas (others.map Prod.snd) ++ ']' :: r) =
        .ok (others.map Prod.fst) (']' :: r) :=
      many_of_steps (steps_withCommas hskip (fun w hw => h w (List.mem_cons_of_mem first hw)) hlast)
        (fails_bind (comma_fails (by decide) r) _)
    have htail : g.bracketTail first.1 (withCommas (others.map Prod.snd) ++ ']' :: r) =
        .ok (.list ((first :: others).map Prod.fst)) r := by
      rw [bracketTail, hclauses]
      dsimp only
      rw [bind_ok hmany, bind_ok (opt_of_fails (comma_fails (by decide) r)),
        bind_ok (symbol_ok rfl)]
      rfl
    have hopening := hopen first List.mem_cons_self (hrest.follow (by decide))
    rw [List.map_cons, commas, List.append_assoc, bracket, bind_ok (symbol_ok rfl),
      orElse_of_fails (fails_bind (close_fails hopening).2 _), bind_ok hfirst, htail]

/-! ## Comprehensions -/

/-- What follows an operand when more of them come, each after the word `w`. -/
theorem follow_words {w : String} {j k m : Nat} (hw : ∀ t, Follow j (spaced w ++ t)) (hj : j < m)
    (hk : k < m) (hr : Follow k r) (vs : List Written) :
    ∃ i, i < m ∧ Follow i (vs.flatMap (fun v => spaced w ++ v.2) ++ r) := by
  cases vs with
  | nil => exact ⟨k, hk, hr⟩
  | cons v vs =>
    refine ⟨j, hj, ?_⟩
    rw [List.flatMap_cons, List.append_assoc, List.append_assoc]
    exact hw _

/-- Operands are read one after the other, each with the reserved word in front of it. -/
theorem steps_words {w : String} {p : Parser Expr} {j k m : Nat} {vs : List Written}
    (hreserved : w ∈ reserved) (hw : ∀ t, Follow j (spaced w ++ t)) (hj : j < m) (hskip : Skips p)
    (h : ∀ v ∈ vs, Reads p m v) (hk : k < m) (hr : Follow k r) :
    Steps (do keyword w; p) (vs.map Prod.fst) (vs.flatMap (fun v => spaced w ++ v.2) ++ r) r := by
  induction vs with
  | nil => exact .done r
  | cons v vs ih =>
    have hrest := ih fun u hu => h u (List.mem_cons_of_mem v hu)
    obtain ⟨i, hi, hfollow⟩ := follow_words hw hj hk hr vs
    have hread := h v List.mem_cons_self i _ hfollow hi
    rw [List.map_cons, List.flatMap_cons, List.append_assoc, List.append_assoc]
    refine .more ?_ ?_ hrest
    · rw [bind_ok (keyword_spaced hreserved _)]
      exact hskip.ok (by decide) hread
    · simp only [spaced_append, List.length_append, List.length_cons]
      omega

theorem clause_ok {c : Clause Written} (hskip : Skips g.orTest) (htarget : IsName c.target)
    (hsource : Reads g.orTest 2 c.source) (h : ∀ w ∈ c.conditions, Reads g.orTest 2 w)
    (hr : Follow 0 r) : g.clause ((c.map Prod.snd).text ++ r) = .ok (c.map Prod.fst) r := by
  obtain ⟨j, hj, hfollow⟩ : ∃ j, j < 2 ∧
      Follow j (c.conditions.flatMap (fun v => spaced "if" ++ v.2) ++ r) :=
    follow_words .condition (by omega) (by omega) hr c.conditions
  have hmany : many (do keyword "if"; g.orTest)
      (c.conditions.flatMap (fun v => spaced "if" ++ v.2) ++ r) =
      .ok (c.conditions.map Prod.fst) r :=
    many_of_steps (steps_words (by decide) .condition (by omega) hskip h (by omega) hr)
      (fails_bind (hr.if_fails (by omega)) _)
  simp only [Clause.text, Clause.map, List.append_assoc, List.flatMap_map]
  rw [clause, bind_ok (keyword_spaced (by decide) _), spaced_append,
    bind_ok (skips_name.ok (by decide) (name_ok htarget (wordEnd_cons (by decide) _))),
    ← spaced_append, bind_ok (keyword_spaced (by decide) _),
    bind_ok (hskip.ok (by decide) (hsource j _ hfollow hj)), bind_ok hmany]
  rfl

theorem clause_length (c : Clause (List Char)) (r : List Char) :
    r.length < (c.text ++ r).length := by
  simp only [Clause.text, spaced_append, List.length_append, List.length_cons]
  omega

theorem steps_clauses {cs : List (Clause Written)} (hskip : Skips g.orTest)
    (htargets : ∀ c ∈ cs, IsName c.target) (hsources : ∀ c ∈ cs, Reads g.orTest 2 c.source)
    (hconditions : ∀ c ∈ cs, ∀ w ∈ c.conditions, Reads g.orTest 2 w) (hr : Follow 0 r) :
    Follow 0 (cs.flatMap (fun c => (c.map Prod.snd).text) ++ r) ∧
    Steps g.clause (cs.map (·.map Prod.fst))
      (cs.flatMap (fun c => (c.map Prod.snd).text) ++ r) r := by
  induction cs with
  | nil => exact ⟨hr, .done r⟩
  | cons c cs ih =>
    obtain ⟨hfollow, hsteps⟩ := ih (fun d hd => htargets d (List.mem_cons_of_mem c hd))
      (fun d hd => hsources d (List.mem_cons_of_mem c hd))
      (fun d hd => hconditions d (List.mem_cons_of_mem c hd))
    rw [List.flatMap_cons, List.append_assoc, List.map_cons]
    refine ⟨?_, .more ?_ (clause_length _ _) hsteps⟩
    · simp only [Clause.text, List.append_assoc]
      exact .clause _
    · exact clause_ok hskip (htargets c List.mem_cons_self) (hsources c List.mem_cons_self)
        (hconditions c List.mem_cons_self) hfollow

theorem clauses_ok {cs : List (Clause Written)} (hskip : Skips g.orTest) (hne : cs ≠ [])
    (htargets : ∀ c ∈ cs, IsName c.target) (hsources : ∀ c ∈ cs, Reads g.orTest 2 c.source)
    (hconditions : ∀ c ∈ cs, ∀ w ∈ c.conditions, Reads g.orTest 2 w) {d : Char}
    (hd : d ∈ [')', ']', ',']) :
    g.clauses (cs.flatMap (fun c => (c.map Prod.snd).text) ++ d :: r) =
      .ok (cs.map (·.map Prod.fst)) (d :: r) := by
  have hfollow : Follow 0 (d :: r) :=
    .close ((by decide : ∀ d ∈ [')', ']', ','], d ∈ [')', ']', ',', ':']) d hd) r
  have hend : Fails g.clause (d :: r) := by
    apply fails_bind
    simp only [List.mem_cons, List.not_mem_nil, or_false] at hd
    rcases hd with rfl | rfl | rfl <;> exact ⟨_, rfl⟩
  have h := (steps_clauses hskip htargets hsources hconditions hfollow).2
  cases cs with
  | nil => exact absurd rfl hne
  | cons c cs =>
    cases h with
    | more h _ hsteps => exact many1_of_steps h hsteps hend

theorem bracket_listComp {cs : List (Clause Expr)} (hopen : Opens 1 (s ++ (t ++ ']' :: r)))
    (h : g.expression (s ++ (t ++ ']' :: r)) = .ok e (t ++ ']' :: r))
    (hclauses : g.clauses (t ++ ']' :: r) = .ok cs (']' :: r)) :
    g.bracket ('[' :: (s ++ (t ++ ']' :: r))) = .ok (.listComp e cs) r := by
  rw [bracket, bind_ok (symbol_ok rfl), orElse_of_fails (fails_bind (close_fails hopen).2 _),
    bind_ok h, bracketTail, hclauses]
  dsimp only
  rw [bind_ok (symbol_ok rfl)]
  rfl

theorem paren_generator {cs : List (Clause Expr)} (hopen : Opens 1 (s ++ (t ++ ')' :: r)))
    (h : g.expression (s ++ (t ++ ')' :: r)) = .ok e (t ++ ')' :: r))
    (hclauses : g.clauses (t ++ ')' :: r) = .ok cs (')' :: r)) :
    g.paren ('(' :: (s ++ (t ++ ')' :: r))) = .ok (.generator e cs) r := by
  rw [paren, bind_ok (symbol_ok rfl), orElse_of_fails (fails_bind (close_fails hopen).1 _),
    bind_ok h, parenTail, hclauses]
  dsimp only
  rw [bind_ok (symbol_ok rfl)]
  rfl

/-! ## Words and literals -/

/-- A text that starts with a character of a word is no bracket. -/
theorem brackets_fail {c : Char} (hc : isIdentChar c = true) :
    Fails g.paren (c :: t) ∧ Fails g.bracket (c :: t) ∧ Fails g.brace (c :: t) := by
  have hgap := isGap_of_isIdentChar hc
  refine ⟨fails_bind (operator_fails_of_head rfl hgap ?_) _,
    fails_bind (operator_fails_of_head rfl hgap ?_) _, fails_bind (operator_fails_of_head rfl hgap ?_) _⟩
  all_goals
    rintro rfl
    revert hc
    decide

theorem atom_of_paren (h : g.paren s = .ok e r) : g.atom s = .ok e r := orElse_ok h

theorem atom_of_bracket (h : g.bracket ('[' :: s) = .ok e r) : g.atom ('[' :: s) = .ok e r := by
  have hparen : Fails g.paren ('[' :: s) :=
    fails_bind (operator_fails_of_head rfl (by decide) (by decide)) _
  rw [atom, orElse_of_fails hparen]
  exact orElse_ok h

theorem atom_str {v : String} (h : Fails stringPiece r) :
    g.atom ((Text.quoted v).toList ++ r) = .ok (.literal (.str v)) r := by
  have hbrackets : Fails g.paren ((Text.quoted v).toList ++ r) ∧
      Fails g.bracket ((Text.quoted v).toList ++ r) ∧
      Fails g.brace ((Text.quoted v).toList ++ r) := by
    rw [toList_quoted]
    refine ⟨fails_bind ?_ _, fails_bind ?_ _, fails_bind ?_ _⟩ <;>
      exact operator_fails_of_head rfl (by decide) (by decide)
  rw [atom, orElse_of_fails hbrackets.1, orElse_of_fails hbrackets.2.1,
    orElse_of_fails hbrackets.2.2]
  apply orElse_ok
  rw [bind_ok (stringLiteral_quoted h)]
  rfl

theorem atom_int {n k : Nat} (hn : n < Width.signed64) (hr : Follow k r)
    (hpoint : r.head? ≠ some '.') :
    g.atom (Nat.toDigits 10 n ++ r) = .ok (.literal (.int n)) r := by
  have hnumber := number_ok hn hr.wordEnd hpoint
  have hdigits := isDigit_toDigits n
  cases hds : Nat.toDigits 10 n with
  | nil => exact absurd hds Nat.toDigits_ne_nil
  | cons c cs =>
    rw [hds] at hnumber hdigits
    have hword : ∀ d ∈ c :: cs, isIdentChar d = true :=
      fun d hd => isIdentChar_of_isDigit (hdigits d hd)
    have hbrackets := @brackets_fail g (cs ++ r) c (hword c List.mem_cons_self)
    have hstring := stringLiteral_fails hword hr.no_quote
    rw [List.cons_append] at hnumber ⊢
    rw [atom, orElse_of_fails hbrackets.1, orElse_of_fails hbrackets.2.1,
      orElse_of_fails hbrackets.2.2, orElse_of_fails (fails_bind hstring _)]
    apply orElse_ok
    rw [bind_ok hnumber]
    rfl

/-- What an atom can be when it starts with a word. -/
def wordAtom : Parser Expr :=
  (do keyword "None"; return Expr.literal .none) <|>
  (do keyword "True"; return Expr.literal (.bool true)) <|>
  (do keyword "False"; return Expr.literal (.bool false)) <|>
  (do let id ← name; return Expr.name id)

theorem atom_word {w : List Char} {k : Nat} (hw : IsIdentifier w) (hr : Follow k r) :
    g.atom (w ++ r) = wordAtom (w ++ r) := by
  have hword := hw.isIdentChar
  obtain ⟨c, cs, rfl, hc, -⟩ := hw
  have hbrackets := @brackets_fail g (cs ++ r) c (isIdentChar_of_isIdentStart hc)
  have hstring := stringLiteral_fails hword hr.no_quote
  have hnumber := @number_fails c (cs ++ r) hc
  rw [List.cons_append, atom, orElse_of_fails hbrackets.1, orElse_of_fails hbrackets.2.1,
    orElse_of_fails hbrackets.2.2, orElse_of_fails (fails_bind hstring _),
    orElse_of_fails (fails_bind hnumber _)]
  rfl

theorem atom_none {k : Nat} (hr : Follow k r) :
    g.atom ("None".toList ++ r) = .ok (.literal .none) r := by
  rw [atom_word (reserved_isIdentifier (by decide)) hr]
  apply orElse_ok
  rw [bind_ok (keyword_ok (after?_append _ r) hr.wordEnd)]
  rfl

theorem atom_bool {k : Nat} (b : Bool) (hr : Follow k r) :
    g.atom ((Literal.bool b).render.toList ++ r) = .ok (.literal (.bool b)) r := by
  have hnone : ∀ w : String, w ∈ reserved → w ≠ "None" →
      Fails (keyword "None") (w.toList ++ r) := fun w hw hne =>
    keyword_fails_of_identifier (by decide) (reserved_isIdentifier hw)
      (fun heq => hne (String.toList_inj.1 heq)) hr.wordEnd
  cases b with
  | true =>
    change g.atom ("True".toList ++ r) = _
    rw [atom_word (reserved_isIdentifier (by decide)) hr, wordAtom,
      orElse_of_fails (fails_bind (hnone "True" (by decide) (by decide)) _)]
    apply orElse_ok
    rw [bind_ok (keyword_ok (after?_append _ r) hr.wordEnd)]
    rfl
  | false =>
    change g.atom ("False".toList ++ r) = _
    have htrue : Fails (keyword "True") ("False".toList ++ r) :=
      keyword_fails_of_identifier (by decide) (reserved_isIdentifier (by decide)) (by decide)
        hr.wordEnd
    rw [atom_word (reserved_isIdentifier (by decide)) hr, wordAtom,
      orElse_of_fails (fails_bind (hnone "False" (by decide) (by decide)) _),
      orElse_of_fails (fails_bind htrue _)]
    apply orElse_ok
    rw [bind_ok (keyword_ok (after?_append _ r) hr.wordEnd)]
    rfl

theorem atom_name {id : String} {k : Nat} (h : IsName id) (hr : Follow k r) :
    g.atom (id.toList ++ r) = .ok (.name id) r := by
  have hfails : ∀ w ∈ reserved, Fails (keyword w) (id.toList ++ r) :=
    fun w hw => keyword_fails_of_name hw h hr.wordEnd
  rw [atom_word h.1 hr, wordAtom, orElse_of_fails (fails_bind (hfails "None" (by decide)) _),
    orElse_of_fails (fails_bind (hfails "True" (by decide)) _),
    orElse_of_fails (fails_bind (hfails "False" (by decide)) _), bind_ok (name_ok h hr.wordEnd)]
  rfl

end Grammar

end DocQuery
