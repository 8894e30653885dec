import DocQuery.Proofs.Phrases

/-! # Reading arguments, indices and parameters

The trailers of a primary expression, and the parameters of an anonymous function. Each is a list of
items between commas; `ReadsItem` says what one item reads.

* `trailer_attr`, `trailer_call`, `trailer_index`: the three trailers.
* `lambda_ok`: an anonymous function.
-/

set_option autoImplicit false

namespace DocQuery

open DocQuery.Parser Token

/-- The places where an optional part of an index is missing. -/
def MissingPart (r : List Char) : Prop := ∃ c t, r = c :: t ∧ c ∈ [']', ',', ':']

theorem Closes.missingPart {r : List Char} (h : Closes ']' r) : MissingPart r := by
  obtain ⟨d, t, rfl, rfl | rfl⟩ := h
  · exact ⟨',', t, rfl, by decide⟩
  · exact ⟨']', t, rfl, by decide⟩

theorem MissingPart.follow {r : List Char} (h : MissingPart r) : Follow 0 r := by
  obtain ⟨c, t, rfl, hc⟩ := h
  exact .close ((by decide : ∀ c ∈ [']', ',', ':'], c ∈ [')', ']', ',', ':']) c hc) t

namespace Grammar

variable {g : Grammar} {e : Expr} {s t r : List Char}

theorem trailer_attr {label : String} (h : IsName label) (hr : WordEnd r) :
    g.trailer ('.' :: (label.toList ++ r)) = .ok (.attr label) r := by
  apply orElse_ok
  rw [bind_ok (symbol_ok rfl)]
  refine (bind_ok (name_ok h hr) _).trans rfl

theorem trailer_gapAttr {label : String} (h : IsName label) (hr : WordEnd r) :
    g.trailer (' ' :: '.' :: (label.toList ++ r)) = .ok (.attr label) r := by
  apply orElse_ok
  rw [bind_ok (symbol_ok rfl)]
  refine (bind_ok (name_ok h hr) _).trans rfl

/-! ## Arguments -/

/-- A name starts with no star. -/
theorem stars_fail {id : String} (h : IsName id) :
    startsWithAny ['*'] (id.toList ++ t) = false ∧ Fails (symbol "**") (id.toList ++ t) ∧
      Fails (operator "*" ['*']) (id.toList ++ t) := by
  obtain ⟨c, cs, hcs, hc, -⟩ := h.1
  have hgap := isGap_of_isIdentChar (isIdentChar_of_isIdentStart hc)
  have hne : c ≠ '*' := by rintro rfl; revert hc; decide
  rw [hcs]
  refine ⟨?_, operator_fails_of_head rfl hgap hne, operator_fails_of_head rfl hgap hne⟩
  simp [startsWithAny, hne]

theorem skips_argument (h : Skips g.expression) : Skips g.argument :=
  ((skips_operator _ _).bind _).orElse <| ((skips_operator _ _).bind _).orElse <|
    (skips_name.bind _).orElse (h.bind _)

theorem argument_fails (h : Fails g.expression (')' :: r)) : Fails g.argument (')' :: r) :=
  fails_orElse (fails_bind (operator_fails_of_head rfl (by decide) (by decide)) _) <|
    fails_orElse (fails_bind (operator_fails_of_head rfl (by decide) (by decide)) _) <|
    fails_orElse (fails_bind (Opens.name_fails_of_head (by decide) (by decide) r) _)
      (fails_bind h _)

/-- An expression is no keyword argument. -/
theorem keyword_argument_fails {α : Type} {k : Nat} (h : Opens k t) (f : String → Parser α) :
    Fails (do let label ← name; operator "=" ['=']; f label) t := by
  cases hn : name t with
  | ok id r => exact fails_bind_ok hn (fails_bind (h.assignment_fails hn) _)
  | error place => exact fails_bind ⟨place, hn⟩ _

theorem argument_positional {a : Positional Written} (hopen : Begins 1 a.value.2)
    (h : ReadsItem g.expression ')' a.value) :
    ReadsItem g.argument ')' (.positional (a.map Prod.fst).expr, (a.map Prod.snd).text) := by
  obtain ⟨spread, e, t⟩ := a
  intro r hr
  have hopening : Opens 1 (t ++ r) := hopen (hr.follow (by decide))
  have hread : g.expression (t ++ r) = .ok e r := h r hr
  have hstar : startsWithAny ['*'] (t ++ r) = false :=
    startsWithAny_mono hopening.startsWithAny_eq_false (by simp)
  cases spread with
  | true =>
    change g.argument ('*' :: (t ++ r)) = .ok (.positional (.starred e)) r
    rw [argument, orElse_of_fails (fails_bind (doubleStar_fails hstar) _)]
    apply orElse_ok
    rw [bind_ok (operator_ok rfl hstar), bind_ok hread]
    rfl
  | false =>
    change g.argument (t ++ r) = .ok (.positional e) r
    have hdouble : Fails (symbol "**") (t ++ r) := hopening.operator_fails [] (by decide)
    rw [argument, orElse_of_fails (fails_bind hdouble _),
      orElse_of_fails (fails_bind (hopening.operator_fails ['*'] (by decide)) _),
      orElse_of_fails (keyword_argument_fails hopening _), bind_ok hread,
      bind_ok (opt_of_fails (clauses_fails (by decide) hr))]
    rfl

/-- A generator that is an argument is read up to the comma or parenthesis after its clauses. -/
theorem argument_generator {w : Written} {cs : List (Clause Written)} (hopen : Begins 1 w.2)
    (h : Reads g.expression 1 w) (hskip : Skips g.orTest) (hne : cs ≠ [])
    (targets : ∀ c ∈ cs, IsName c.target) (sources : ∀ c ∈ cs, Reads g.orTest 2 c.source)
    (conditions : ∀ c ∈ cs, ∀ w ∈ c.conditions, Reads g.orTest 2 w) :
    ReadsItem g.argument ')' (.positional (.generator w.1 (cs.map (·.map Prod.fst))),
      w.2 ++ cs.flatMap fun c => (c.map Prod.snd).text) := by
  rintro r ⟨d, t, rfl, hd⟩
  have hclose : d ∈ [')', ']', ','] := by rcases hd with rfl | rfl <;> decide
  have hfollow : Follow 0 ((cs.flatMap fun c => (c.map Prod.snd).text) ++ d :: t) :=
    (steps_clauses hskip targets sources conditions
      (.close ((by decide : ∀ d ∈ [')', ']', ','], d ∈ [')', ']', ',', ':']) d hclose) t)).1
  have hopening := hopen hfollow
  have hread := h 0 _ hfollow (by decide)
  have hclauses := clauses_ok (r := t) hskip hne targets sources conditions hclose
  have hdouble : Fails (symbol "**")
      (w.2 ++ ((cs.flatMap fun c => (c.map Prod.snd).text) ++ d :: t)) :=
    hopening.operator_fails [] (by decide)
  rw [List.append_assoc, argument, orElse_of_fails (fails_bind hdouble _),
    orElse_of_fails (fails_bind (hopening.operator_fails ['*'] (by decide)) _),
    orElse_of_fails (keyword_argument_fails hopening _), bind_ok hread, bind_ok (opt_ok hclauses)]
  rfl

theorem argument_passed {a : Passed Written} (hproper : a.Proper) (hopen : Begins 1 a.value.2)
    (h : Reads g.expression 1 a.value) (hskip : Skips g.orTest)
    (sources : ∀ c ∈ a.clauses, Reads g.orTest 2 c.source)
    (conditions : ∀ c ∈ a.clauses, ∀ w ∈ c.conditions, Reads g.orTest 2 w) :
    ReadsItem g.argument ')' (.positional (a.map Prod.fst).expr, (a.map Prod.snd).text) := by
  obtain ⟨a, clauses⟩ := a
  cases clauses with
  | nil =>
    have hread := argument_positional hopen (h.item (by decide))
    simpa [Passed.map, Passed.expr, Passed.text] using hread
  | cons c cs =>
    have hread := argument_generator hopen h hskip (by simp) hproper.targets sources conditions
    have hspread : a.spread = false :=
      Bool.eq_false_iff.2 fun hs => nomatch hproper.spread hs
    simpa [Passed.map, Passed.expr, Passed.text, Positional.map, Positional.text, hspread,
      List.flatMap_map] using hread

theorem argument_keyword {k : Keyword Written} (hlabel : ∀ id ∈ k.label, IsName id)
    (hopen : Begins 1 k.value.2) (h : ReadsItem g.expression ')' k.value) :
    ReadsItem g.argument ')' (.keyword (k.map Prod.fst), (k.map Prod.snd).text) := by
  obtain ⟨label, e, t⟩ := k
  intro r hr
  have hopening : Opens 1 (t ++ r) := hopen (hr.follow (by decide))
  have hread : g.expression (t ++ r) = .ok e r := h r hr
  cases label with
  | none =>
    change g.argument ('*' :: '*' :: (t ++ r)) = .ok (.keyword ⟨none, e⟩) r
    apply orElse_ok
    rw [bind_ok (symbol_ok rfl)]
    exact (bind_ok hread _).trans rfl
  | some id =>
    have hid := hlabel id rfl
    have htext : ((Keyword.mk (some id) (e, t)).map Prod.snd).text ++ r =
        id.toList ++ '=' :: (t ++ r) := List.append_assoc _ _ _
    rw [htext]
    have hequals : startsWithAny ['='] (t ++ r) = false :=
      startsWithAny_mono hopening.startsWithAny_eq_false (by simp)
    have hstars := @stars_fail ('=' :: (t ++ r)) id hid
    rw [argument, orElse_of_fails (fails_bind hstars.2.1 _),
      orElse_of_fails (fails_bind hstars.2.2 _)]
    apply orElse_ok
    rw [bind_ok (name_ok hid (wordEnd_cons (by decide) _)), bind_ok (operator_ok rfl hequals),
      bind_ok hread]
    rfl

/-- Arguments in parentheses, given each with its text. -/
theorem arguments_ok {ws : List (Argument × List Char)} (hskip : Skips g.expression)
    (h : ∀ w ∈ ws, ReadsItem g.argument ')' w) (hend : Fails g.expression (')' :: r)) :
    g.arguments ('(' :: (commas (ws.map Prod.snd) ++ ')' :: r)) = .ok (ws.map Prod.fst) r := by
  have hlast := closes_self ')' r
  have hcomma := comma_fails (by decide : ')' ∈ [')', ']', ':']) r
  have hitems : sepBy g.argument (symbol ",") (commas (ws.map Prod.snd) ++ ')' :: r) =
      .ok (ws.map Prod.fst) (')' :: r) := by
    cases ws with
    | nil => exact sepBy_of_fails (argument_fails hend)
    | cons w ws =>
      rw [List.map_cons, commas, List.append_assoc]
      exact sepBy_of_steps (h w List.mem_cons_self _ (closes_withCommas hlast _))
        (steps_withCommas (skips_argument hskip) (fun v hv => h v (List.mem_cons_of_mem w hv)) hlast)
        (fails_bind hcomma _)
  rw [arguments, bind_ok (symbol_ok rfl), bind_ok hitems, bind_ok (opt_of_fails hcomma),
    bind_ok (symbol_ok rfl)]
  rfl

theorem positionals_append (args : List Expr) (keywords : List (Keyword Expr)) :
    Argument.positionals (args.map .positional ++ keywords.map .keyword) = args := by
  simp [Argument.positionals, List.filterMap_map]

theorem keywords_append (args : List Expr) (keywords : List (Keyword Expr)) :
    Argument.keywords (args.map .positional ++ keywords.map .keyword) = keywords := by
  simp [Argument.keywords, List.filterMap_map]

theorem trailer_call {args : List (Passed Written)} {keywords : List (Keyword Written)}
    (hskip : Skips g.expression) (hlabels : ∀ k ∈ keywords, ∀ id ∈ k.label, IsName id)
    (hargs : ∀ a ∈ args,
      ReadsItem g.argument ')' (.positional (a.map Prod.fst).expr, (a.map Prod.snd).text))
    (hopenKeywords : ∀ k ∈ keywords, Begins 1 k.value.2)
    (hkeywords : ∀ k ∈ keywords, ReadsItem g.expression ')' k.value)
    (hend : Fails g.expression (')' :: r)) :
    ∃ items, g.trailer ('(' :: (commas (args.map (fun a => (a.map Prod.snd).text) ++
        keywords.map fun k => (k.map Prod.snd).text) ++ ')' :: r)) = .ok (.call items) r ∧
      Argument.positionals items = args.map (fun a => (a.map Prod.fst).expr) ∧
      Argument.keywords items = keywords.map (·.map Prod.fst) := by
  let ws : List (Argument × List Char) :=
    args.map (fun a => (.positional (a.map Prod.fst).expr, (a.map Prod.snd).text)) ++
      keywords.map fun k => (.keyword (k.map Prod.fst), (k.map Prod.snd).text)
  have hread : ∀ w ∈ ws, ReadsItem g.argument ')' w := by
    intro w hw
    rcases List.mem_append.1 hw with hw | hw
    · obtain ⟨a, ha, rfl⟩ := List.mem_map.1 hw
      exact hargs a ha
    · obtain ⟨k, hk, rfl⟩ := List.mem_map.1 hw
      exact argument_keyword (hlabels k hk) (hopenKeywords k hk) (hkeywords k hk)
  have htexts : ws.map Prod.snd = args.map (fun a => (a.map Prod.snd).text) ++
      keywords.map fun k => (k.map Prod.snd).text := by
    simp [ws, Function.comp_def]
  have hitems : ws.map Prod.fst = (args.map fun a => (a.map Prod.fst).expr).map .positional ++
      (keywords.map (·.map Prod.fst)).map .keyword := by
    simp [ws, Function.comp_def]
  refine ⟨ws.map Prod.fst, ?_, ?_, ?_⟩
  · have hpoint : Fails (symbol ".") ('(' :: (commas (ws.map Prod.snd) ++ ')' :: r)) :=
      operator_fails_of_head rfl (by decide) (by decide)
    rw [← htexts, trailer, orElse_of_fails (fails_bind hpoint _)]
    apply orElse_ok
    rw [bind_ok (arguments_ok hskip hread hend)]
    rfl
  · rw [hitems, positionals_append]
  · rw [hitems, keywords_append]

/-! ## Indices -/

/-- A gap in front of an index makes no difference, also where the index starts with its colon. -/
theorem skips_sliceItem (h : Skips g.expression) : Skips g.sliceItem := by
  intro c s hc
  cases hs : g.expression s with
  | ok e r =>
    rw [sliceItem, bind_ok (opt_ok hs), bind_ok (opt_ok (h.ok hc hs))]
    exact Agree.refl _
  | error place =>
    rw [sliceItem, bind_ok (opt_of_fails ⟨place, hs⟩),
      bind_ok (opt_of_fails (h.fails hc ⟨place, hs⟩))]
    have hskip : Skips (symbol ":") := skips_operator ":" []
    cases hcolon : symbol ":" s with
    | ok u r =>
      rw [bind_ok (opt_ok hcolon), bind_ok (opt_ok (hskip.ok hc hcolon))]
      exact Agree.refl _
    | error place' =>
      rw [bind_ok (opt_of_fails ⟨place', hcolon⟩),
        bind_ok (opt_of_fails (hskip.fails hc ⟨place', hcolon⟩))]
      exact True.intro

theorem opt_part {p : Parser Expr} {w : Option Written} (h : ∀ v ∈ w, Reads p 1 v)
    (hfails : ∀ r, MissingPart r → Fails p r) (hr : MissingPart r) :
    opt p ((w.map Prod.snd).getD [] ++ r) = .ok (w.map Prod.fst) r := by
  cases w with
  | none => exact opt_of_fails (hfails r hr)
  | some v => exact opt_ok (h v rfl 0 r hr.follow (by omega))

theorem sliceItem_ok {i : Index Written} (h : ∀ w ∈ i.parts, Reads g.expression 1 w)
    (hfails : ∀ r, MissingPart r → Fails g.expression r) :
    ReadsItem g.sliceItem ']' ((i.map Prod.fst).expr, (i.map Prod.snd).text) := by
  intro r hr
  have hcolon : Fails (symbol ":") r := by
    obtain ⟨d, t, rfl, rfl | rfl⟩ := hr <;>
      exact operator_fails_of_head rfl (by decide) (by decide)
  cases i with
  | single w =>
    have hread : g.expression (w.2 ++ r) = .ok w.1 r :=
      h w List.mem_cons_self 0 r (hr.follow (by decide)) (by omega)
    change g.sliceItem (w.2 ++ r) = .ok w.1 r
    rw [sliceItem, bind_ok (opt_ok hread), bind_ok (opt_of_fails hcolon)]
    rfl
  | slice lower upper step =>
    have hlower : ∀ v ∈ lower, Reads g.expression 1 v := fun v hv => h v (by simp_all [Index.parts])
    have hupper : ∀ v ∈ upper, Reads g.expression 1 v := fun v hv => h v (by simp_all [Index.parts])
    have hstep : ∀ v ∈ step, Reads g.expression 1 v := fun v hv => h v (by simp_all [Index.parts])
    let last : List Char := (step.map Prod.snd).elim [] (':' :: ·)
    have hmissing : MissingPart (last ++ r) := by
      cases step with
      | none => exact hr.missingPart
      | some v => exact ⟨':', _, rfl, by decide⟩
    have hlast : opt (do symbol ":"; opt g.expression) (last ++ r) =
        .ok (step.map fun v => some v.1) r := by
      cases step with
      | none => exact opt_of_fails (fails_bind hcolon _)
      | some v =>
        apply opt_ok
        exact (bind_ok (symbol_ok rfl) _).trans (opt_part hstep hfails hr.missingPart)
    have htext : ((Index.slice lower upper step).map Prod.snd).text ++ r =
        (lower.map Prod.snd).getD [] ++ ':' :: ((upper.map Prod.snd).getD [] ++ (last ++ r)) := by
      cases step <;> simp [Index.map, Index.text, last]
    have hrest : (do
          let upper ← opt g.expression
          let step ← opt (do symbol ":"; opt g.expression)
          return Expr.slice (lower.map Prod.fst) upper step.join : Parser Expr)
        ((upper.map Prod.snd).getD [] ++ (last ++ r)) =
        .ok ((Index.slice lower upper step).map Prod.fst).expr r := by
      rw [bind_ok (opt_part hupper hfails hmissing), bind_ok hlast]
      cases step <;> rfl
    rw [htext, sliceItem, bind_ok (opt_part hlower hfails ⟨':', _, rfl, by decide⟩),
      bind_ok (opt_ok (symbol_ok rfl))]
    cases lower <;> exact hrest

theorem trailer_index_of (h : g.subscript ('[' :: s) = .ok e r) :
    g.trailer ('[' :: s) = .ok (.index e) r := by
  have hpoint : Fails (symbol ".") ('[' :: s) :=
    operator_fails_of_head rfl (by decide) (by decide)
  have hcall : Fails g.arguments ('[' :: s) :=
    fails_bind (operator_fails_of_head rfl (by decide) (by decide)) _
  rw [trailer, orElse_of_fails (fails_bind hpoint _), orElse_of_fails (fails_bind hcall _),
    bind_ok h]
  rfl

theorem trailer_index {i : Index Written} (h : ∀ w ∈ i.parts, Reads g.expression 1 w)
    (hfails : ∀ r, MissingPart r → Fails g.expression r) :
    g.trailer ('[' :: ((i.map Prod.snd).text ++ ']' :: r)) = .ok (.index (i.map Prod.fst).expr) r := by
  have hcomma := comma_fails (by decide : ']' ∈ [')', ']', ':']) r
  have hitems : sepBy1 g.sliceItem (symbol ",") ((i.map Prod.snd).text ++ ']' :: r) =
      .ok [(i.map Prod.fst).expr] (']' :: r) :=
    sepBy1_of_steps (sliceItem_ok h hfails _ (closes_self ']' r)) (.done _) (fails_bind hcomma _)
  apply trailer_index_of
  rw [subscript, bind_ok (symbol_ok rfl), bind_ok hitems, bind_ok (opt_of_fails hcomma),
    bind_ok (symbol_ok rfl)]
  rfl

theorem sliceItem_fails (h : Fails g.expression (']' :: r)) : Fails g.sliceItem (']' :: r) := by
  have hcolon : Fails (symbol ":") (']' :: r) :=
    operator_fails_of_head rfl (by decide) (by decide)
  exact fails_bind_ok (opt_of_fails h) (fails_bind_ok (opt_of_fails hcolon) ⟨_, rfl⟩)

theorem trailer_indices {first : Index Written} {others : List (Index Written)}
    (hskip : Skips g.expression)
    (h : ∀ i ∈ first :: others, ∀ w ∈ i.parts, Reads g.expression 1 w)
    (hfails : ∀ r, MissingPart r → Fails g.expression r) :
    g.trailer ('[' :: (commas ((first :: others).map fun i => (i.map Prod.snd).text) ++
        (loneComma others ++ ']' :: r))) =
      .ok (.index (.tuple ((first :: others).map fun i => (i.map Prod.fst).expr))) r := by
  let item : Index Written → Expr × List Char := fun i => ((i.map Prod.fst).expr, (i.map Prod.snd).text)
  have hread : ∀ w ∈ others.map item, ReadsItem g.sliceItem ']' w := by
    intro w hw
    obtain ⟨i, hi, rfl⟩ := List.mem_map.1 hw
    exact sliceItem_ok (h i (List.mem_cons_of_mem first hi)) hfails
  have hexprs : (others.map item).map Prod.fst = others.map fun i => (i.map Prod.fst).expr := by
    simp [item, Function.comp_def]
  have htexts : (others.map item).map Prod.snd = others.map fun i => (i.map Prod.snd).text := by
    simp [item, Function.comp_def]
  have hlast := closes_loneComma ']' others r
  have hend : Fails g.sliceItem (']' :: r) := sliceItem_fails (hfails _ ⟨']', r, rfl, by decide⟩)
  have hitems : sepBy1 g.sliceItem (symbol ",")
      ((first.map Prod.snd).text ++ (withCommas (others.map fun i => (i.map Prod.snd).text) ++
        (loneComma others ++ ']' :: r))) =
      .ok ((first :: others).map fun i => (i.map Prod.fst).expr) (loneComma others ++ ']' :: r) := by
    rw [List.map_cons, ← hexprs, ← htexts]
    exact sepBy1_of_steps (sliceItem_ok (h first List.mem_cons_self) hfails _
        (closes_withCommas hlast _))
      (steps_withCommas (skips_sliceItem hskip) hread hlast) (closing_fails (by decide) hend)
  rw [List.map_cons, commas, List.append_assoc]
  apply trailer_index_of
  rw [subscript, bind_ok (symbol_ok rfl), bind_ok hitems,
    bind_ok (opt_loneComma (by decide) others r), bind_ok (symbol_ok rfl)]
  cases others <;> rfl

/-! ## Parameters -/

theorem skips_parameter (g : Grammar) : Skips g.parameter :=
  ((skips_operator _ _).bind _).orElse <| ((skips_operator _ _).bind _).orElse (skips_name.bind _)

theorem parameter_fails (g : Grammar) (r : List Char) : Fails g.parameter (':' :: r) :=
  fails_orElse (fails_bind (operator_fails_of_head rfl (by decide) (by decide)) _) <|
    fails_orElse (fails_bind (operator_fails_of_head rfl (by decide) (by decide)) _)
      (fails_bind (Opens.name_fails_of_head (by decide) (by decide) r) _)

theorem parameters_none (g : Grammar) (r : List Char) : g.parameters (':' :: r) = .ok [] (':' :: r) :=
  sepBy_of_fails (parameter_fails g r)

theorem parameter_plain {p : Param Written} (hname : IsName p.name)
    (hopen : ∀ w ∈ p.default, Begins 1 w.2) (h : ∀ w ∈ p.default, Reads g.expression 1 w) :
    ReadsItem g.parameter ':' (.plain (p.map Prod.fst), (p.map Prod.snd).text) := by
  obtain ⟨id, default⟩ := p
  intro r hr
  have hword : WordEnd r := (hr.follow (by decide)).wordEnd
  cases default with
  | none =>
    change g.parameter (id.toList ++ r) = .ok (.plain ⟨id, none⟩) r
    have hstars := @stars_fail r id hname
    have hequals := (hr.follow (by decide)).stringPiece_fails.2
    rw [parameter, orElse_of_fails (fails_bind hstars.2.1 _),
      orElse_of_fails (fails_bind hstars.2.2 _), bind_ok (name_ok hname hword),
      bind_ok (opt_of_fails (fails_bind hequals _))]
    rfl
  | some w =>
    have htext : ((Param.mk id (some w)).map Prod.snd).text ++ r = id.toList ++ '=' :: (w.2 ++ r) :=
      List.append_assoc _ _ _
    have hopening := hopen w rfl (hr.follow (by decide))
    have hequals : startsWithAny ['='] (w.2 ++ r) = false :=
      startsWithAny_mono hopening.startsWithAny_eq_false (by simp)
    have hdefault : (do operator "=" ['=']; g.expression : Parser Expr) ('=' :: (w.2 ++ r)) =
        .ok w.1 r :=
      (bind_ok (operator_ok rfl hequals) _).trans ((h w rfl).item (by decide) r hr)
    have hstars := @stars_fail ('=' :: (w.2 ++ r)) id hname
    rw [htext, parameter, orElse_of_fails (fails_bind hstars.2.1 _),
      orElse_of_fails (fails_bind hstars.2.2 _),
      bind_ok (name_ok hname (wordEnd_cons (by decide) _)), bind_ok (opt_ok hdefault)]
    rfl

theorem parameter_rest {id : String} (hname : IsName id) :
    ReadsItem g.parameter ':' (.rest id, '*' :: id.toList) := by
  intro r hr
  have hstar := (@stars_fail r id hname).1
  change g.parameter ('*' :: (id.toList ++ r)) = .ok (.rest id) r
  rw [parameter, orElse_of_fails (fails_bind (doubleStar_fails hstar) _)]
  apply orElse_ok
  rw [bind_ok (operator_ok rfl hstar)]
  exact (bind_ok (name_ok hname (hr.follow (by decide)).wordEnd) _).trans rfl

theorem parameter_named {id : String} (hname : IsName id) :
    ReadsItem g.parameter ':' (.named id, '*' :: '*' :: id.toList) := by
  intro r hr
  change g.parameter ('*' :: '*' :: (id.toList ++ r)) = .ok (.named id) r
  apply orElse_ok
  rw [bind_ok (symbol_ok rfl)]
  exact (bind_ok (name_ok hname (hr.follow (by decide)).wordEnd) _).trans rfl

/-- The items of a parameter list, each with its text. -/
def parameterItems (params : List (Param Written)) (rest named : Option String) :
    List (Parameter × List Char) :=
  params.map (fun p => (.plain (p.map Prod.fst), (p.map Prod.snd).text)) ++
    (rest.map fun id => (Parameter.rest id, '*' :: id.toList)).toList ++
    (named.map fun id => (Parameter.named id, '*' :: '*' :: id.toList)).toList

section Parameters

variable (params : List (Param Written)) (rest named : Option String)

theorem parameterItems_texts : (parameterItems params rest named).map Prod.snd =
    parameterTexts (params.map (·.map Prod.snd)) rest named := by
  cases rest <;> cases named <;> simp [parameterItems, parameterTexts, Function.comp_def]

theorem parameterItems_plains :
    Parameter.plains ((parameterItems params rest named).map Prod.fst) =
      params.map (·.map Prod.fst) := by
  cases rest <;> cases named <;>
    simp [parameterItems, Parameter.plains, List.filterMap_map, Function.comp_def]

theorem parameterItems_rest :
    Parameter.rest? ((parameterItems params rest named).map Prod.fst) = rest := by
  cases rest <;> cases named <;>
    simp [parameterItems, Parameter.rest?, List.filterMap_map, Function.comp_def]

theorem parameterItems_named :
    Parameter.named? ((parameterItems params rest named).map Prod.fst) = named := by
  cases rest <;> cases named <;>
    simp [parameterItems, Parameter.named?, List.filterMap_map, Function.comp_def]

end Parameters

theorem parameterItems_read {params : List (Param Written)} {rest named : Option String}
    (names : ∀ p ∈ params, IsName p.name) (restName : ∀ id ∈ rest, IsName id)
    (namedName : ∀ id ∈ named, IsName id)
    (hopen : ∀ p ∈ params, ∀ w ∈ p.default, Begins 1 w.2)
    (h : ∀ p ∈ params, ∀ w ∈ p.default, Reads g.expression 1 w) :
    ∀ w ∈ parameterItems params rest named, ReadsItem g.parameter ':' w := by
  intro w hw
  simp only [parameterItems, List.mem_append, List.mem_map, Option.mem_toList,
    Option.map_eq_some_iff] at hw
  rcases hw with (⟨p, hp, rfl⟩ | ⟨id, hid, rfl⟩) | ⟨id, hid, rfl⟩
  · exact parameter_plain (names p hp) (hopen p hp) (h p hp)
  · exact parameter_rest (restName id hid)
  · exact parameter_named (namedName id hid)

/-- The items of a parameter list, up to the colon after them. -/
theorem parameters_ok {ws : List (Parameter × List Char)}
    (h : ∀ w ∈ ws, ReadsItem g.parameter ':' w) :
    g.parameters (parameterText (ws.map Prod.snd) ++ ':' :: r) =
      .ok (ws.map Prod.fst) (':' :: r) := by
  have hlast := closes_self ':' r
  cases ws with
  | nil => exact parameters_none g r
  | cons w ws =>
    have htext : parameterText ((w :: ws).map Prod.snd) ++ ':' :: r =
        ' ' :: (w.2 ++ (withCommas (ws.map Prod.snd) ++ ':' :: r)) := by
      simp [parameterText, commas]
    have hfirst := h w List.mem_cons_self _ (closes_withCommas hlast (ws.map Prod.snd))
    rw [htext]
    exact sepBy_of_steps ((skips_parameter g).ok (by decide) hfirst)
      (steps_withCommas (skips_parameter g) (fun v hv => h v (List.mem_cons_of_mem w hv)) hlast)
      (fails_bind (comma_fails (by decide) r) _)

theorem parameterText_head (ts : List (List Char)) :
    ∃ c t, parameterText ts ++ ':' :: r = c :: t ∧ c ∈ [' ', ':'] := by
  cases ts with
  | nil => exact ⟨':', r, rfl, by decide⟩
  | cons t ts => exact ⟨' ', _, rfl, by decide⟩

theorem lambda_ok {ws : List (Parameter × List Char)} (hskip : Skips g.expression)
    (h : ∀ w ∈ ws, ReadsItem g.parameter ':' w) (hbody : g.expression s = .ok e r) :
    g.lambda ("lambda".toList ++ (parameterText (ws.map Prod.snd) ++ ':' :: ' ' :: s)) =
      .ok (.lambda (Parameter.plains (ws.map Prod.fst)) (Parameter.rest? (ws.map Prod.fst))
        (Parameter.named? (ws.map Prod.fst)) e) r := by
  have hword : WordEnd (parameterText (ws.map Prod.snd) ++ ':' :: ' ' :: s) := by
    obtain ⟨c, t, heq, hc⟩ := @parameterText_head (' ' :: s) (ws.map Prod.snd)
    rw [heq]
    exact wordEnd_cons ((by decide : ∀ c ∈ [' ', ':'], isIdentChar c = false) c hc) t
  rw [lambda, bind_ok (keyword_ok (after?_append _ _) hword), bind_ok (parameters_ok h),
    bind_ok (symbol_ok rfl), bind_ok (hskip.ok (by decide) hbody)]
  rfl

end Grammar

end DocQuery
