import DocQuery.Proofs.Reading
import DocQuery.Proofs.Parsed
import DocQuery.Proofs.Texts

/-! # Canonical texts are read back

The canonical text of an expression is one of its spellings, unless the expression holds a
floating-point number or a construct that is not modelled. So a tree that was read from some text is
read again from its canonical text (`parse_render`).
-/

set_option autoImplicit false

namespace DocQuery

open DocQuery.Parser Token

/-! ## Canonical texts by parts -/

/-- The characters of the canonical text. -/
def Expr.canonical (e : Expr) : List Char := e.render.toList

theorem intercalate_eq_flatMap (sep t : List Char) (ts : List (List Char)) :
    sep.intercalate (t :: ts) = t ++ ts.flatMap (sep ++ ·) := by
  induction ts generalizing t with
  | nil => simp
  | cons u ts ih => simp [ih u]

theorem toList_commaJoined (ts : List String) :
    (commaJoined ts).toList = commas (ts.map String.toList) := by
  rw [commaJoined, String.toList_intercalate]
  cases ts with
  | nil => rfl
  | cons t ts => exact intercalate_eq_flatMap _ _ _

theorem renderAll_eq_map (es : List Expr) :
    (Expr.renderAll es).map String.toList = es.map Expr.canonical := by
  induction es with
  | nil => rfl
  | cons e es ih => simp [Expr.renderAll, ih, Expr.canonical]

theorem renderKeywords_eq_map (ks : List (Keyword Expr)) :
    (Expr.renderKeywords ks).map String.toList = ks.map fun k => (k.map Expr.canonical).text := by
  induction ks with
  | nil => rfl
  | cons k ks ih =>
    obtain ⟨label, value⟩ := k
    cases label <;> simp [Expr.renderKeywords, ih, Keyword.map, Keyword.text, Expr.canonical]

theorem renderParams_eq_map (ps : List (Param Expr)) :
    (Expr.renderParams ps).map String.toList = ps.map fun p => (p.map Expr.canonical).text := by
  induction ps with
  | nil => rfl
  | cons p ps ih =>
    obtain ⟨id, default⟩ := p
    cases default <;> simp [Expr.renderParams, ih, Param.map, Param.text, Expr.canonical]

theorem renderConditions_eq_flatMap (es : List Expr) :
    (Expr.renderConditions es).toList =
      (es.map Expr.canonical).flatMap fun t => spaced "if" ++ t := by
  induction es with
  | nil => rfl
  | cons e es ih => simp [Expr.renderConditions, ih, spaced, Expr.canonical]

theorem renderClauses_eq_flatMap (cs : List (Clause Expr)) :
    (Expr.renderClauses cs).toList = cs.flatMap fun c => (c.map Expr.canonical).text := by
  induction cs with
  | nil => rfl
  | cons c cs ih =>
    obtain ⟨target, source, conditions⟩ := c
    simp [Expr.renderClauses, ih, renderConditions_eq_flatMap, Clause.map, Clause.text, spaced,
      Expr.canonical]

theorem renderLinks_eq_flatMap (links : List (CmpOp × Expr)) :
    (Expr.renderLinks (links.map (·.1)) (links.map (·.2))).toList =
      links.flatMap fun l => spaced l.1.symbol ++ l.2.canonical := by
  induction links with
  | nil => rfl
  | cons l links ih => simp [Expr.renderLinks, ih, spaced, Expr.canonical]

theorem Positional.canonical_expr (a : Positional Expr) :
    a.expr.canonical = (a.map Expr.canonical).text := by
  obtain ⟨spread, value⟩ := a
  cases spread <;>
    simp [Positional.expr, Positional.map, Positional.text, Expr.render, Expr.canonical]

theorem Index.canonical_expr (i : Index Expr) : i.expr.canonical = (i.map Expr.canonical).text := by
  cases i with
  | single e => rfl
  | slice lower upper step =>
    cases lower <;> cases upper <;> cases step <;>
      simp [Index.expr, Index.map, Index.text, Expr.render, Expr.renderOption, Expr.canonical]

/-! ## Canonical texts are spellings -/

/-- No floating-point number and no construct that is not modelled, at any depth. -/
structure Expr.Plain (e : Expr) : Prop where
  no_display : ∀ kind, ¬(Expr.display kind).Inside e
  no_float : ∀ x, ¬(Expr.literal (.float x)).Inside e

section Plain

variable {e : Expr}

theorem Expr.Plain.part {p : Expr} (h : e.Plain) (hp : p ∈ e.parts) : p.Plain :=
  ⟨fun kind hi => h.no_display kind (.part hp hi), fun x hi => h.no_float x (.part hp hi)⟩

theorem Expr.Plain.default {params : List (Param Expr)} {rest named : Option String}
    (h : (Expr.lambda params rest named e).Plain) :
    ∀ p ∈ params, ∀ x ∈ p.default, x.Plain := fun p hp _ hx =>
  h.part (List.mem_append_left _ (List.mem_filterMap.2 ⟨p, hp, hx⟩))

theorem Expr.Plain.argument {args : List (Positional Expr)} {keywords : List (Keyword Expr)}
    (h : (Expr.call e (args.map (·.expr)) keywords).Plain) : ∀ a ∈ args, a.value.Plain := by
  intro a ha
  have hpart : a.expr.Plain :=
    h.part (List.mem_cons_of_mem _ (List.mem_append_left _ (List.mem_map_of_mem ha)))
  obtain ⟨spread, value⟩ := a
  cases spread with
  | false => exact hpart
  | true => exact hpart.part List.mem_cons_self

theorem Expr.Plain.keyword {args : List Expr} {keywords : List (Keyword Expr)}
    (h : (Expr.call e args keywords).Plain) : ∀ k ∈ keywords, k.value.Plain := fun _ hk =>
  h.part (List.mem_cons_of_mem _ (List.mem_append_right _ (List.mem_map_of_mem hk)))

theorem Index.plain_parts {i : Index Expr} (h : i.expr.Plain) : ∀ e ∈ i.parts, e.Plain := by
  intro e he
  cases i with
  | single v =>
    cases List.mem_singleton.1 he
    exact h
  | slice lower upper step => exact h.part he

/-- The parts of the clauses of a comprehension are parts of it. -/
theorem plain_clauses {element x : Expr} {clauses : List (Clause Expr)} (hp : x.Plain)
    (hx : x.parts = element :: clauses.flatMap fun c => c.source :: c.conditions) :
    ∀ c ∈ clauses, c.source.Plain ∧ ∀ e ∈ c.conditions, e.Plain := by
  intro c hc
  have hpart : ∀ e ∈ c.source :: c.conditions, e.Plain := fun e he =>
    hp.part (hx ▸ List.mem_cons_of_mem _ (List.mem_flatMap.2 ⟨c, hc, he⟩))
  exact ⟨hpart _ List.mem_cons_self, fun e he => hpart e (List.mem_cons_of_mem _ he)⟩

end Plain

/-- The canonical text writes the expression, and binds as tightly as a trailer. -/
def RenderSpells (e : Expr) : Prop := e.Plain → Spelling .primary e e.canonical

section Spells

variable {e left right : Expr}

theorem RenderSpells.expression (h : RenderSpells e) (hp : e.Plain) :
    Spelling .expression e e.canonical :=
  (h hp).loosen (by decide)

theorem renderSpells_binary {op : BinaryOp} (hleft : RenderSpells left)
    (hright : RenderSpells right) : RenderSpells (.binary left op right) := by
  intro hp
  have hl := hleft (hp.part (by simp [Expr.parts]))
  have hr := hright (hp.part (by simp [Expr.parts]))
  have htext : (Expr.binary left op right).canonical =
      '(' :: ((left.canonical ++ (spaced op.symbol ++ right.canonical)) ++ [')']) := by
    simp [Expr.canonical, Expr.render, spaced]
  rw [htext]
  exact .enclosed_binary op (hl.loosen (by decide)) (fun _ => hl) (hr.loosen (by decide))

theorem renderSpells_unary {op : UnaryOp} (h : RenderSpells e) : RenderSpells (.unary op e) := by
  intro hp
  have he := h (hp.part (by simp [Expr.parts]))
  have htext : (Expr.unary op e).canonical = '(' :: ((op.mark.toList ++ e.canonical) ++ [')']) := by
    simp [Expr.canonical, Expr.render]
  rw [htext]
  exact .enclosed_unary op (he.loosen (by decide))

theorem renderSpells_compare {links : List (CmpOp × Expr)} (hne : links ≠ [])
    (hleft : RenderSpells left) (h : ∀ l ∈ links, RenderSpells l.2) :
    RenderSpells (.compare left (links.map (·.1)) (links.map (·.2))) := by
  intro hp
  have hl : Spelling .bitOr left left.canonical :=
    (hleft (hp.part (by simp [Expr.parts]))).loosen (by decide)
  have hlinks : ∀ l ∈ links, Spelling .bitOr l.2 l.2.canonical := fun l hl =>
    (h l hl (hp.part (List.mem_cons_of_mem _ (List.mem_map_of_mem hl)))).loosen (by decide)
  have htext : (Expr.compare left (links.map (·.1)) (links.map (·.2))).canonical =
      '(' :: ((left.canonical ++ links.flatMap fun l => spaced l.1.symbol ++ l.2.canonical) ++
        [')']) := by
    simp only [Expr.canonical, Expr.render, String.toList_append, renderLinks_eq_flatMap,
      List.append_assoc]
    rfl
  rw [htext]
  exact .parenthesized ((Spelling.compare_text hl hne hlinks).loosen (by decide))

theorem renderSpells_boolean {op : BoolOp} {first second : Expr} {others : List Expr}
    (h : ∀ e ∈ first :: second :: others, RenderSpells e) :
    RenderSpells (.boolean op (first :: second :: others)) := by
  intro hp
  have hrank : op.level.tighter.rank ≤ 14 ∧ 1 ≤ op.level.rank := by cases op <;> decide
  have hoperands : ∀ e ∈ first :: second :: others, Spelling op.level.tighter e e.canonical :=
    fun e he => (h e he (hp.part he)).loosen hrank.1
  have htext : (Expr.boolean op (first :: second :: others)).canonical =
      '(' :: ((first.canonical ++ (second :: others).flatMap fun e =>
        spaced op.keyword ++ e.canonical) ++ [')']) := by
    have hsep : (" " ++ op.keyword ++ " ").toList = spaced op.keyword := by simp [spaced]
    simp only [Expr.canonical, Expr.render, String.toList_append, String.toList_intercalate,
      renderAll_eq_map, List.map_cons, hsep, intercalate_eq_flatMap, List.flatMap_cons,
      List.flatMap_map, List.append_assoc]
    rfl
  rw [htext]
  exact .parenthesized ((Spelling.boolean_text hoperands).loosen hrank.2)

theorem renderSpells_conditional {test body otherwise : Expr} (htest : RenderSpells test)
    (hbody : RenderSpells body) (hotherwise : RenderSpells otherwise) :
    RenderSpells (.conditional test body otherwise) := by
  intro hp
  have ht := htest (hp.part (by simp [Expr.parts]))
  have hb := hbody (hp.part (by simp [Expr.parts]))
  have ho := hotherwise.expression (hp.part (by simp [Expr.parts]))
  have htext : (Expr.conditional test body otherwise).canonical =
      '(' :: ((body.canonical ++ (spaced "if" ++ (test.canonical ++
        (spaced "else" ++ otherwise.canonical)))) ++ [')']) := by
    simp [Expr.canonical, Expr.render, spaced]
  rw [htext]
  exact .parenthesized (.conditional (hb.loosen (by decide)) (ht.loosen (by decide)) ho)

theorem toList_variadicTexts (rest named : Option String) :
    (Expr.variadicTexts rest named).map String.toList =
      (rest.map fun id => '*' :: id.toList).toList ++
        (named.map fun id => '*' :: '*' :: id.toList).toList := by
  cases rest <;> cases named <;> simp [Expr.variadicTexts]

theorem canonical_lambda (params : List (Param Expr)) (rest named : Option String) (body : Expr) :
    (Expr.lambda params rest named body).canonical =
      '(' :: (("lambda".toList ++ (parameterText (parameterTexts
        (params.map (·.map Expr.canonical)) rest named) ++ ':' :: ' ' :: body.canonical)) ++
          [')']) := by
  have htexts : parameterTexts (params.map (·.map Expr.canonical)) rest named =
      (Expr.renderParams params ++ Expr.variadicTexts rest named).map String.toList := by
    rw [List.map_append, renderParams_eq_map, toList_variadicTexts, parameterTexts, List.map_map,
      List.append_assoc]
    rfl
  rw [htexts]
  cases hitems : Expr.renderParams params ++ Expr.variadicTexts rest named with
  | nil => simp [Expr.canonical, Expr.render, hitems, parameterText]
  | cons t ts => simp [Expr.canonical, Expr.render, hitems, parameterText, toList_commaJoined]

theorem renderSpells_lambda {params : List (Param Expr)} {rest named : Option String} {body : Expr}
    (names : ∀ p ∈ params, IsName p.name) (restName : ∀ id ∈ rest, IsName id)
    (namedName : ∀ id ∈ named, IsName id)
    (defaults : ∀ p ∈ params, ∀ e ∈ p.default, RenderSpells e) (hbody : RenderSpells body) :
    RenderSpells (.lambda params rest named body) := by
  intro hp
  have hb := hbody.expression (hp.part (by simp [Expr.parts]))
  have hdefaults : ∀ p ∈ params, ∀ e ∈ p.default, Spelling .expression e e.canonical :=
    fun p hparam e he => (defaults p hparam e he).expression (hp.default p hparam e he)
  rw [canonical_lambda]
  exact .parenthesized (.lambda_text names restName namedName hdefaults hb)

theorem renderSpells_attr {label : String} (h : RenderSpells e) (hlabel : IsName label) :
    RenderSpells (.attr e label) := by
  intro hp
  have he := h (hp.part (by simp [Expr.parts]))
  by_cases hnumber : e.isNumber = true
  · have htext : (Expr.attr e label).canonical =
        ('(' :: (e.canonical ++ [')'])) ++ '.' :: label.toList := by
      simp [Expr.canonical, Expr.render, hnumber]
    rw [htext]
    exact .attr (.parenthesized (he.loosen (by decide))) hlabel ⟨'(', by simp, by decide⟩
  · have htext : (Expr.attr e label).canonical = e.canonical ++ '.' :: label.toList := by
      simp [Expr.canonical, Expr.render, hnumber]
    rw [htext]
    refine .attr he hlabel (he.exists_nondigit ?_)
    rintro n rfl
    exact hnumber rfl

theorem renderSpells_call {args : List (Positional Expr)} {keywords : List (Keyword Expr)}
    (h : RenderSpells e) (labels : ∀ k ∈ keywords, ∀ id ∈ k.label, IsName id)
    (hargs : ∀ a ∈ args, RenderSpells a.value) (hkeywords : ∀ k ∈ keywords, RenderSpells k.value) :
    RenderSpells (.call e (args.map (·.expr)) keywords) := by
  intro hp
  have he := h (hp.part (by simp [Expr.parts]))
  have hspell := Spelling.call_text Expr.canonical Expr.canonical (args.map fun a => ⟨a, []⟩) he
    labels (by simp) (by
      intro a ha
      obtain ⟨b, hb, rfl⟩ := List.mem_map.1 ha
      exact (hargs b hb).expression (hp.argument b hb))
    (by
      intro a ha
      obtain ⟨b, -, rfl⟩ := List.mem_map.1 ha
      exact nofun)
    fun k hk => (hkeywords k hk).expression (hp.keyword k hk)
  have htexts : (Expr.renderAll (args.map (·.expr)) ++ Expr.renderKeywords keywords).map
      String.toList = args.map (fun a => (a.map Expr.canonical).text) ++
        keywords.map fun k => (k.map Expr.canonical).text := by
    simp [renderAll_eq_map, renderKeywords_eq_map, Positional.canonical_expr, Function.comp_def]
  have htext : (Expr.call e (args.map (·.expr)) keywords).canonical =
      e.canonical ++ '(' :: (commas (args.map (fun a => (a.map Expr.canonical).text) ++
        keywords.map fun k => (k.map Expr.canonical).text) ++ [')']) := by
    rw [← htexts]
    simp [Expr.canonical, Expr.render, toList_commaJoined]
  rw [htext]
  simpa [Function.comp_def, Passed.expr] using hspell

theorem renderSpells_subscript {i : Index Expr} (h : RenderSpells e)
    (single : ∀ items, i.expr = .tuple items → items = [])
    (parts : ∀ p ∈ i.parts, RenderSpells p) : RenderSpells (.subscript e i.expr) := by
  intro hp
  have he := h (hp.part (by simp [Expr.parts]))
  have hplain := Index.plain_parts (i := i) (hp.part (by simp [Expr.parts]))
  have hparts : ∀ p ∈ i.parts, Spelling .expression p p.canonical := fun p hpart =>
    (parts p hpart).expression (hplain p hpart)
  have htext : (Expr.subscript e i.expr).canonical =
      e.canonical ++ '[' :: ((i.map Expr.canonical).text ++ [']']) := by
    rw [← Index.canonical_expr, Expr.canonical, Expr.render.eq_def]
    split <;> simp_all [Expr.canonical]
  rw [htext]
  exact .subscript_text he hparts

theorem renderSpells_subscripts {indices : List (Index Expr)} (hne : indices ≠ [])
    (h : RenderSpells e) (parts : ∀ i ∈ indices, ∀ p ∈ i.parts, RenderSpells p) :
    RenderSpells (.subscript e (.tuple (indices.map (·.expr)))) := by
  intro hp
  have he := h (hp.part (by simp [Expr.parts]))
  have htuple : (Expr.tuple (indices.map (·.expr))).Plain := hp.part (by simp [Expr.parts])
  have hparts : ∀ i ∈ indices, ∀ p ∈ i.parts, Spelling .expression p p.canonical :=
    fun i hi p hpart => (parts i hi p hpart).expression
      (Index.plain_parts (htuple.part (List.mem_map_of_mem hi)) p hpart)
  cases indices with
  | nil => exact absurd rfl hne
  | cons first others =>
    have htexts : (Expr.renderAll (others.map (·.expr))).map String.toList =
        others.map fun i => (i.map Expr.canonical).text := by
      simp [renderAll_eq_map, Index.canonical_expr, Function.comp_def]
    have hfirst : first.expr.render.toList = (first.map Expr.canonical).text :=
      Index.canonical_expr first
    have htext : (Expr.subscript e (.tuple ((first :: others).map (·.expr)))).canonical =
        e.canonical ++ '[' :: (commas ((first :: others).map fun i => (i.map Expr.canonical).text) ++
          (loneComma others ++ [']'])) := by
      cases others <;> simp_all [Expr.canonical, Expr.render, toList_commaJoined, loneComma]
    rw [htext]
    exact .subscripts_text he hparts

theorem renderSpells_list {items : List Expr} (h : ∀ e ∈ items, RenderSpells e) :
    RenderSpells (.list items) := by
  intro hp
  have hitems : ∀ e ∈ items, Spelling .expression e e.canonical := fun e he =>
    (h e he).expression (hp.part he)
  have htext : (Expr.list items).canonical =
      '[' :: (commas (items.map Expr.canonical) ++ [']']) := by
    rw [← renderAll_eq_map]
    simp [Expr.canonical, Expr.render, toList_commaJoined]
  rw [htext]
  exact .up (.list_text hitems)

theorem renderSpells_tuple {items : List Expr} (h : ∀ e ∈ items, RenderSpells e) :
    RenderSpells (.tuple items) := by
  intro hp
  have hitems : ∀ e ∈ items, Spelling .expression e e.canonical := fun e he =>
    (h e he).expression (hp.part he)
  cases items with
  | nil => exact .up .unit
  | cons first others =>
    have htext : (Expr.tuple (first :: others)).canonical =
        '(' :: (commas ((first :: others).map Expr.canonical) ++ (loneComma others ++ [')'])) := by
      rw [← renderAll_eq_map]
      cases others <;> simp [Expr.canonical, Expr.render, Expr.renderAll, toList_commaJoined,
        loneComma, commas, withCommas]
    rw [htext]
    exact .up (.tuple_text hitems)

/-- The canonical texts write the parts of the clauses of a comprehension. -/
theorem renderSpells_clauses {clauses : List (Clause Expr)}
    (hplain : ∀ c ∈ clauses, c.source.Plain ∧ ∀ e ∈ c.conditions, e.Plain)
    (targets : ∀ c ∈ clauses, IsName c.target) (sources : ∀ c ∈ clauses, RenderSpells c.source)
    (conditions : ∀ c ∈ clauses, ∀ e ∈ c.conditions, RenderSpells e) :
    Spelling.Clauses Expr.canonical clauses := by
  intro c hc
  refine ⟨targets c hc, (sources c hc (hplain c hc).1).loosen (by decide), fun e he => ?_⟩
  exact (conditions c hc e he ((hplain c hc).2 e he)).loosen (by decide)

theorem renderSpells_listComp {clauses : List (Clause Expr)} (h : RenderSpells e)
    (hne : clauses ≠ []) (targets : ∀ c ∈ clauses, IsName c.target)
    (sources : ∀ c ∈ clauses, RenderSpells c.source)
    (conditions : ∀ c ∈ clauses, ∀ e ∈ c.conditions, RenderSpells e) :
    RenderSpells (.listComp e clauses) := by
  intro hp
  have he := h.expression (hp.part List.mem_cons_self)
  have hclauses := renderSpells_clauses (plain_clauses hp rfl) targets sources conditions
  have htext : (Expr.listComp e clauses).canonical = '[' :: (e.canonical ++
      (clauses.flatMap (fun c => (c.map Expr.canonical).text) ++ [']'])) := by
    simp only [Expr.canonical, Expr.render, String.toList_append, renderClauses_eq_flatMap,
      List.append_assoc]
    rfl
  rw [htext]
  exact .up (.listComp_text he hne hclauses)

theorem renderSpells_generator {clauses : List (Clause Expr)} (h : RenderSpells e)
    (hne : clauses ≠ []) (targets : ∀ c ∈ clauses, IsName c.target)
    (sources : ∀ c ∈ clauses, RenderSpells c.source)
    (conditions : ∀ c ∈ clauses, ∀ e ∈ c.conditions, RenderSpells e) :
    RenderSpells (.generator e clauses) := by
  intro hp
  have he := h.expression (hp.part List.mem_cons_self)
  have hclauses := renderSpells_clauses (plain_clauses hp rfl) targets sources conditions
  have htext : (Expr.generator e clauses).canonical = '(' :: (e.canonical ++
      (clauses.flatMap (fun c => (c.map Expr.canonical).text) ++ [')'])) := by
    simp only [Expr.canonical, Expr.render, String.toList_append, renderClauses_eq_flatMap,
      List.append_assoc]
    rfl
  rw [htext]
  exact .up (.generator_text he hne hclauses)

end Spells

/-- The canonical text of a tree of the grammar writes it. -/
theorem Parsed.renderSpells {e : Expr} (h : Parsed e) : RenderSpells e := by
  induction h with
  | lambda params rest named names restName namedName _ _ ihDefaults ihBody =>
    exact renderSpells_lambda names restName namedName ihDefaults ihBody
  | none => exact fun _ => .up .none
  | bool b => exact fun _ => .up (.bool b)
  | int n hn =>
    intro _
    have htext : (Expr.literal (.int n)).canonical = Nat.toDigits 10 n := toString_natCast n
    rw [htext]
    exact .up (.int n hn)
  | float digits exponent => exact fun hp => absurd .self (hp.no_float _)
  | str s => exact fun _ => .up (.str s)
  | name h => exact fun _ => .up (.name h)
  | attr _ hlabel ih => exact renderSpells_attr ih hlabel
  | binary op _ _ ihLeft ihRight => exact renderSpells_binary ihLeft ihRight
  | unary op _ ih => exact renderSpells_unary ih
  | compare _ links some _ ihLeft ih => exact renderSpells_compare some ihLeft ih
  | boolean op first second others _ ih => exact renderSpells_boolean ih
  | conditional _ _ _ ihTest ihBody ihOtherwise =>
    exact renderSpells_conditional ihTest ihBody ihOtherwise
  | call _ args keywords labels _ _ ih ihArgs ihKeywords =>
    exact renderSpells_call ih labels ihArgs ihKeywords
  | subscript _ i single _ ih ihParts => exact renderSpells_subscript ih single ihParts
  | subscripts _ indices some _ ih ihParts => exact renderSpells_subscripts some ih ihParts
  | list items _ ih => exact renderSpells_list ih
  | tuple items _ ih => exact renderSpells_tuple ih
  | listComp _ clauses some targets _ _ ih ihSources ihConditions =>
    exact renderSpells_listComp ih some targets ihSources ihConditions
  | generator _ clauses some targets _ _ ih ihSources ihConditions =>
    exact renderSpells_generator ih some targets ihSources ihConditions
  | display h => exact fun hp => absurd .self (hp.no_display _)

/-- A tree that was read from a text is read again from its canonical text, unless it holds a
floating-point number or a construct that is not modelled. -/
theorem parse_render {t : String} {e : Expr} (h : Expr.parse t = .ok e)
    (hdisplay : ∀ kind, ¬(Expr.display kind).Inside e)
    (hfloat : ∀ x, ¬(Expr.literal (.float x)).Inside e) : Expr.parse e.render = .ok e :=
  ((parsed_of_parse h).renderSpells.expression ⟨hdisplay, hfloat⟩).parse

theorem parse_render_lambda : ∃ e : Expr,
    Expr.parse "lambda v=1: v[a:,] is (not 2 .c)" = .ok e ∧
    (∀ kind, ¬(Expr.display kind).Inside e) ∧ (∀ x, ¬(Expr.literal (.float x)).Inside e) ∧
    Expr.parse e.render = .ok e := by
  let slice : Expr := .slice (some (.name "a")) none none
  let indexed : Expr := .subscript (.name "v") (.tuple [slice])
  let negated : Expr := .unary .not (.attr (.literal (.int 2)) "c")
  let body : Expr := .compare indexed [.same] [negated]
  let e : Expr := .lambda [⟨"v", some (.literal (.int 1))⟩] none none body
  have hparse : Expr.parse "lambda v=1: v[a:,] is (not 2 .c)" = .ok e := by cbv
  have hinside : ∀ x : Expr, x.Inside e → x ∈ [e, .literal (.int 1), body, indexed, negated,
      .name "v", .tuple [slice], slice, .name "a", .attr (.literal (.int 2)) "c",
      .literal (.int 2)] :=
    fun x hx => hx.mem_of_closed List.mem_cons_self
      (by simp [e, body, indexed, negated, slice, Expr.parts])
  have hdisplay : ∀ kind, ¬(Expr.display kind).Inside e := fun kind hk => by
    simpa [e, body, indexed, negated, slice] using hinside _ hk
  have hfloat : ∀ x, ¬(Expr.literal (.float x)).Inside e := fun x hx => by
    simpa [e, body, indexed, negated, slice] using hinside _ hx
  exact ⟨e, hparse, hdisplay, hfloat, parse_render hparse hdisplay hfloat⟩

end DocQuery
