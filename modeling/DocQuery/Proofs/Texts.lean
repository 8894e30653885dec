import DocQuery.Proofs.Enclosed

/-! # Spellings from the texts of parts

A printer gives every expression a text. Where its texts write the parts of an expression, the text
that is put together from them writes the whole.

* `Expr.writtenAs`: an expression with the text that a printer gives it.
* `Spelling.lambda_text`, `Spelling.call_text`, …: forms with lists of parts.
-/

set_option autoImplicit false

namespace DocQuery

open Token

/-- An expression with its text. -/
def Expr.writtenAs (text : Expr → List Char) (e : Expr) : Written := (e, text e)

section Maps

variable (text : Expr → List Char)

theorem map_writtenAs_fst (es : List Expr) : (es.map (Expr.writtenAs text)).map Prod.fst = es := by
  simp [Function.comp_def, Expr.writtenAs]

theorem map_writtenAs_snd (es : List Expr) :
    (es.map (Expr.writtenAs text)).map Prod.snd = es.map text := by
  simp [Function.comp_def, Expr.writtenAs]

theorem Param.map_writtenAs (p : Param Expr) :
    (p.map (Expr.writtenAs text)).map Prod.fst = p ∧
      (p.map (Expr.writtenAs text)).map Prod.snd = p.map text := by
  obtain ⟨id, default⟩ := p
  cases default <;> exact ⟨rfl, rfl⟩

theorem Clause.map_writtenAs (c : Clause Expr) :
    (c.map (Expr.writtenAs text)).map Prod.fst = c ∧
      (c.map (Expr.writtenAs text)).map Prod.snd = c.map text := by
  obtain ⟨target, source, conditions⟩ := c
  simp [Clause.map, Expr.writtenAs, Function.comp_def]

theorem Index.map_writtenAs (i : Index Expr) :
    (i.map (Expr.writtenAs text)).map Prod.fst = i ∧
      (i.map (Expr.writtenAs text)).map Prod.snd = i.map text := by
  cases i with
  | single e => exact ⟨rfl, rfl⟩
  | slice lower upper step => cases lower <;> cases upper <;> cases step <;> exact ⟨rfl, rfl⟩

theorem Index.parts_map {α β : Type} (f : α → β) (i : Index α) :
    (i.map f).parts = i.parts.map f := by
  cases i with
  | single e => rfl
  | slice lower upper step => cases lower <;> cases upper <;> cases step <;> rfl

end Maps

namespace Spelling

variable {text : Expr → List Char} {e : Expr} {s : List Char}

theorem forall_writtenAs {L : Level} {es : List Expr} (h : ∀ e ∈ es, Spelling L e (text e)) :
    ∀ w ∈ es.map (Expr.writtenAs text), Spelling L w.1 w.2 := by
  intro w hw
  obtain ⟨e, he, rfl⟩ := List.mem_map.1 hw
  exact h e he

theorem lambda_text {params : List (Param Expr)} {rest named : Option String}
    (names : ∀ p ∈ params, IsName p.name) (restName : ∀ id ∈ rest, IsName id)
    (namedName : ∀ id ∈ named, IsName id)
    (defaults : ∀ p ∈ params, ∀ e ∈ p.default, Spelling .expression e (text e))
    (body : Spelling .expression e s) :
    Spelling .expression (.lambda params rest named e)
      ("lambda".toList ++ (parameterText (parameterTexts (params.map (·.map text)) rest named) ++
        ':' :: ' ' :: s)) := by
  have hnames : ∀ p ∈ params.map (·.map (Expr.writtenAs text)), IsName p.name := by
    intro p hp
    obtain ⟨q, hq, rfl⟩ := List.mem_map.1 hp
    exact names q hq
  have hdefaults : ∀ p ∈ params.map (·.map (Expr.writtenAs text)), ∀ w ∈ p.default,
      Spelling .expression w.1 w.2 := by
    intro p hp w hw
    obtain ⟨q, hq, rfl⟩ := List.mem_map.1 hp
    obtain ⟨e, he, rfl⟩ := Option.map_eq_some_iff.1 hw
    exact defaults q hq e he
  have hspell := Spelling.lambda (params.map (·.map (Expr.writtenAs text))) rest named hnames
    restName namedName hdefaults body
  simpa only [List.map_map, Function.comp_def, (Param.map_writtenAs text _).1,
    (Param.map_writtenAs text _).2, List.map_id_fun', id_eq] using hspell

theorem boolean_text {op : BoolOp} {first second : Expr} {others : List Expr}
    (operands : ∀ e ∈ first :: second :: others, Spelling op.level.tighter e (text e)) :
    Spelling op.level (.boolean op (first :: second :: others))
      (text first ++ (second :: others).flatMap fun e => spaced op.keyword ++ text e) := by
  have hspell := Spelling.boolean op (first.writtenAs text) (second.writtenAs text)
    (others.map (Expr.writtenAs text)) (forall_writtenAs operands)
  rw [List.map_cons, List.map_cons, map_writtenAs_fst] at hspell
  simpa [List.flatMap_map, Expr.writtenAs] using hspell

theorem compare_text {links : List (CmpOp × Expr)} (hleft : Spelling .bitOr e s)
    (some : links ≠ []) (operands : ∀ l ∈ links, Spelling .bitOr l.2 (text l.2)) :
    Spelling .comparison (.compare e (links.map (·.1)) (links.map (·.2)))
      (s ++ links.flatMap fun l => spaced l.1.symbol ++ text l.2) := by
  have hlinks : ∀ l ∈ links.map fun l => (l.1, l.2.writtenAs text),
      Spelling .bitOr l.2.1 l.2.2 := by
    intro l hl
    obtain ⟨m, hm, rfl⟩ := List.mem_map.1 hl
    exact operands m hm
  have hspell := Spelling.compare hleft _ (by simpa using some) hlinks
  simpa [List.flatMap_map, Function.comp_def, Expr.writtenAs] using hspell

theorem subscript_text {i : Index Expr} (h : Spelling .primary e s)
    (parts : ∀ p ∈ i.parts, Spelling .expression p (text p)) :
    Spelling .primary (.subscript e i.expr) (s ++ '[' :: ((i.map text).text ++ [']'])) := by
  have hparts : ∀ w ∈ (i.map (Expr.writtenAs text)).parts, Spelling .expression w.1 w.2 := by
    rw [Index.parts_map]
    exact forall_writtenAs parts
  have hspell := Spelling.subscript h (i.map (Expr.writtenAs text)) hparts
  rwa [(Index.map_writtenAs text i).1, (Index.map_writtenAs text i).2] at hspell

theorem subscripts_text {first : Index Expr} {others : List (Index Expr)}
    (h : Spelling .primary e s)
    (parts : ∀ i ∈ first :: others, ∀ p ∈ i.parts, Spelling .expression p (text p)) :
    Spelling .primary (.subscript e (.tuple ((first :: others).map (·.expr))))
      (s ++ '[' :: (commas ((first :: others).map fun i => (i.map text).text) ++
        (loneComma others ++ [']']))) := by
  have hparts : ∀ i ∈ (first :: others).map (·.map (Expr.writtenAs text)), ∀ w ∈ i.parts,
      Spelling .expression w.1 w.2 := by
    intro i hi
    obtain ⟨j, hj, rfl⟩ := List.mem_map.1 hi
    rw [Index.parts_map]
    exact forall_writtenAs (parts j hj)
  rw [List.map_cons] at hparts
  have hspell := Spelling.subscripts h _ _ hparts
  simpa only [loneComma, List.isEmpty_map, List.map_cons, List.map_map, Function.comp_def,
    (Index.map_writtenAs text _).1, (Index.map_writtenAs text _).2] using hspell

theorem list_text {items : List Expr} (h : ∀ e ∈ items, Spelling .expression e (text e)) :
    Spelling .atom (.list items) ('[' :: (commas (items.map text) ++ [']'])) := by
  have hspell := Spelling.list _ (forall_writtenAs h)
  rwa [map_writtenAs_fst, map_writtenAs_snd] at hspell

theorem tuple_text {first : Expr} {others : List Expr}
    (h : ∀ e ∈ first :: others, Spelling .expression e (text e)) :
    Spelling .atom (.tuple (first :: others))
      ('(' :: (commas ((first :: others).map text) ++ (loneComma others ++ [')']))) := by
  have hspell := Spelling.tuple (first.writtenAs text) (others.map (Expr.writtenAs text))
    (forall_writtenAs h)
  rw [← List.map_cons (f := Expr.writtenAs text), map_writtenAs_fst, map_writtenAs_snd] at hspell
  simpa only [loneComma, List.isEmpty_map] using hspell

/-! ## Comprehensions -/

section Clauses

variable {clauses : List (Clause Expr)}

/-- The texts write the sources and the conditions of the clauses. -/
def Clauses (text : Expr → List Char) (clauses : List (Clause Expr)) : Prop :=
  ∀ c ∈ clauses, IsName c.target ∧ Spelling .disjunction c.source (text c.source) ∧
    ∀ e ∈ c.conditions, Spelling .disjunction e (text e)

theorem Clauses.writtenAs (h : Clauses text clauses) :
    ∀ c ∈ clauses.map (·.map (Expr.writtenAs text)), IsName c.target ∧
      Spelling .disjunction c.source.1 c.source.2 ∧
      ∀ w ∈ c.conditions, Spelling .disjunction w.1 w.2 := by
  intro c hc
  obtain ⟨d, hd, rfl⟩ := List.mem_map.1 hc
  obtain ⟨htarget, hsource, hconditions⟩ := h d hd
  exact ⟨htarget, hsource, forall_writtenAs hconditions⟩

theorem listComp_text (h : Spelling .expression e s) (some : clauses ≠ [])
    (hclauses : Clauses text clauses) :
    Spelling .atom (.listComp e clauses)
      ('[' :: (s ++ (clauses.flatMap (fun c => (c.map text).text) ++ [']']))) := by
  have hwritten := hclauses.writtenAs
  have hspell := Spelling.listComp h (clauses.map (·.map (Expr.writtenAs text))) (by simpa using some)
    (fun c hc => (hwritten c hc).1) (fun c hc => (hwritten c hc).2.1)
    (fun c hc => (hwritten c hc).2.2)
  simpa only [List.flatMap_map, List.map_map, Function.comp_def, (Clause.map_writtenAs text _).1,
    (Clause.map_writtenAs text _).2, List.map_id_fun', id_eq] using hspell

theorem generator_text (h : Spelling .expression e s) (some : clauses ≠ [])
    (hclauses : Clauses text clauses) :
    Spelling .atom (.generator e clauses)
      ('(' :: (s ++ (clauses.flatMap (fun c => (c.map text).text) ++ [')']))) := by
  have hwritten := hclauses.writtenAs
  have hspell := Spelling.generator h (clauses.map (·.map (Expr.writtenAs text)))
    (by simpa using some) (fun c hc => (hwritten c hc).1) (fun c hc => (hwritten c hc).2.1)
    (fun c hc => (hwritten c hc).2.2)
  simpa only [List.flatMap_map, List.map_map, Function.comp_def, (Clause.map_writtenAs text _).1,
    (Clause.map_writtenAs text _).2, List.map_id_fun', id_eq] using hspell

end Clauses

/-! ## Calls -/

theorem call_text (text inner : Expr → List Char) (args : List (Passed Expr))
    {keywords : List (Keyword Expr)} (h : Spelling .primary e s)
    (labels : ∀ k ∈ keywords, ∀ id ∈ k.label, IsName id)
    (spread : ∀ a ∈ args, a.spread = true → a.clauses = [])
    (hargs : ∀ a ∈ args, Spelling .expression a.value (text a.value))
    (hclauses : ∀ a ∈ args, Clauses inner a.clauses)
    (hkeywords : ∀ k ∈ keywords, Spelling .expression k.value (text k.value)) :
    Spelling .primary (.call e (args.map (·.expr)) keywords)
      (s ++ '(' :: (commas (args.map (fun a => (a.toPositional.map text).text ++
        a.clauses.flatMap fun c => (c.map inner).text) ++ keywords.map fun k => (k.map text).text) ++
          [')'])) := by
  let written : Passed Expr → Passed Written := fun a =>
    ⟨a.toPositional.map (Expr.writtenAs text), a.clauses.map (·.map (Expr.writtenAs inner))⟩
  have hwritten : ∀ a ∈ args.map written, a.Proper ∧ Spelling .expression a.value.1 a.value.2 ∧
      ∀ c ∈ a.clauses, Spelling .disjunction c.source.1 c.source.2 ∧
        ∀ w ∈ c.conditions, Spelling .disjunction w.1 w.2 := by
    intro a ha
    obtain ⟨b, hb, rfl⟩ := List.mem_map.1 ha
    have hclause := (hclauses b hb).writtenAs
    refine ⟨⟨fun hs => ?_, fun c hc => (hclause c hc).1⟩, hargs b hb, fun c hc => (hclause c hc).2⟩
    simp [written, spread b hb hs]
  have hkeyword : ∀ k ∈ keywords.map (·.map (Expr.writtenAs text)),
      (∀ id ∈ k.label, IsName id) ∧ Spelling .expression k.value.1 k.value.2 := by
    intro k hk
    obtain ⟨l, hl, rfl⟩ := List.mem_map.1 hk
    exact ⟨labels l hl, hkeywords l hl⟩
  have hspell := Spelling.call h (args.map written) (keywords.map (·.map (Expr.writtenAs text)))
    (fun k hk => (hkeyword k hk).1) (fun a ha => (hwritten a ha).1)
    (fun a ha => (hwritten a ha).2.1) (fun a ha c hc => ((hwritten a ha).2.2 c hc).1)
    (fun a ha c hc => ((hwritten a ha).2.2 c hc).2) fun k hk => (hkeyword k hk).2
  have hexpr : ∀ a : Passed Expr, (written a).map Prod.fst = a := by
    rintro ⟨⟨spread, value⟩, clauses⟩
    simp [written, Passed.map, Positional.map, Expr.writtenAs, Function.comp_def,
      (Clause.map_writtenAs inner _).1]
  have htext : ∀ a : Passed Expr, ((written a).map Prod.snd).text =
      (a.toPositional.map text).text ++ a.clauses.flatMap fun c => (c.map inner).text := by
    rintro ⟨⟨spread, value⟩, clauses⟩
    simp [written, Passed.map, Passed.text, Positional.map, Expr.writtenAs, Function.comp_def,
      List.flatMap_map, (Clause.map_writtenAs inner _).2]
  simpa only [List.map_map, Function.comp_def, hexpr, htext, Keyword.map, Expr.writtenAs,
    List.map_id_fun', id_eq] using hspell

end Spelling

end DocQuery
