import DocQuery.Proofs.Accesses
import DocQuery.Proofs.Branches
import DocQuery.Proofs.Locality
import DocQuery.Proofs.References

/-! # How statements name documents

A statement that reads one table alone names the document of that table without the table. Where it
reads more, or is part of a union, every document is named with its table.

* `Sql.compile_of_table`: what an access of a table becomes inside an expression.
* `Sql.Qualified`: a table stands in front of the column each time that a text names it.
* `Query.clauses`: the texts of a query beside the tables that it reads.
* `references_compile`: how the texts of a compiled query name documents.
-/

set_option autoImplicit false

namespace DocQuery

open Sql

/-! ## Names that expressions avoid -/

namespace Expr

variable {e : Expr} {id : String}

theorem Avoids.ofOperands {op : BoolOp} {es : List Expr} (h : ∀ e ∈ es, e.Avoids id)
    (he : ofOperands? op es = some e) : e.Avoids id := by
  rcases es with _ | ⟨x, _ | ⟨y, others⟩⟩
  · cases he
  · cases he
    exact h e List.mem_cons_self
  · cases he
    intro z hz
    rw [nodes, List.mem_cons, mem_nodesOfAll] at hz
    obtain rfl | ⟨a, ha, hz⟩ := hz
    · simp [ownNames]
    · exact h a ha z hz

theorem Avoids.operands {op : BoolOp} {es : List Expr} (h : (boolean op es).Avoids id) :
    ∀ e ∈ es, e.Avoids id :=
  fun _ he => h.part he

theorem Avoids.withoutJoins {tables : Tables} {used : List JoinCondition} {e' : Expr}
    (h : e.Avoids id) (he : e.withoutJoins? tables used = some e') : e'.Avoids id := by
  rw [withoutJoins?.eq_def] at he
  split at he
  · exact .ofOperands (fun x hx => h.operands x (List.mem_filter.1 hx).1) he
  · split at he
    · cases he
    · cases he
      exact h

theorem Avoids.split {m : Membership} {without within : Expr} (h : e.Avoids id)
    (he : m.split? e = some (without, within)) : without.Avoids id ∧ within.Avoids id := by
  rw [Membership.split?.eq_def] at he
  split at he
  · obtain ⟨a, ha, he⟩ := Option.bind_eq_some_iff.1 he
    obtain ⟨b, hb, he⟩ := Option.bind_eq_some_iff.1 he
    cases he
    exact ⟨.ofOperands (fun x hx => h.operands x (List.mem_filter.1 hx).1) ha,
      .ofOperands (fun x hx => h.operands x (List.mem_filter.1 hx).1) hb⟩
  · cases he

theorem Avoids.comprehension {x : ArrayComprehension} (h : e.Avoids id)
    (hx : e.comprehension? = .ok (some x)) :
    x.element.Avoids id ∧ ∀ y ∈ x.condition, y.Avoids id := by
  rw [comprehension?] at hx
  split at hx
  · cases hx
  · rename_i element target array conditions hparts
    split at hx
    · cases hx
      refine ⟨fun y hy => h y (mem_nodes_of_clause hparts (.inl hy)), fun y hy => ?_⟩
      refine .ofOperands (fun k hk z hz => h z (mem_nodes_of_clause hparts (.inr ?_))) hy
      simp only [nodesOfClauses, List.mem_append, mem_nodesOfAll]
      exact .inl (.inr ⟨k, hk, hz⟩)
    · cases hx
  · cases hx

end Expr

namespace Sql

/-! ## Accesses of tables -/

section Accesses

variable {c : Context} {e x : Expr} {vs : List String} {t : String}

theorem Context.rootOf_under (c : Context) (vs : List String) : (c.under vs).rootOf = c.rootOf := by
  induction vs with
  | nil => rfl
  | cons v vs ih => exact ih

/-- An access of a table that is evaluated for an expression becomes a path from the document of the
table, named as the context of the whole says. -/
theorem compile_of_table (he : Usable c e) (hx : Visits c e vs x) (hroot : x.root? = some t)
    (hresolve : (c.under vs).scope.resolve t = .table) :
    (c.under vs).compile x = .ok (FieldPath.mk (c.rootOf t) x.steps).field := by
  obtain ⟨v, hv, -⟩ := hx.usable he
  rcases eval_of_table hresolve hroot hv with ⟨rfl, hsteps⟩ | ⟨rfl, -⟩
  · rw [hsteps, ← c.rootOf_under vs]
    exact compile_eq_ok hv rfl
  · rw [← c.rootOf_under vs]
    exact compile_eq_ok hv rfl

theorem usable_of_compile {sql : String} (h : c.compile e = .ok sql) : Usable c e := by
  obtain ⟨v, hv, hsql⟩ := bind_eq_ok h
  exact usable_of_sqlOf hv hsql

theorem usable_of_predicate {condition : Option String} (h : c.predicate e = .ok condition) :
    Usable c e := by
  obtain ⟨v, hv, hcondition⟩ := bind_eq_ok h
  obtain ⟨sql, hsql, -⟩ := exists_sql_of_conditionOf hcondition
  exact usable_of_sqlOf hv hsql

end Accesses

/-! ## Texts that name documents -/

/-- A known table and a dot stand in front of the column of the documents each time that the text
names it. -/
def Qualified (tables : Tables) (text : String) : Prop :=
  ∀ before after, chunksOf text = before ++ .word documentColumn.toList :: after →
    ∃ t, tables.contains t = true ∧ (lexemes? t).isSome = true ∧ chunksOf t ++ [.dot] <:+ before

section Names

variable {c : Context} {ts us : List String} {text text' : String} {e : Expr}

theorem Names.qualified (h : Names c ts text) (hc : c.qualify = true) :
    Qualified c.scope.tables text := by
  have htables : ∀ ref ∈ references text, ∃ t, c.scope.tables.contains t = true ∧ ref = .of t := by
    intro ref href
    obtain ⟨t, ht, rfl⟩ := h.covers.known ref href
    exact ⟨t, ht, by simp [Context.reference, hc]⟩
  intro before after htext
  obtain ⟨t, ht, hword, hsuffix⟩ := exists_suffix_of_references htables htext
  exact ⟨t, ht, hword.readable.whole.lexemes, by simpa [hword.chunksOf_eq] using hsuffix⟩

theorem names_empty : Names c [] "" := by
  obtain ⟨hreadable, hnone⟩ := readable_empty
  exact ⟨hreadable, hnone ▸ covers_nil⟩

theorem Names.of_compile (hp : Parsed e) (he : e.Avoids documentColumn) (h : c.compile e = .ok text) :
    Names c (e.documents c.scope) text := by
  obtain ⟨v, hv, h⟩ := bind_eq_ok h
  exact ((hp.gives hv).names he).of_sqlOf h

theorem names_predicate (hp : Parsed e) (he : e.Avoids documentColumn) {condition : Option String}
    (h : c.predicate e = .ok condition) : Names c (e.documents c.scope) (condition.getD "") := by
  obtain ⟨v, hv, h⟩ := bind_eq_ok h
  have hnames := (hp.gives hv).names he
  cases condition with
  | some sql => exact hnames.of_sqlOf (sqlOf_of_conditionOf h)
  | none =>
    obtain rfl : v = .satisfied := by
      cases v with
      | satisfied => rfl
      | _ => obtain ⟨sql, -, hsome⟩ := map_eq_ok h; cases hsome
    obtain ⟨hreadable, hnone⟩ := readable_empty
    exact ⟨hreadable, hnone ▸ hnames.covers⟩

theorem exists_of_forall₂ {α β : Type} {R : α → β → Prop} {xs : List α} {ys : List β}
    (h : List.Forall₂ R xs ys) :
    (∀ x ∈ xs, ∃ y ∈ ys, R x y) ∧ ∀ y ∈ ys, ∃ x ∈ xs, R x y := by
  induction h with
  | nil => simp
  | cons hxy _ ih =>
    simp only [List.forall_mem_cons, List.exists_mem_cons_iff]
    exact ⟨⟨.inl hxy, fun x hx => .inr (ih.1 x hx)⟩, .inl hxy, fun y hy => .inr (ih.2 y hy)⟩

/-- Texts behind each other name what each of them names. -/
theorem names_commaJoined {α : Type} {f : α → List String} {xs : List α} {texts : List String}
    (h : List.Forall₂ (fun x text => Names c (f x) text) xs texts) :
    Names c (xs.flatMap f) (commaJoined texts) := by
  have hall : (∀ t ∈ texts, Readable t) ∧ Covers c (xs.flatMap f) (texts.flatMap references) := by
    induction h with
    | nil => exact ⟨by simp, covers_nil⟩
    | cons hx _ ih =>
      exact ⟨List.forall_mem_cons.2 ⟨hx.readable, ih.1⟩, hx.covers.append ih.2⟩
  obtain ⟨hreadable, hsum⟩ := readable_commaJoined hall.1
  exact ⟨hreadable, hsum ▸ hall.2⟩

theorem Names.and (h : Names c ts text) (h' : Names c us text') :
    Names c (ts ++ us) ("(" ++ text ++ " AND " ++ text' ++ ")") := by
  obtain ⟨hall, hsum⟩ := Readable.ofParts ("(" ++ text ++ " AND " ++ text' ++ ")")
    [.word "(", .hole text, .word " AND ", .hole text', .word ")"] (by simp [Part.text]) rfl
    (by simp [h.readable, h'.readable])
  have hreferences : references ("(" ++ text ++ " AND " ++ text' ++ ")") =
      references text ++ references text' := by simpa [Part.references] using hsum
  exact ⟨hall, hreferences ▸ h.covers.append h'.covers⟩

theorem names_both {a b : Option String} (ha : Names c ts (a.getD "")) (hb : Names c us (b.getD "")) :
    Names c (ts ++ us) ((Layout.both a b).getD "") := by
  have hboth := ha.covers.append hb.covers
  obtain ⟨-, hnone⟩ := readable_empty
  cases a with
  | none => exact ⟨hb.readable, by simpa [hnone, Layout.both] using hboth⟩
  | some x =>
    cases b with
    | none => exact ⟨ha.readable, by simpa [hnone, Layout.both] using hboth⟩
    | some y => exact ha.and hb

/-- Without its table, the document of the base table is named by the column alone. -/
theorem names_document (hc : c.qualify = false) (hknown : c.scope.tables.contains c.base = true) :
    Names c [c.base] c.document := by
  have hcolumn : IsWordText documentColumn := ⟨by decide, by decide⟩
  have hbare : references documentColumn = [.bare] := by decide
  have hreferences : references documentColumn = [c.reference c.base] := by
    simp [hbare, Context.reference, hc]
  rw [Context.document, hc]
  refine ⟨hcolumn.readable, ?_⟩
  change Covers c [c.base] (references documentColumn)
  rw [hreferences]
  exact ⟨by simpa using ⟨c.base, hknown, rfl⟩, fun _ => rfl⟩

/-! ## Aliases -/

theorem isWordText_natLabel {label : String} (hlabel : ∀ c ∈ label.toList, isWordChar c = true)
    (i : Nat) : IsWordText (label ++ toString i) := by
  have htext : toString i = String.ofList (Nat.toDigits 10 i) := toString_natCast_eq i
  obtain ⟨hdigits, -⟩ := isWordText_digits (Token.isDigit_toDigits i) Nat.toDigits_ne_nil
  rw [← htext] at hdigits
  refine ⟨?_, ?_⟩
  · intro hempty
    have hlength := congrArg String.length hempty
    rw [String.length_append, String.length_empty, Nat.add_eq_zero_iff] at hlength
    exact hdigits.nonempty (String.length_eq_zero_iff.1 hlength.2)
  · intro c hc
    rw [String.toList_append, List.mem_append] at hc
    exact hc.elim (hlabel c) (hdigits.chars c)

/-- A word that can stand behind a text as its alias. -/
def IsAlias (text : String) : Prop := IsWordText text ∧ text ≠ documentColumn

theorem isAlias_natLabel {label : String} (hlabel : ∀ c ∈ label.toList, isWordChar c = true)
    (hhead : label.toList.head? = some '_') (i : Nat) : IsAlias (label ++ toString i) := by
  refine ⟨isWordText_natLabel hlabel i, fun heq => ?_⟩
  have hfirst := congrArg (fun s : String => s.toList.head?) heq
  simp [hhead, documentColumn] at hfirst

theorem isAlias_columnAlias (i : Nat) : IsAlias (columnAlias i) :=
  isAlias_natLabel (by decide) (by decide) i

theorem isAlias_orderAlias (i : Nat) : IsAlias (orderAlias i) :=
  isAlias_natLabel (by decide) (by decide) i

theorem readable_aliased (h : Readable text) {label : String} (hlabel : IsAlias label) :
    Readable (text ++ " AS " ++ label) ∧ references (text ++ " AS " ++ label) = references text := by
  obtain ⟨hall, hsum⟩ := Readable.ofParts (text ++ " AS " ++ label)
    [.hole text, .word " AS ", .hole label] (by simp [Part.text]) rfl (by simp [h, hlabel.1.readable])
  exact ⟨hall, by simpa [Part.references, hlabel.1.no_references hlabel.2] using hsum⟩

theorem forall₂_aliased {α : Type} {f : α → List String} {label : Nat → String}
    (hlabel : ∀ i, IsAlias (label i)) {xs : List α} {texts : List String}
    (h : List.Forall₂ (fun x text => Names c (f x) text) xs texts) (i : Nat) :
    List.Forall₂ (fun x text => Names c (f x) text) xs (aliased label i texts) := by
  induction h generalizing i with
  | nil => exact .nil
  | cons hx _ ih => exact .cons (hx.congr (readable_aliased hx.readable (hlabel i))) (ih (i + 1))

theorem readable_orderTerm {o : OrderTerm} (h : Readable o.text) :
    Readable o.sql ∧ references o.sql = references o.text := by
  unfold OrderTerm.sql
  split
  · obtain ⟨hall, hsum⟩ := Readable.ofParts (o.text ++ " DESC") [.hole o.text, .word " DESC"]
      (by simp [Part.text]) rfl (by simp [h])
    exact ⟨hall, by simpa [Part.references] using hsum⟩
  · exact ⟨h, rfl⟩

/-- An expression of the grammar in which nothing is called like the column of the documents. -/
def Plain (e : Expr) : Prop := Parsed e ∧ e.Avoids documentColumn

theorem names_condition {condition : Option Expr} (h : ∀ e ∈ condition, Plain e)
    {p : Option (Option String)} (hp : condition.mapM c.predicate = .ok p) :
    Names c (condition.toList.flatMap (·.documents c.scope)) (p.join.getD "") := by
  cases condition with
  | none =>
    cases hp
    exact names_empty
  | some e =>
    obtain ⟨sql, hsql, rfl⟩ := map_eq_ok hp
    obtain ⟨hparsed, havoids⟩ := h e rfl
    simpa using names_predicate hparsed havoids hsql

theorem names_projection {α : Type} {f : α → List String} {xs : List α} {s : Select}
    (h : List.Forall₂ (fun x text => Names c (f x) text) xs s.columns) :
    Names c (xs.flatMap f) s.projection := by
  unfold Select.projection
  split
  · exact names_commaJoined h
  · exact names_commaJoined (forall₂_aliased isAlias_columnAlias h 0)

end Names

/-! ## The document of the base table with its table -/

/-- The text is the document of the table with the name of the table, with an alias or without. -/
def IsDocument (base text : String) : Prop :=
  text = base ++ "." ++ documentColumn ∨ text = base ++ "." ++ documentColumn ++ " AS " ++ columnAlias 0

section IsDocument

variable {base text : String} (h : IsDocument base text)

include h

/-- What stands behind the column is free of quotes. -/
theorem IsDocument.exists_rest : ∃ rest : List Char, '\'' ∉ rest ∧ text.toList = base.toList ++ rest := by
  rcases h with rfl | rfl
  · exact ⟨("." ++ documentColumn).toList, by decide, by simp⟩
  · exact ⟨("." ++ documentColumn ++ " AS " ++ columnAlias 0).toList, by decide, by simp⟩

theorem IsDocument.chunks (hbase : (lexemes? base).isSome = true) : Whole text ∧
    ∃ rest, .word documentColumn.toList ∉ rest ∧
      chunksOf text = chunksOf base ++ [.dot] ++ .word documentColumn.toList :: rest := by
  have hcolumn : IsWordText documentColumn := ⟨by decide, by decide⟩
  obtain ⟨hwhole, hchunks⟩ := (whole_of_lexemes hbase).dotted hcolumn
  rcases h with rfl | rfl
  · exact ⟨hwhole, [], by simp, by simpa using hchunks⟩
  · obtain ⟨hlabel, hne⟩ := isAlias_columnAlias 0
    obtain ⟨hall, hparts⟩ := Whole.ofParts (base ++ "." ++ documentColumn ++ " AS " ++ columnAlias 0)
      [.hole (base ++ "." ++ documentColumn), .word " AS ", .hole (columnAlias 0)] (by simp [Part.text])
      rfl (by simp [hwhole, hlabel.readable.whole])
    refine ⟨hall, chunksOf " AS " ++ [.word (columnAlias 0).toList], by decide, ?_⟩
    · simp [hparts, Part.text, hchunks, hlabel.chunksOf_eq]

theorem IsDocument.lexemes (hbase : (lexemes? base).isSome = true) : (lexemes? text).isSome = true :=
  (h.chunks hbase).1.lexemes

theorem IsDocument.qualified {tables : Tables} (hknown : tables.contains base = true)
    (hbase : .word documentColumn.toList ∉ chunksOf base) : Qualified tables text := by
  intro before after htext
  cases hlexemes : lexemes? base with
  | none =>
    -- A string in the name of the table does not end, and so the text has no chunks.
    obtain ⟨rest, hrest, heq⟩ := h.exists_rest
    rw [chunksOf, lexemes?, heq, lexemesFrom?_append_of_none hlexemes hrest] at htext
    simp at htext
  | some ls =>
    obtain ⟨-, rest, hrest, hchunks⟩ := h.chunks (by simp [hlexemes])
    have hfront : .word documentColumn.toList ∉ chunksOf base ++ [.dot] := by
      simp [hbase, Chunk.dot]
    obtain ⟨heq, -, -⟩ := (List.append_cons_inj_of_notMem hfront hrest).1 (hchunks.symm.trans htext)
    exact ⟨base, hknown, by simp [hlexemes], heq ▸ List.suffix_refl _⟩

end IsDocument

end Sql

/-! ## Statements -/

/-- The texts of a statement beside the tables that it reads. -/
def Select.clauses (s : Select) : List String := s.projection :: s.predicate.toList ++ s.ordering

/-- Whether a statement reads the base table alone. -/
def From.isAlone (f : From) : Bool := f.expansion.isNone && f.joins.isEmpty

namespace Layout.Selected

variable {l : Layout} {c : Context} {condition : Option Expr} {m : Option Membership} {union : Bool}
  {s : Select} {x y : Option Expansion} {a : Option ArrayComprehension} {p q : Option (Option String)}
  (hs : l.Selected condition m union s c x y a p q)

include hs

theorem context_base : c.base = l.base := by
  rw [hs.context]
  rfl

theorem tables : c.scope.tables = l.compiler.tables := by
  rw [hs.context]
  rfl

/-- A statement over the base table alone has no membership test and no comprehension. -/
theorem of_isAlone (hnone : s.source.expansion = none) : m = none ∧ a = none := by
  have hexpansion := hs.expansion
  rw [hnone] at hexpansion
  have hx : x = none ∧ y = none := by
    unfold Layout.expansion at hexpansion
    split at hexpansion
    · split at hexpansion <;> cases hexpansion
    · cases hexpansion
    · cases hexpansion
      exact ⟨rfl, rfl⟩
  obtain ⟨rfl, rfl⟩ := hx
  constructor
  · cases m with
    | none => rfl
    | some m =>
      obtain ⟨z, -, hz⟩ := map_eq_ok hs.tested
      cases hz
  · cases a with
    | none => rfl
    | some w =>
      obtain ⟨z, -, hz⟩ := map_eq_ok hs.iterated
      cases hz

theorem qualify : c.qualify = (union || !s.source.isAlone) := by
  rw [hs.context, From.isAlone, hs.joins, Bool.not_and, Option.not_isNone, Bool.or_comm (Option.isSome _),
    ← Bool.or_assoc]
  rfl

theorem qualify_of_joins (h : l.joins.isEmpty = false) : c.qualify = true := by
  simp [hs.qualify, From.isAlone, hs.joins, h]

end Layout.Selected

/-- The base table is known, and nothing that is selected or sorted by is called like the column of the
documents. -/
structure Layout.Plain (l : Layout) : Prop where
  known : l.compiler.tables.contains l.base = true
  what : ∀ e ∈ l.parts.what, Sql.Plain e
  document : l.parts.document = true → l.parts.what = []
  order : ∀ o ∈ l.parts.order, Sql.Plain o.1

/-- The tables whose documents the columns name. -/
def Layout.selected (l : Layout) (a : Option ArrayComprehension) (s : Scope) : List String :=
  if l.parts.document then [l.base] else (l.parts.columns a).flatMap (·.documents s)

theorem Layout.isDocument_projection {l : Layout} {c : Context} {a : Option ArrayComprehension}
    {s : Select} (hbase : c.base = l.base) (hc : c.qualify = true) (hd : l.parts.document = true)
    (hs : l.columns c a = .ok s.columns) : IsDocument l.base s.projection := by
  have hdocument : c.document = l.base ++ "." ++ documentColumn := by
    rw [Context.document, hc, hbase]
    rfl
  unfold Layout.columns at hs
  rw [if_pos hd, hdocument] at hs
  unfold Select.projection
  rw [← Except.ok.inj hs]
  split
  · exact .inl (by simp [commaJoined])
  · exact .inr (by simp [commaJoined, aliased])

namespace Layout.Plain

variable {l : Layout} (h : l.Plain) {c : Context} {a : Option ArrayComprehension}

include h

theorem comprehension {x : ArrayComprehension} (hx : l.comprehension? = .ok (some x)) :
    Sql.Plain x.element ∧ ∀ e ∈ x.condition, Sql.Plain e := by
  rw [Layout.comprehension?] at hx
  split at hx
  · rename_i e he
    obtain ⟨hparsed, havoids⟩ := h.what e (by simp [he])
    have hproper := hparsed.comprehension hx
    obtain ⟨helement, hcondition⟩ := havoids.comprehension hx
    exact ⟨⟨hproper.element, helement⟩, fun e he => ⟨hproper.condition e he, hcondition e he⟩⟩
  · cases hx

theorem columns (hbase : c.base = l.base) (htables : c.scope.tables = l.compiler.tables)
    (hd : l.parts.document = true → c.qualify = false) (ha : l.comprehension? = .ok a) {s : Select}
    (hs : l.columns c a = .ok s.columns) : Names c (l.selected a c.scope) s.projection := by
  unfold Layout.selected
  split
  · rename_i hdocument
    unfold Layout.columns at hs
    rw [if_pos hdocument] at hs
    have hnames : Names c [l.base] c.document :=
      hbase ▸ names_document (hd hdocument) (by rw [hbase, htables]; exact h.known)
    have hcolumns : List.Forall₂ (fun (_ : Unit) text => Names c [l.base] text) [()] s.columns :=
      Except.ok.inj hs ▸ .cons hnames .nil
    simpa using names_projection hcolumns
  · rename_i hdocument
    have hplain : ∀ e ∈ l.parts.columns a, Sql.Plain e := by
      cases a with
      | none => exact h.what
      | some x => simpa [Parts.columns] using (h.comprehension ha).1
    have htexts := compileAll_of_columns (Bool.eq_false_iff.2 hdocument) hs
    rw [← mapM_compile] at htexts
    exact names_projection (((List.forall₂_and_left _ _).2 ⟨hplain, forall₂_of_mapM htexts⟩).imp
      fun e text he => Names.of_compile he.1.1 he.1.2 he.2)

/-- Beside joined tables no key is the name of the column alone: the documents are named with their
tables there. -/
theorem orderTexts (hjoins : l.joins.isEmpty = false → c.qualify = true) {texts : List String}
    (ht : l.orderTexts c = .ok texts) :
    List.Forall₂ (fun o text => Names c (o.1.documents c.scope) text) l.parts.order texts := by
  refine ((List.forall₂_and_left _ _).2 ⟨h.order, forall₂_of_mapM ht⟩).imp ?_
  rintro o text ⟨⟨hparsed, havoids⟩, htext⟩
  obtain ⟨sql, hsql, htext⟩ := bind_eq_ok htext
  have hnames := Names.of_compile hparsed havoids hsql
  cases htext
  rw [if_neg]
  · exact hnames
  rintro ⟨rfl, hjoined⟩
  have hqualify := hjoins (by simpa using hjoined)
  obtain ⟨t, -, heq⟩ := hnames.covers.known .bare (by decide)
  simp [Context.reference, hqualify] at heq

section Selected

variable {condition : Option Expr} (hcondition : ∀ e ∈ condition, Sql.Plain e) {m : Option Membership}
  {union : Bool} {s : Select} {x y : Option Expansion} {p q : Option (Option String)}
  (hs : l.Selected condition m union s c x y a p q)

include hcondition hs

theorem predicate : Names c (condition.toList.flatMap (·.documents c.scope) ++
    (a.bind (·.condition)).toList.flatMap (·.documents c.scope)) (s.predicate.getD "") := by
  have hfilter : ∀ e ∈ a.bind (·.condition), Sql.Plain e := by
    intro e he
    obtain ⟨x, rfl, he⟩ := Option.bind_eq_some_iff.1 he
    exact (h.comprehension hs.comprehension).2 e he
  rw [hs.predicate]
  exact names_both (names_condition hcondition hs.own) (names_condition hfilter hs.filter)

/-- Each text of a statement names documents, or is the one document of the base table. -/
theorem clauses : ∀ text ∈ s.clauses,
    (∃ ts, Names c ts text) ∨ l.parts.document = true ∧ IsDocument l.base text := by
  intro text htext
  rw [Select.clauses, List.mem_append, List.mem_cons] at htext
  rcases htext with (rfl | htext) | htext
  · by_cases hd : l.parts.document = true ∧ c.qualify = true
    · exact .inr ⟨hd.1, l.isDocument_projection hs.context_base hd.2 hd.1 hs.columns⟩
    · refine .inl ⟨_, h.columns hs.context_base hs.tables (fun hdocument => ?_) hs.comprehension hs.columns⟩
      simpa [hdocument] using hd
  · have hpredicate := h.predicate hcondition hs
    rw [Option.mem_toList.1 htext] at hpredicate
    exact .inl ⟨_, hpredicate⟩
  · rcases hs.ordering with hnone | hordering
    · rw [hnone] at htext
      cases htext
    · obtain ⟨o, -, hnames⟩ :=
        (exists_of_forall₂ (h.orderTexts hs.qualify_of_joins hordering)).2 text htext
      exact .inl ⟨_, hnames⟩

end Selected

end Layout.Plain

/-! ## Queries -/

/-- The texts of a query beside the tables that it reads. -/
def Query.clauses (q : Query) : List String :=
  q.branches.flatMap Select.clauses ++ q.orderText?.toList

/-- Whether a query is a union or reads anything beside the base table. -/
def Query.isComposed (q : Query) : Bool := q.isUnion || q.branches.any (!·.source.isAlone)

/-- The expressions of a request. -/
def Parts.exprs (p : Parts) : List Expr := p.what ++ p.condition.toList ++ p.order.map (·.1)

/-- The references that an expression makes where nothing is read beside the base table: the document of
that table is named alone, those of other tables with their tables. -/
def Expr.references (s : Scope) (base : String) (e : Expr) : List Reference :=
  (e.documents s).map fun t => if t = base then .bare else .of t

section Queries

variable {c : Context} {l : Layout}

theorem reference_context (l : Layout) :
    l.context.reference = fun t => if t = l.base then .bare else .of t := by
  funext t
  by_cases ht : t = l.base <;> simp [Context.reference, Layout.context, Context.of, ht]

/-- The references in a text over the base table alone. -/
theorem Sql.Names.references_eq {α : Type} {f : α → Expr} {xs : List α} {text : String}
    (h : Names l.context (xs.flatMap fun x => (f x).documents l.context.scope) text) :
    references text = xs.flatMap fun x => (f x).references l.context.scope l.base := by
  rw [h.covers.complete rfl, List.map_flatMap, reference_context]
  rfl

theorem references_selected {text : String}
    (h : Names l.context (l.selected none l.context.scope) text) :
    references text = if l.parts.document then [.bare]
      else l.parts.what.flatMap (Expr.references l.context.scope l.base) := by
  unfold Layout.selected at h
  split
  · rename_i hd
    rw [if_pos hd] at h
    rw [h.covers.complete rfl, reference_context]
    simp
  · rename_i hd
    rw [if_neg hd] at h
    exact h.references_eq

theorem flatMap_references (o : Option String) : o.toList.flatMap references = references (o.getD "") := by
  cases o with
  | none => exact readable_empty.2.symm
  | some text => simp

theorem orderText_getD (q : Query) : q.orderText?.getD "" = commaJoined (q.order.map OrderTerm.sql) := by
  unfold Query.orderText?
  split
  · rename_i hempty
    rw [List.isEmpty_iff.1 hempty]
    rfl
  · rfl

theorem forall₂_terms {order : List (Expr × Bool)} {texts : List String}
    (h : List.Forall₂ (fun o text => Names c (o.1.documents c.scope) text) order texts) :
    List.Forall₂ (fun o text => Names c (o.1.documents c.scope) text) order
      (((texts.zip (order.map (·.2))).map fun t => (⟨t.1, t.2⟩ : OrderTerm)).map OrderTerm.sql) := by
  induction h with
  | nil => exact .nil
  | @cons o text order texts ho _ ih =>
    exact .cons (ho.congr (readable_orderTerm (o := ⟨text, o.2⟩) ho.readable)) ih

theorem readable_unionOrder : ∀ text ∈ l.unionOrder.map OrderTerm.sql,
    Sql.Readable text ∧ references text = [] := by
  rw [List.forall_mem_map]
  intro o ho
  obtain ⟨d, -, rfl⟩ := List.mem_map.1 ho
  obtain ⟨hword, hne⟩ := isAlias_orderAlias d.2
  obtain ⟨hreadable, hreferences⟩ := readable_orderTerm (o := ⟨orderAlias d.2, d.1⟩) hword.readable
  exact ⟨hreadable, hreferences.trans (hword.no_references hne)⟩

theorem ordering_of_select {condition : Option Expr} {m : Option Membership} {s : Select}
    (h : l.select condition m false = .ok (s, c)) : s.ordering = [] := by
  obtain ⟨tested, -, h⟩ := bind_eq_ok h
  obtain ⟨comprehension, -, h⟩ := bind_eq_ok h
  obtain ⟨iterated, -, h⟩ := bind_eq_ok h
  obtain ⟨expanded, -, h⟩ := bind_eq_ok h
  obtain ⟨columns, -, h⟩ := bind_eq_ok h
  obtain ⟨ordering, hordering, h⟩ := bind_eq_ok h
  obtain ⟨own, -, h⟩ := bind_eq_ok h
  obtain ⟨filter, -, h⟩ := bind_eq_ok h
  cases h
  exact (Except.ok.inj hordering).symm

/-- Where nothing is joined, the whole condition of a request is tested. -/
theorem condition_of_joins (hcondition : ∀ e ∈ l.parts.condition, Parsed e) (hjoins : l.joins = .empty) :
    l.condition = l.parts.condition := by
  rw [Layout.condition, hjoins]
  cases hc : l.parts.condition with
  | none => rfl
  | some e => exact withoutJoins_nil (hcondition e hc)

/-- The terms of a union are aliases. -/
theorem names_unionOrder (first second : Select) (columns : List String) :
    Names c [] ((Query.union first second columns l.unionOrder).orderText?.getD "") := by
  rw [orderText_getD]
  obtain ⟨hall, hsum⟩ := readable_commaJoined fun t ht => (readable_unionOrder (l := l) t ht).1
  have hnone : references (commaJoined (l.unionOrder.map OrderTerm.sql)) = [] :=
    hsum.trans (List.flatMap_eq_nil_iff.2 fun t ht => (readable_unionOrder t ht).2)
  exact ⟨hall, hnone ▸ covers_nil⟩

end Queries

namespace Layout.Plain

variable {l : Layout} (h : l.Plain) {q : Query}

include h

/-- The terms of a single statement. -/
theorem names_order {c : Context} (hjoins : l.joins.isEmpty = false → c.qualify = true)
    {texts : List String} (htexts : l.orderTexts c = .ok texts) (s : Select) :
    Names c (l.parts.order.flatMap fun o => o.1.documents c.scope)
      ((Query.single s ((texts.zip l.directions).map fun t => ⟨t.1, t.2⟩)).orderText?.getD "") := by
  rw [orderText_getD]
  exact names_commaJoined (forall₂_terms (h.orderTexts hjoins htexts))

/-- Each text of a query names documents in a context that names them with their tables where that is
needed, or is the one document of the base table. -/
theorem queries (hcondition : ∀ e ∈ l.condition, Sql.Plain e) (hq : l.Queries q) :
    ∀ text ∈ q.clauses,
      (∃ c ts, (q.isComposed = true → c.qualify = true) ∧ c.scope.tables = l.compiler.tables ∧
        Names c ts text) ∨ l.parts.document = true ∧ IsDocument l.base text := by
  intro text htext
  rw [Query.clauses, List.mem_append, List.mem_flatMap, Option.mem_toList] at htext
  cases hq with
  | @union e without within m _ he _ hsplit hq =>
    obtain ⟨first, second, c, d, hfirst, hsecond, rfl⟩ := Layout.union_eq_ok hq
    obtain ⟨_, _, _, _, _, hfirst⟩ := Layout.selected_of_select hfirst
    obtain ⟨_, _, _, _, _, hsecond⟩ := Layout.selected_of_select hsecond
    obtain ⟨hparsed, havoids⟩ := hcondition e he
    have hwithout : ∀ x ∈ some without, Sql.Plain x := by
      rintro x ⟨⟩
      exact ⟨(hparsed.split hsplit).1, (havoids.split hsplit).1⟩
    have hwithin : ∀ x ∈ some within, Sql.Plain x := by
      rintro x ⟨⟩
      exact ⟨(hparsed.split hsplit).2, (havoids.split hsplit).2⟩
    rcases htext with ⟨s, hs, htext⟩ | htext
    · rw [Query.branches, List.mem_cons, List.mem_singleton] at hs
      rcases hs with rfl | rfl
      · refine (h.clauses hwithout hfirst text htext).imp_left ?_
        rintro ⟨ts, hnames⟩
        exact ⟨c, ts, fun _ => hfirst.qualify, hfirst.tables, hnames⟩
      · refine (h.clauses hwithin hsecond text htext).imp_left ?_
        rintro ⟨ts, hnames⟩
        exact ⟨d, ts, fun _ => hsecond.qualify, hsecond.tables, hnames⟩
    · have hnames := names_unionOrder (c := c) (l := l) first second l.unionColumns
      rw [htext] at hnames
      exact .inl ⟨c, _, fun _ => hfirst.qualify, hfirst.tables, hnames⟩
  | single _ hq =>
    obtain ⟨s, c, texts, hs, htexts, rfl⟩ := Layout.single_eq_ok hq
    obtain ⟨_, _, _, _, _, hs⟩ := Layout.selected_of_select hs
    have hqualify : (Query.single s ((texts.zip l.directions).map fun t => ⟨t.1, t.2⟩)).isComposed =
        c.qualify := by
      rw [hs.qualify]
      simp [Query.isComposed, Query.isUnion, Query.branches]
    rcases htext with ⟨s', hs', htext⟩ | htext
    · cases List.mem_singleton.1 hs'
      refine (h.clauses hcondition hs text htext).imp_left ?_
      rintro ⟨ts, hnames⟩
      exact ⟨c, ts, fun hcomposed => hqualify ▸ hcomposed, hs.tables, hnames⟩
    · have hnames := h.names_order hs.qualify_of_joins htexts s
      rw [htext] at hnames
      exact .inl ⟨c, _, fun hcomposed => hqualify ▸ hcomposed, hs.tables, hnames⟩

/-- Where the whole condition is tested and no comprehension is selected, all expressions of a request
are evaluated. -/
theorem usable {c : Context} {m : Option Membership} {union : Bool} {s : Select}
    {x y : Option Expansion} {p r : Option (Option String)}
    (hs : l.Selected l.parts.condition m union s c x y none p r) {texts : List String}
    (htexts : l.orderTexts c = .ok texts) : ∀ e ∈ l.parts.exprs, Usable c e := by
  simp only [Parts.exprs, List.mem_append, or_imp, forall_and, Option.mem_toList, List.forall_mem_map]
  refine ⟨⟨?_, fun e he => ?_⟩, fun o ho => ?_⟩
  · cases hd : l.parts.document with
    | true => simp [h.document hd]
    | false => exact usable_of_compileAll (compileAll_of_columns hd hs.columns)
  · have hown := hs.own
    rw [Option.mem_def.1 he] at hown
    obtain ⟨sql, hsql, -⟩ := map_eq_ok hown
    exact usable_of_predicate hsql
  · obtain ⟨text, -, htext⟩ := (exists_of_forall₂ (forall₂_of_mapM htexts)).1 o ho
    obtain ⟨sql, hsql, -⟩ := bind_eq_ok htext
    exact usable_of_compile hsql

/-- What the texts of a statement over the base table alone name. -/
theorem alone (hcondition : ∀ e ∈ l.parts.condition, Sql.Plain e) (hq : l.Queries q)
    (halone : q.isComposed = false) : ∃ s order, q = .single s order ∧ s.ordering = [] ∧
      (∀ e ∈ l.parts.exprs, Usable l.context e) ∧
      references s.projection = (if l.parts.document then [.bare]
        else l.parts.what.flatMap (Expr.references l.context.scope l.base)) ∧
      s.predicate.toList.flatMap references =
        l.parts.condition.toList.flatMap (Expr.references l.context.scope l.base) ∧
      q.orderText?.toList.flatMap references =
        l.parts.order.flatMap fun o => o.1.references l.context.scope l.base := by
  cases hq with
  | union _ _ _ hq =>
    obtain ⟨first, second, c, d, -, -, rfl⟩ := Layout.union_eq_ok hq
    cases halone
  | single _ hq =>
    obtain ⟨s, c, texts, hs, htexts, rfl⟩ := Layout.single_eq_ok hq
    have hordering := ordering_of_select hs
    obtain ⟨x, y, a, p, r, hs⟩ := Layout.selected_of_select hs
    obtain ⟨hexpansion, hjoins⟩ : s.source.expansion = none ∧ l.joins = .empty := by
      rw [← hs.joins, ← OrderedMap.isEmpty_iff]
      simpa [Query.isComposed, Query.isUnion, Query.branches, From.isAlone] using halone
    obtain ⟨hm, rfl⟩ := hs.of_isAlone hexpansion
    have hc : c = l.context := by
      have htarget : l.target? none = none := target_of_comprehension hs.comprehension
      rw [hs.context, hexpansion, Layout.inner, hm, htarget, hjoins]
      rfl
    subst hc
    rw [condition_of_joins (fun e he => (hcondition e he).1) hjoins] at hs
    have hprojection := h.columns rfl rfl (fun _ => rfl) hs.comprehension hs.columns
    have hpredicate := h.predicate hcondition hs
    rw [Option.bind_none, Option.toList_none, List.flatMap_nil, List.append_nil] at hpredicate
    refine ⟨s, _, rfl, hordering, h.usable hs htexts, references_selected hprojection, ?_, ?_⟩
    · rw [flatMap_references]
      exact hpredicate.references_eq
    · rw [flatMap_references]
      exact (h.names_order hs.qualify_of_joins htexts s).references_eq

end Layout.Plain

/-- In a union, and where anything is read beside the base table, a known table stands in front of the
column of the documents each time it is named. Otherwise the only statement names the document of the
base table by the column alone and that of another table with the table: every access becomes a path from
its document so named, and the references in the texts are those that the expressions make, in order.
No expression uses the word for the column itself. Nor does the name of the base table hold it, where the
whole document is selected. -/
theorem references_compile {c : Compiler} {r : Request} {parts : Parts} {q : Query}
    (hparts : r.parts = .ok parts) (havoids : ∀ e ∈ parts.exprs, e.Avoids documentColumn)
    (hbase : parts.document = true → .word documentColumn.toList ∉ chunksOf r.table)
    (hq : c.compile r = .ok q) :
    ((parts.document = true → (lexemes? r.table).isSome = true) →
      ∀ text ∈ q.clauses, (lexemes? text).isSome = true) ∧
    (q.isComposed = true → ∀ text ∈ q.clauses, Qualified c.tables text) ∧
    (q.isComposed = false → ∃ s order, q = .single s order ∧ s.ordering = [] ∧
      (∀ e ∈ parts.exprs, ∀ vs x t, Visits (.of r.table c.env c.tables) e vs x → x.root? = some t →
        ((Context.of r.table c.env c.tables).under vs).scope.resolve t = .table →
          ((Context.of r.table c.env c.tables).under vs).compile x =
            .ok (FieldPath.mk (.table t (t != r.table)) x.steps).field) ∧
      references s.projection = (if parts.document then [.bare]
        else parts.what.flatMap (Expr.references (.of c.env c.tables) r.table)) ∧
      s.predicate.toList.flatMap references =
        parts.condition.toList.flatMap (Expr.references (.of c.env c.tables) r.table) ∧
      q.orderText?.toList.flatMap references =
        parts.order.flatMap fun o => o.1.references (.of c.env c.tables) r.table) := by
  obtain ⟨hknown, parts', hparts', hq⟩ := queries_of_compile hq
  cases hparts.symm.trans hparts'
  obtain ⟨hwhat, hcondition, horder⟩ := (Request.reads_of_parts hparts).parsed
  simp only [Parts.exprs, List.mem_append, or_imp, forall_and, Option.mem_toList,
    List.forall_mem_map] at havoids
  have hplain : (c.layout r.table parts).Plain :=
    ⟨hknown, fun e he => ⟨hwhat e he, havoids.1.1 e he⟩, what_of_document hparts,
      fun o ho => ⟨horder o ho, havoids.2 o ho⟩⟩
  have hwhole : ∀ e ∈ parts.condition, Sql.Plain e := fun e he => ⟨hcondition e he, havoids.1.2 e he⟩
  have htested : ∀ e ∈ (c.layout r.table parts).condition, Sql.Plain e := by
    intro e he
    obtain ⟨whole, hmem, he⟩ := Option.bind_eq_some_iff.1 he
    exact ⟨(hwhole whole hmem).1.withoutJoins he, (hwhole whole hmem).2.withoutJoins he⟩
  have hclauses := hplain.queries htested hq
  refine ⟨fun hlexemes text htext => ?_, fun hcomposed text htext => ?_, fun halone => ?_⟩
  · rcases hclauses text htext with ⟨_, _, -, -, hnames⟩ | ⟨hd, hdocument⟩
    · exact hnames.readable.whole.lexemes
    · exact hdocument.lexemes (hlexemes hd)
  · rcases hclauses text htext with ⟨d, _, hqualify, htables, hnames⟩ | ⟨hd, hdocument⟩
    · exact htables ▸ hnames.qualified (hqualify hcomposed)
    · exact hdocument.qualified hknown (hbase hd)
  · obtain ⟨s, order, heq, hordering, husable, htexts⟩ := hplain.alone hwhole hq halone
    refine ⟨s, order, heq, hordering, fun e he vs x t hx hroot hresolve => ?_, htexts⟩
    exact compile_of_table (husable e he) hx hroot hresolve

/-- A statement over one table that names another table's document, and one that expands an array. -/
theorem references_compile_two :
    (∃ (s : Select) (order : List OrderTerm),
      Compiler.compile ⟨.empty, ⟨.ofList ["p", "q"]⟩⟩ ⟨"p", .many [.text "p.a", .text "q.b"], none, []⟩ =
        .ok (.single s order) ∧
      references s.projection = [.bare, .of "q"] ∧
      (Context.of "p" .empty ⟨.ofList ["p", "q"]⟩).compile (.attr (.name "q") "b") =
        .ok (FieldPath.mk (.table "q" true) [.field "b"]).field) ∧
    ∃ q : Query,
      Compiler.compile ⟨.empty, ⟨.ofList ["p", "q"]⟩⟩
        ⟨"p", .document, some (.text "v in p.xs and q.b == v.c"), [⟨.text "p.a", true⟩]⟩ = .ok q ∧
      q.isComposed = true ∧ ∀ text ∈ q.clauses, Qualified ⟨.ofList ["p", "q"]⟩ text := by
  constructor
  · have hcomposed : Query.isComposed <$> Compiler.compile ⟨.empty, ⟨.ofList ["p", "q"]⟩⟩
        ⟨"p", .many [.text "p.a", .text "q.b"], none, []⟩ = .ok false := by cbv
    have hparts : Request.parts ⟨"p", .many [.text "p.a", .text "q.b"], none, []⟩ =
        .ok ⟨[.attr (.name "p") "a", .attr (.name "q") "b"], false, none, []⟩ := by cbv
    obtain ⟨q, hq, hcomposed⟩ := map_eq_ok hcomposed
    obtain ⟨-, -, halone⟩ := references_compile hparts (by decide) (by simp) hq
    obtain ⟨s, order, rfl, -, haccesses, hprojection, -⟩ := halone hcomposed
    refine ⟨s, order, hq, hprojection, ?_⟩
    exact haccesses (.attr (.name "q") "b") (by simp [Parts.exprs]) [] _ "q" (.self _ _) rfl rfl
  · have hcomposed : Query.isComposed <$> Compiler.compile ⟨.empty, ⟨.ofList ["p", "q"]⟩⟩
        ⟨"p", .document, some (.text "v in p.xs and q.b == v.c"), [⟨.text "p.a", true⟩]⟩ =
          .ok true := by cbv
    have hparts : Request.parts
        ⟨"p", .document, some (.text "v in p.xs and q.b == v.c"), [⟨.text "p.a", true⟩]⟩ =
        .ok ⟨[], true, some (.boolean .and [.compare (.name "v") [.elemOf] [.attr (.name "p") "xs"],
          .compare (.attr (.name "q") "b") [.eq] [.attr (.name "v") "c"]]),
          [(.attr (.name "p") "a", true)]⟩ := by cbv
    obtain ⟨q, hq, hcomposed⟩ := map_eq_ok hcomposed
    obtain ⟨-, hqualified, -⟩ := references_compile hparts (by decide) (fun _ => by decide) hq
    exact ⟨q, hq, hcomposed, hqualified hcomposed⟩

/-- Where the name of the base table holds the word for the column, that word stands in the projection
without a table in front of it. -/
theorem projection_not_qualified : ∃ (q : Query) (s : Select),
    Compiler.compile ⟨.empty, ⟨.ofList ["p", "q", "x json_data"]⟩⟩
      ⟨"x json_data", .document, some (.text "p.ref == q.ref"), []⟩ = .ok q ∧
    q.isComposed = true ∧ s ∈ q.branches ∧ s.projection = "x json_data.json_data" ∧
    ∀ tables, ¬ Qualified tables s.projection := by
  have hcompile : (fun q : Query => q.branches.map fun s =>
      (s.columns, s.ordering, s.source.joins.isEmpty)) <$>
        Compiler.compile ⟨.empty, ⟨.ofList ["p", "q", "x json_data"]⟩⟩
          ⟨"x json_data", .document, some (.text "p.ref == q.ref"), []⟩ =
        .ok [(["x json_data.json_data"], [], false)] := by cbv
  obtain ⟨q, hq, hread⟩ := map_eq_ok hcompile
  obtain ⟨s, hs, hselected⟩ := List.map_eq_singleton_iff.1 hread
  obtain ⟨hcolumns, hselected⟩ := Prod.mk.inj hselected
  obtain ⟨hordering, hjoins⟩ := Prod.mk.inj hselected
  have hcomposed : q.isComposed = true := by simp [Query.isComposed, From.isAlone, hs, hjoins]
  have hprojection : s.projection = "x json_data.json_data" := by
    simp [Select.projection, hcolumns, hordering, commaJoined]
  refine ⟨q, s, hq, hcomposed, by simp [hs], hprojection, fun tables hqualified => ?_⟩
  have hchunks : chunksOf s.projection = [.word ['x'], .mark ' '] ++
      .word documentColumn.toList :: [.dot, .word documentColumn.toList] := by
    rw [hprojection]
    decide
  obtain ⟨t, -, -, front, hfront⟩ := hqualified _ _ hchunks
  have hlast := congrArg List.getLast? hfront
  simp [Chunk.dot] at hlast

end DocQuery
