import DocQuery.Proofs.Growth
import DocQuery.Proofs.Statements

/-! # What the two statements of a union share

Both statements of a union have the columns and the sort keys of the request, but each reads them in
its own context: only the second one knows the variable of the membership test, and only there the
test is guaranteed.

* `Membership.Separates`: an expression says something else in the one statement than in the other.
* `shared_compile`: the statements share the projection, and the sort keys, exactly when none of
  their expressions does.
-/

set_option autoImplicit false

namespace DocQuery

open Sql

/-! ## Texts that are documents -/

namespace Sql

variable {a b : Context} {e : Expr} {v w : Value}

theorem text_ne_document (mark : Char) (hmark : mark ∉ documentColumn.toList) {text : String}
    (h : mark ∈ text.toList) : Value.text documentColumn ≠ .text text := by
  intro heq
  rw [Value.text.inj heq] at hmark
  exact hmark h

/-- No operation is written as the name of a column alone. -/
theorem Gives.of_document (h : Gives a e (.text documentColumn)) :
    (∃ l, e = .literal l) ∨ (∃ id, e = .name id) ∨ ∃ op operands, e = .boolean op operands := by
  generalize hv : Value.text documentColumn = v at h
  have hopen : '(' ∉ documentColumn.toList := by decide
  cases h with
  | literal c => exact .inl ⟨_, rfl⟩
  | name c => exact .inr (.inl ⟨_, rfl⟩)
  | connected => exact .inr (.inr ⟨_, _, rfl⟩)
  | @attr c value label u v _ _ h =>
    subst hv
    cases u with
    | text sql =>
      exact absurd (Except.ok.inj h).symm (text_ne_document '.' (by decide) (by simp))
    | bound value =>
      simp only [Context.attributeOf] at h
      split at h <;> cases h
    | _ => cases h
  | @binary c left right op u v l r sql _ _ _ _ h =>
    refine absurd hv (text_ne_document '(' hopen ?_)
    cases op <;> cases h <;> simp
  | number => exact absurd hv (text_ne_document '-' (by decide) (by simp))
  | noneOf => exact absurd hv (text_ne_document ' ' (by decide) (by simp))
  | conditional => exact absurd hv (text_ne_document ' ' (by decide) (by simp))
  | signed => exact absurd hv (text_ne_document '(' hopen (by simp))
  | listed =>
    rw [Context.listTest] at hv
    exact absurd hv (text_ne_document '(' hopen (by simp))
  | pattern =>
    rw [Context.patternTest] at hv
    exact absurd hv (text_ne_document '(' hopen (by simp))
  | method =>
    rw [Context.patternTest] at hv
    exact absurd hv (text_ne_document '(' hopen (by simp))
  | length =>
    unfold FieldPath.length at hv
    exact absurd hv (text_ne_document '(' hopen (by simp))
  | quantified =>
    unfold existence at hv
    exact absurd hv (text_ne_document '(' hopen (by simp))
  | chain links hne =>
    refine absurd hv (text_ne_document '(' hopen ?_)
    obtain _ | ⟨l, _ | ⟨l', links⟩⟩ := links
    · exact absurd rfl hne
    · simp [linkTexts, chained]
    · simp [linkTexts, chained]
  | guaranteed => cases hv
  | absorbed => cases hv
  | item => cases hv
  | list => cases hv
  | tuple => cases hv

theorem text_connected (op : BoolOp) {texts : List String} (h : 2 ≤ texts.length) :
    ∃ sql, connected op texts = .text ("(" ++ sql ++ ")") := by
  rcases texts with _ | ⟨x, _ | ⟨y, rest⟩⟩
  · simp at h
  · simp at h
  · exact ⟨_, rfl⟩

/-- Where a text is the name of the column in the one context and another text in the other, the
other one does not end like a document. -/
theorem Gives.ne_qualified (hn : Near a b) (hv : Gives a e v) (hw : Gives b e w)
    (hM : Mentions a b e) (hs : a.sqlOf e v = .ok documentColumn) {t : String}
    (ht : b.sqlOf e w = .ok t) (base : String) : t ≠ base ++ "." ++ documentColumn := by
  have hlast : ∀ (s : String) (x : Char), x ≠ 'a' → t = s ++ String.singleton x →
      t ≠ base ++ "." ++ documentColumn := by
    rintro s x hx rfl h
    have hends := congrArg (fun s : String => s.toList.getLast?) h
    simp [documentColumn] at hends
    exact hx hends
  -- Only texts and elements differ between the contexts in such a way.
  obtain rfl : v = .text documentColumn := by
    cases hv.grown hn hw with
    | same hno => exact absurd hM hno
    | text => rw [Except.ok.inj hs]
    | element => rw [Except.ok.inj hs]
    | sequence =>
      have hsql := congrArg Value.text (Except.ok.inj hs)
      exact absurd hsql.symm (text_ne_document '(' (by decide) (by simp))
    | satisfied =>
      have hsql := Except.ok.inj hs
      exact absurd hsql (by decide)
  rcases hv.of_document with ⟨l, rfl⟩ | ⟨id, rfl⟩ | ⟨op, operands, rfl⟩
  · exact absurd hM (not_mentions_literal l)
  · cases hw with
    | name =>
      have hne : a.scope.resolve id ≠ b.scope.resolve id := by
        rcases mentions_iff.1 hM with (hg | ⟨id', ⟨⟩, hne⟩) | ⟨p, hp, -⟩
        · rw [isGuaranteed_eq_false rfl] at hg
          cases hg
        · exact hne
        · cases hp
      have helement := ((hn.resolve id).resolve_left hne).2
      simp only [Context.named, helement] at ht
      refine hlast (id ++ ".valu") 'e' (by decide) ?_
      rw [← Except.ok.inj ht, String.append_assoc]
      rfl
  · generalize hvalue : Value.text documentColumn = v at hv
    cases hv with
    | connected ps hps htwo hor hvalues hsql =>
      cases hw with
      | connected qs hqs htwo' hor' hvalues' hsql' =>
        have hpaired := paired_of_gives hn (hps.trans hqs.symm)
          (fun p hp => (hvalues p hp).grown hn) hsql hvalues' hsql'
        have hlength : qs.length = (qs.map (·.sql)).length := by simp
        obtain ⟨sql, heq⟩ := text_connected op (hlength ▸ htwo')
        rw [conditionTexts_of_paired hpaired, heq] at ht
        exact hlast ("(" ++ sql) ')' (by decide) (Except.ok.inj ht).symm
      | absorbed he h =>
        obtain ⟨p, hp, rfl⟩ := List.mem_map.1 (hps ▸ he)
        cases ((hvalues p hp).grown hn h).isSatisfied
    | absorbed => cases hvalue

end Sql

/-! ## Columns and sort keys -/

section Columns

variable {a b : Context} {l : Layout}

theorem length_aliased (label : Nat → String) (i : Nat) (ss : List String) :
    (aliased label i ss).length = ss.length := by
  induction ss generalizing i with
  | nil => rfl
  | cons s ss ih => simp [aliased, ih]

/-- Aliases make texts longer by the same number of characters. -/
theorem total_aliased (label : Nat → String) (i : Nat) {ss ts : List String}
    (h : ss.length = ts.length) :
    total (aliased label i ss) + total ts = total (aliased label i ts) + total ss := by
  induction ss generalizing i ts with
  | nil =>
    obtain rfl := List.length_eq_zero_iff.1 h.symm
    rfl
  | cons s ss ih =>
    cases ts with
    | nil => cases h
    | cons t ts =>
      have hrest := ih (i + 1) (Nat.succ.inj h)
      simp only [aliased, total, List.map_cons, List.sum_cons, String.length_append] at hrest ⊢
      omega

theorem projection_eq_iff {ps qs : List Piece} (h : List.Forall₂ (Paired a b) ps qs) {s t : Select}
    (hs : s.columns = ps.map (·.sql)) (ht : t.columns = qs.map (·.sql))
    (hordering : s.ordering.isEmpty = t.ordering.isEmpty) :
    s.projection = t.projection ↔ ¬ ∃ p ∈ ps, Mentions a b p.expr := by
  rw [Select.projection, Select.projection, hs, ht, hordering]
  split
  · exact (longer_commaJoined h).eq_iff
  · refine ⟨fun heq hM => ?_, fun hM => by rw [eq_of_paired h hM]⟩
    have hlength : (ps.map (·.sql)).length = (qs.map (·.sql)).length := by simp [h.length_eq]
    have htotal := total_aliased columnAlias 0 hlength
    have hlt := (total_of_paired h).2 hM
    have heq := congrArg String.length heq
    rw [length_commaJoined, length_commaJoined, length_aliased, length_aliased, hlength] at heq
    omega

def Parts.columns (p : Parts) : Option ArrayComprehension → List Expr
  | some x => [x.element]
  | none => p.what

theorem mapM_compile (c : Context) (es : List Expr) : es.mapM c.compile = c.compileAll es := by
  induction es with
  | nil => rfl
  | cons e es ih =>
    rw [List.mapM_cons, ih, Context.compileAll, Context.compile, bind_assoc]

theorem compileAll_of_columns {x : Option ArrayComprehension} {texts : List String}
    (hdocument : l.parts.document = false) (h : l.columns a x = .ok texts) :
    a.compileAll (l.parts.columns x) = .ok texts := by
  rw [← mapM_compile]
  unfold Layout.columns at h
  rw [if_neg (by simp [hdocument])] at h
  cases x with
  | none => exact h
  | some x =>
    obtain ⟨t, ht, h⟩ := bind_eq_ok h
    cases h
    rw [Parts.columns, List.mapM_cons, ht]
    rfl

theorem columns_eq_iff (hn : Near a b) {x : Option ArrayComprehension}
    (hparsed : ∀ e ∈ l.parts.columns x, Parsed e)
    (hdocument : l.parts.document = true → l.parts.columns x = []) {s t : Select}
    (hs : l.columns a x = .ok s.columns) (ht : l.columns b x = .ok t.columns)
    (hordering : s.ordering.isEmpty = t.ordering.isEmpty) :
    s.projection = t.projection ↔ ∀ e ∈ l.parts.columns x, ¬ Mentions a b e := by
  cases hd : l.parts.document with
  | true =>
    rw [hdocument hd]
    unfold Layout.columns at hs ht
    rw [if_pos hd] at hs ht
    have hcolumns : s.columns = t.columns := by
      rw [← Except.ok.inj hs, ← Except.ok.inj ht, Context.document, Context.document, hn.base,
        hn.qualify]
    simp [Select.projection, hcolumns, hordering]
  | false =>
    obtain ⟨ps, hps, hpsql, hpvalues, hptexts⟩ :=
      exists_pieces_of_compileAll (compileAll_of_columns hd hs)
    obtain ⟨qs, hqs, hqsql, hqvalues, hqtexts⟩ :=
      exists_pieces_of_compileAll (compileAll_of_columns hd ht)
    rw [← hps] at hparsed ⊢
    rw [List.forall_mem_map] at hparsed
    have hpaired := paired_of_gives hn (hps.trans hqs.symm)
      (fun p hp => ((hparsed p hp).gives (hpvalues p hp)).grown hn) hptexts
      (fun q hq => ?_) hqtexts
    · rw [projection_eq_iff hpaired hpsql.symm hqsql.symm hordering]
      simp
    · obtain ⟨p, hp, hpq⟩ : ∃ p ∈ ps, p.expr = q.expr := by
        have hmem := List.mem_map_of_mem (f := Piece.expr) hq
        rw [hqs, ← hps] at hmem
        simpa using hmem
      exact (hpq ▸ hparsed p hp).gives (hqvalues q hq)

theorem eq_iff_of_forall₂ {α β : Type} {F G : α → β → Prop} {M : α → Prop} {xs : List α}
    {ys zs : List β} (hys : List.Forall₂ F xs ys) (hzs : List.Forall₂ G xs zs)
    (h : ∀ x ∈ xs, ∀ y z, F x y → G x z → (y = z ↔ ¬ M x)) : ys = zs ↔ ∀ x ∈ xs, ¬ M x := by
  induction hys generalizing zs with
  | nil =>
    cases hzs
    simp
  | @cons x y xs ys hxy _ ih =>
    obtain ⟨hhead, htail⟩ := List.forall_mem_cons.1 h
    cases hzs with
    | @cons _ z _ zs hxz hzs =>
      rw [List.cons.injEq, List.forall_mem_cons, hhead y z hxy hxz, ih hzs htail]

/-- The name of the column becomes that of the base table's document, but then it is no other text of
the same expression. -/
theorem sortText_eq_iff (hn : Near a b) {e : Expr} (he : Parsed e) {base s t : String} {joined : Bool}
    (hs : a.compile e = .ok s) (ht : b.compile e = .ok t) :
    ((if s = documentColumn ∧ joined then base ++ "." ++ documentColumn else s) =
      if t = documentColumn ∧ joined then base ++ "." ++ documentColumn else t) ↔
    ¬ Mentions a b e := by
  have hlonger := longer_of_compile hn he hs ht
  refine ⟨fun heq hM => ?_, fun hM => by rw [hlonger.eq hM]⟩
  have hlt := hlonger.length_lt hM
  by_cases hdocument : s = documentColumn ∧ joined
  · obtain ⟨v, hv, hs⟩ := bind_eq_ok hs
    obtain ⟨w, hw, ht⟩ := bind_eq_ok ht
    have hne : t ≠ documentColumn := by
      rintro rfl
      rw [hdocument.1] at hlt
      exact Nat.lt_irrefl _ hlt
    rw [if_pos hdocument, if_neg fun h => hne h.1] at heq
    rw [hdocument.1] at hs
    exact (he.gives hv).ne_qualified hn (he.gives hw) hM hs ht base heq.symm
  · rw [if_neg hdocument] at heq
    split at heq
    · rename_i htext
      rw [htext.1] at hlt
      rw [heq, String.length_append, String.length_append] at hlt
      omega
    · rw [heq] at hlt
      exact Nat.lt_irrefl _ hlt

theorem orderTexts_eq_iff (hn : Near a b) (hparsed : ∀ o ∈ l.parts.order, Parsed o.1)
    {ss ts : List String} (hs : l.orderTexts a = .ok ss) (ht : l.orderTexts b = .ok ts) :
    ss = ts ↔ ∀ o ∈ l.parts.order, ¬ Mentions a b o.1 := by
  refine eq_iff_of_forall₂ (forall₂_of_mapM hs) (forall₂_of_mapM ht) fun o ho y z hy hz => ?_
  obtain ⟨s, hs, hy⟩ := bind_eq_ok hy
  obtain ⟨t, ht, hz⟩ := bind_eq_ok hz
  cases hy
  cases hz
  exact sortText_eq_iff hn (hparsed o ho) hs ht

end Columns

/-! ## The two contexts -/

namespace Expr

variable {e e' value : Expr} {label : String}

theorem eq_attr_of_beq (h : beq (.attr value label) e = true) :
    ∃ value', e = .attr value' label ∧ beq value value' = true := by
  cases e with
  | attr value' label' =>
    change (beq value value' && label == label') = true at h
    obtain ⟨hvalue, hlabel⟩ := Bool.and_eq_true_iff.1 h
    exact ⟨value', by rw [eq_of_beq hlabel], hvalue⟩
  | _ => cases h

theorem eq_name_of_beq {id : String} (h : beq (.name id) e = true) : e = .name id := by
  cases e with
  | name id' =>
    change (id == id') = true at h
    rw [eq_of_beq h]
  | _ => cases h

/-- On chains of attributes the test for equal trees is right. -/
theorem eq_of_beq_chain {p : String × List String} (h : e.chain? = some p)
    (heq : beq e e' = true) : e = e' := by
  fun_induction chain? e generalizing e' p with
  | case1 root label =>
    obtain ⟨value, rfl, hvalue⟩ := eq_attr_of_beq heq
    rw [eq_name_of_beq hvalue]
  | case2 value label _ ih =>
    obtain ⟨q, hq, -⟩ := Option.map_eq_some_iff.1 h
    obtain ⟨value', rfl, hvalue⟩ := eq_attr_of_beq heq
    rw [ih hq hvalue]
  | case3 => cases h

theorem iterationTarget_of_comprehension {a : Option ArrayComprehension}
    (h : e.comprehension? = .ok a) : e.iterationTarget? = a.map (·.target) := by
  unfold iterationTarget?
  rw [comprehension?] at h
  split at h
  · rename_i hparts
    cases h
    simp [hparts]
  · rename_i hparts
    split at h
    · cases h
      simp [hparts]
    · cases h
  · cases h

end Expr

section Contexts

variable {l : Layout} {m : Membership} {a : Option ArrayComprehension}

/-- The variable of the statement without the membership test is that of the comprehension. -/
theorem target_of_comprehension (h : l.comprehension? = .ok a) :
    l.target? none = a.map (·.target) := by
  unfold Layout.comprehension? at h
  unfold Layout.target?
  rcases hwhat : l.parts.what with _ | ⟨e, _ | ⟨e', es⟩⟩ <;> rw [hwhat] at h
  · cases h
    rfl
  · exact Expr.iterationTarget_of_comprehension h
  · cases h
    rfl

/-- A membership test is about a name that stands for nothing. -/
theorem resolve_target {base : String} {scope : Scope} {e : Expr} (h : Parsed e)
    (hm : e.membership? base scope = some m) : scope.resolve m.target = .unbound := by
  obtain ⟨x, -, hm⟩ := h.atom_of_membership hm
  rw [Expr.asMembership?] at hm
  split at hm
  · split at hm
    · rename_i hcond
      cases hm
      have hunbound := (Bool.and_eq_true_iff.1 hcond).2
      dsimp only
      generalize scope.resolve _ = resolved at hunbound
      cases resolved with
      | unbound => rfl
      | _ => cases hunbound
    · cases hm
  · cases hm

theorem resolve_self {s : Scope} {target : String} :
    ({ s with iteration := some target } : Scope).resolve target = .element := by
  simp [Scope.resolve]

theorem resolve_of_ne {s : Scope} {target id : String} (h : target ≠ id) :
    ({ s with iteration := some target } : Scope).resolve id =
      ({ s with iteration := none } : Scope).resolve id := by
  simp [Scope.resolve, h]

theorem listed_of_chain {e : Expr} {q : String × List String} (h : e.chain? = some q) :
    listed? e = none := by
  cases e with
  | attr => rfl
  | _ => cases h

/-- In a context where its array is a path and its name stands for nothing, a membership test has no
value. -/
theorem not_gives_of_isTest {c : Context} (hc : c.guaranteed = none)
    (hunbound : c.scope.resolve m.target = .unbound) {p : FieldPath}
    (harray : Gives c m.array (.path p)) {e : Expr} {v : Value} (he : m.isTest e = true) :
    ¬ Gives c e v := by
  intro h
  rw [Membership.isTest] at he
  split at he
  · rename_i id array hparts
    obtain ⟨hid, heq⟩ := Bool.and_eq_true_iff.1 he
    rw [Expr.membershipParts?.eq_def] at hparts
    split at hparts
    · split at hparts
      · rename_i hchain
        cases hparts
        obtain ⟨q, hq⟩ := Option.isSome_iff_exists.1 hchain
        obtain rfl := Expr.eq_of_beq_chain hq heq
        obtain rfl := eq_of_beq hid
        cases h with
        | guaranteed h =>
          rw [Context.isGuaranteed, hc] at h
          cases h
        | listed items _ _ hlist =>
          rw [listed_of_chain hq] at hlist
          cases hlist
        | chain links hne hops hoperands hg hplain hleft hfirst hlinks hsql =>
          obtain ⟨⟨op, r⟩, rfl, rfl⟩ := List.map_eq_singleton_iff.1 hops
          obtain ⟨hexpr, -⟩ := List.cons.inj hoperands
          replace hexpr : r.expr = m.array := hexpr
          have hr := hlinks _ List.mem_cons_self
          rw [hexpr] at hr
          exact (hplain .elemOf r rfl rfl).2.2 m.target p rfl (by rw [hunbound]; rfl)
            (hr.unique hc harray)
      · cases hparts
    · cases hparts
  · cases he

theorem resolve_inner (t : Option Membership) (u v : Bool) (id : String) :
    (l.inner t u v).scope.resolve id =
      ({ l.context.scope with iteration := l.target? t } : Scope).resolve id :=
  rfl

/-- Without a comprehension, the first statement knows no variable. -/
theorem near_of_none (htarget : l.target? none = none)
    (hunbound : l.context.scope.resolve m.target = .unbound) (hm : Parsed m.array) {x : Expansion}
    (hx : l.expand m.target m.array = .ok x) (u v : Bool) :
    Near (l.inner none u true) (l.inner (some m) v true) where
  within target := rfl
  resolve id := by
    rw [resolve_inner, resolve_inner, htarget]
    by_cases hid : m.target = id
    · subst hid
      exact .inr ⟨hunbound, resolve_self⟩
    · exact .inl (resolve_of_ne hid).symm
  test := by
    obtain ⟨p, hp, hx⟩ := bind_eq_ok hx
    obtain ⟨w, hw, hp⟩ := bind_eq_ok hp
    have hcontext : l.inner none u true = l.context.qualified true := by
      unfold Layout.inner
      rw [htarget]
      rfl
    refine .inr ⟨rfl, fun e v he => ?_⟩
    rw [hcontext]
    cases w with
    | path q => exact not_gives_of_isTest (c := l.context.qualified true) rfl hunbound (hm.gives hw) he
    | _ => cases hp

/-- With a comprehension, both statements know its variable. -/
theorem near_of_some (htarget : l.target? none = some m.target) (u v : Bool) :
    Near (l.inner (some m) v true) (l.inner none u true) where
  within target := rfl
  resolve id := by
    rw [resolve_inner, resolve_inner, htarget]
    exact .inl rfl
  test := .inl rfl

end Contexts

/-! ## Unions -/

/-- The two statements of a union read an expression differently: without a comprehension it mentions
the variable of the membership test, which the first statement does not know; with a comprehension,
which makes the variable known, it mentions the test itself, which only the second one guarantees.
-/
def Membership.Separates (m : Membership) (a : Option ArrayComprehension) (e : Expr) : Prop :=
  ∃ x : Expr, x.Own e ∧ if a.isSome then m.isTest x = true else x = .name m.target

section Unions

variable {l : Layout} {m : Membership} {a : Option ArrayComprehension} {e : Expr}

theorem mentions_of_none (htarget : l.target? none = none)
    (hunbound : l.context.scope.resolve m.target = .unbound) (u v : Bool) :
    Mentions (l.inner none u true) (l.inner (some m) v true) e ↔ m.Separates none e := by
  refine exists_congr fun x => and_congr_right fun _ => ⟨?_, ?_⟩
  · rintro (hg | ⟨id, rfl, hne⟩)
    · cases hg
    · rw [resolve_inner, resolve_inner, htarget] at hne
      by_cases hid : m.target = id
      · rw [hid]
        rfl
      · exact absurd (resolve_of_ne hid).symm hne
  · rintro rfl
    refine .inr ⟨m.target, rfl, ?_⟩
    rw [resolve_inner, resolve_inner, htarget]
    change l.context.scope.resolve m.target ≠ _
    rw [hunbound]
    change Resolved.unbound ≠ ({ l.context.scope with iteration := some m.target } : Scope).resolve _
    rw [resolve_self]
    simp

theorem mentions_of_some (htarget : l.target? none = some m.target) (x : ArrayComprehension)
    (u v : Bool) :
    Mentions (l.inner (some m) v true) (l.inner none u true) e ↔ m.Separates (some x) e := by
  refine exists_congr fun y => and_congr_right fun _ => or_iff_left ?_
  rintro ⟨id, -, hne⟩
  rw [resolve_inner, resolve_inner, htarget] at hne
  exact hne rfl

theorem orderTexts_of_select {condition : Option Expr} {m : Option Membership} {s : Select}
    {c : Context} (h : l.select condition m true = .ok (s, c)) : l.orderTexts c = .ok s.ordering := by
  obtain ⟨tested, htested, h⟩ := bind_eq_ok h
  obtain ⟨comprehension, hcomprehension, h⟩ := bind_eq_ok h
  obtain ⟨iterated, hiterated, h⟩ := bind_eq_ok h
  obtain ⟨expanded, hexpanded, h⟩ := bind_eq_ok h
  obtain ⟨columns, hcolumns, h⟩ := bind_eq_ok h
  obtain ⟨ordering, hordering, h⟩ := bind_eq_ok h
  obtain ⟨own, hown, h⟩ := bind_eq_ok h
  obtain ⟨filter, hfilter, h⟩ := bind_eq_ok h
  cases h
  exact hordering

theorem what_of_document {r : Request} {p : Parts} (h : r.parts = .ok p) (hd : p.document = true) :
    p.what = [] := by
  have hreads := Request.reads_of_parts h
  exact hreads.what_of_document (hreads.document.1 hd)

/-- The statements share their projections and their sort keys where their contexts read the
expressions alike. -/
theorem shared_of_near {c d : Context} (hn : Near c d) (hwhat : ∀ e ∈ l.parts.columns a, Parsed e)
    (horder : ∀ o ∈ l.parts.order, Parsed o.1)
    (hdocument : l.parts.document = true → l.parts.columns a = []) {s t : Select}
    (hs : l.columns c a = .ok s.columns) (ht : l.columns d a = .ok t.columns)
    (hs' : l.orderTexts c = .ok s.ordering) (ht' : l.orderTexts d = .ok t.ordering) :
    (s.projection = t.projection ↔ ∀ e ∈ l.parts.columns a, ¬ Mentions c d e) ∧
      (s.ordering = t.ordering ↔ ∀ o ∈ l.parts.order, ¬ Mentions c d o.1) := by
  refine ⟨columns_eq_iff hn hwhat hdocument hs ht ?_, orderTexts_eq_iff hn horder hs' ht'⟩
  have hlength := (forall₂_of_mapM hs').length_eq.symm.trans (forall₂_of_mapM ht').length_eq
  rw [Bool.eq_iff_iff, List.isEmpty_iff_length_eq_zero, List.isEmpty_iff_length_eq_zero, hlength]

theorem target_of_expand {target : String} {array : Expr} {x : Expansion}
    (h : l.expand target array = .ok x) : x.target = target := by
  obtain ⟨p, -, h⟩ := bind_eq_ok h
  cases h
  rfl

/-- A comprehension beside a membership test is over the same variable. -/
theorem target_of_expansion {condition : Option Expr} {s : Select} {c : Context}
    {x y : Option Expansion} {w : ArrayComprehension} {p q : Option (Option String)}
    (h : l.Selected condition (some m) true s c x y (some w) p q) : w.target = m.target := by
  obtain ⟨x, hx, rfl⟩ := map_eq_ok h.tested
  obtain ⟨y, hy, rfl⟩ := map_eq_ok h.iterated
  have hexpansion := h.expansion
  rw [Layout.expansion] at hexpansion
  split at hexpansion
  · rename_i hxy
    rw [← target_of_expand hx, ← target_of_expand hy, hxy]
  · cases hexpansion

theorem parsed_columns (hwhat : ∀ e ∈ l.parts.what, Parsed e) (ha : l.comprehension? = .ok a) :
    ∀ e ∈ l.parts.columns a, Parsed e := by
  cases a with
  | none => exact hwhat
  | some w =>
    rw [Layout.comprehension?] at ha
    split at ha
    · rename_i e he
      have hproper := (hwhat e (by simp [he])).comprehension ha
      simpa [Parts.columns] using hproper.element
    · cases ha

theorem columns_of_what (hwhat : l.parts.what = []) (ha : l.comprehension? = .ok a) :
    l.parts.columns a = [] := by
  unfold Layout.comprehension? at ha
  rw [hwhat] at ha
  cases ha
  exact hwhat

theorem shared_of_union (hwhat : ∀ e ∈ l.parts.what, Parsed e)
    (horder : ∀ o ∈ l.parts.order, Parsed o.1)
    (hdocument : l.parts.document = true → l.parts.what = []) (hm : Parsed m.array)
    (hunbound : l.context.scope.resolve m.target = .unbound) {without within : Expr}
    {first second : Select} {c d : Context}
    (hfirst : l.select (some without) none true = .ok (first, c))
    (hsecond : l.select (some within) (some m) true = .ok (second, d)) :
    ∃ a, l.comprehension? = .ok a ∧
      (first.projection = second.projection ↔ ∀ e ∈ l.parts.columns a, ¬ m.Separates a e) ∧
      (first.ordering = second.ordering ↔ ∀ o ∈ l.parts.order, ¬ m.Separates a o.1) := by
  have hkeys := orderTexts_of_select hfirst
  have hkeys' := orderTexts_of_select hsecond
  obtain ⟨_, _, a, _, _, hfirst⟩ := Layout.selected_of_select hfirst
  obtain ⟨x, y, a', _, _, hsecond⟩ := Layout.selected_of_select hsecond
  cases hfirst.comprehension.symm.trans hsecond.comprehension
  have ha := hfirst.comprehension
  have hcolumns := hfirst.columns
  have hcolumns' := hsecond.columns
  rw [hfirst.context] at hkeys hcolumns
  rw [hsecond.context] at hkeys' hcolumns'
  refine ⟨a, ha, ?_⟩
  have hparsed := parsed_columns hwhat ha
  have hempty : l.parts.document = true → l.parts.columns a = [] :=
    fun hd => columns_of_what (hdocument hd) ha
  cases a with
  | none =>
    have htarget : l.target? none = none := target_of_comprehension ha
    obtain ⟨z, hz, -⟩ := map_eq_ok hsecond.tested
    have hshared := shared_of_near (near_of_none htarget hunbound hm hz _ _) hparsed horder hempty
      hcolumns hcolumns' hkeys hkeys'
    simpa only [mentions_of_none htarget hunbound] using hshared
  | some w =>
    have htarget : l.target? none = some m.target := by
      rw [target_of_comprehension ha, ← target_of_expansion hsecond]
      rfl
    have hshared := shared_of_near (near_of_some htarget _ _) hparsed horder hempty hcolumns' hcolumns
      hkeys' hkeys
    simp only [mentions_of_some htarget w] at hshared
    rwa [@eq_comm _ second.projection, @eq_comm _ second.ordering] at hshared

end Unions

/-- The two statements of a union have the same projection exactly if they read no expression of the
columns differently, and the same sort keys exactly if they read none of those differently. -/
theorem shared_compile {c : Compiler} {r : Request} {first second : Select} {columns : List String}
    {order : List OrderTerm} (hq : c.compile r = .ok (.union first second columns order)) :
    ∃ (parts : Parts) (m : Membership) (a : Option ArrayComprehension),
      r.parts = .ok parts ∧ (c.layout r.table parts).membership = some m ∧
      (c.layout r.table parts).comprehension? = .ok a ∧
      (first.projection = second.projection ↔ ∀ e ∈ parts.columns a, ¬ m.Separates a e) ∧
      (first.ordering = second.ordering ↔ ∀ o ∈ parts.order, ¬ m.Separates a o.1) := by
  obtain ⟨-, parts, hparts, hq⟩ := queries_of_compile hq
  obtain ⟨hwhat, hcondition, horder⟩ := (Request.reads_of_parts hparts).parsed
  cases hq with
  | single _ hq =>
    obtain ⟨s, c, texts, -, -, heq⟩ := Layout.single_eq_ok hq
    cases heq
  | @union e without within m _ he hm hsplit hq =>
    obtain ⟨whole, hwhole, hjoins⟩ := Option.bind_eq_some_iff.1 he
    have hparsed := (hcondition whole hwhole).withoutJoins hjoins
    obtain ⟨e', he', hmembership⟩ := Option.bind_eq_some_iff.1 hm
    cases he.symm.trans he'
    obtain ⟨first, second, c₁, c₂, hfirst, hsecond, heq⟩ := Layout.union_eq_ok hq
    cases heq
    obtain ⟨a, ha, hshared⟩ := shared_of_union hwhat horder (what_of_document hparts)
      (hparsed.membership hmembership).2 (resolve_target hparsed hmembership) hfirst hsecond
    exact ⟨parts, m, a, hparts, hm, ha, hshared⟩

/-- The variable of the test is known in the second statement only; the base table in both. -/
theorem shared_compile_role : ∃ (first second : Select) (columns : List String)
    (order : List OrderTerm),
    Compiler.compile ⟨.empty, ⟨.ofList ["person"]⟩⟩
      ⟨"person", .one (.text "v.role"), some (.text "person.gender == 1 or v in person.refs"),
        [⟨.text "person.handle", false⟩]⟩ = .ok (.union first second columns order) ∧
    first.projection ≠ second.projection ∧ first.ordering = second.ordering := by
  let r : Request := ⟨"person", .one (.text "v.role"),
    some (.text "person.gender == 1 or v in person.refs"), [⟨.text "person.handle", false⟩]⟩
  let c : Compiler := ⟨.empty, ⟨.ofList ["person"]⟩⟩
  let refs : Expr := .attr (.name "person") "refs"
  let condition : Expr := .boolean .or
    [.compare (.attr (.name "person") "gender") [.eq] [.literal (.int 1)],
      .compare (.name "v") [.elemOf] [refs]]
  let parts : Parts := ⟨[.attr (.name "v") "role"], false, some condition,
    [(.attr (.name "person") "handle", false)]⟩
  have hparts : r.parts = .ok parts := by cbv
  have hmembership : (c.layout "person" parts).membership = some ⟨"v", refs⟩ := by cbv
  have hunion : Query.isUnion <$> c.compile r = .ok true := by cbv
  obtain ⟨q, hq, hunion⟩ := map_eq_ok hunion
  cases q with
  | single => cases hunion
  | union first second columns order =>
    obtain ⟨parts', m, a, hparts', hm, ha, hprojection, hordering⟩ := shared_compile hq
    cases hparts.symm.trans hparts'
    cases hmembership.symm.trans hm
    obtain rfl : none = a := Except.ok.inj ha
    refine ⟨first, second, columns, order, hq, fun heq => ?_, hordering.2 ?_⟩
    · refine hprojection.1 heq _ List.mem_cons_self ⟨.name "v", ?_, rfl⟩
      exact .part List.mem_cons_self .self
    · rintro o ho ⟨x, hx, rfl⟩
      cases List.mem_singleton.1 ho
      rcases Expr.own_iff.1 hx with hx | ⟨p, hp, hx⟩
      · cases hx
      · cases List.mem_singleton.1 hp
        rcases Expr.own_iff.1 hx with hx | ⟨p, hp, -⟩
        · exact absurd (Expr.name.inj hx) (by decide)
        · cases hp

end DocQuery
