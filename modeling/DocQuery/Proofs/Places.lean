import DocQuery.Proofs.Parsed
import DocQuery.Pattern.Comprehension

/-! # Where expressions stand

Some expressions make sense at certain places only: a spread argument in a call, a slice in a
subscript, a comprehension in a quantifier. So an expression is looked at together with its place.

* `Role`, `Site`: the kinds of places, and an expression that stands at one.
* `Site.parts`, `Site.Occurs`: the parts of an expression with their places, at every depth.
* `Site.WellFormed`: what evaluation and lowering take for granted about an expression.
* `wellFormed_of_parse`: it holds everywhere in a tree that is read from a text.
-/

set_option autoImplicit false

namespace DocQuery

open Token

/-! ## Induction on parts -/

theorem sizeOf_lt_of_mem_clauses {clauses : List (Clause Expr)} {p : Expr}
    (h : p ∈ clauses.flatMap fun c => c.source :: c.conditions) : sizeOf p < sizeOf clauses := by
  obtain ⟨⟨target, source, conditions⟩, hc, hp⟩ := List.mem_flatMap.1 h
  have hclause := List.sizeOf_lt_of_mem hc
  rw [Clause.mk.sizeOf_spec] at hclause
  rcases List.mem_cons.1 hp with rfl | hp
  · omega
  · have hcondition : sizeOf p < sizeOf conditions := List.sizeOf_lt_of_mem hp
    omega

theorem Expr.sizeOf_lt_of_mem_parts {e p : Expr} (h : p ∈ e.parts) : sizeOf p < sizeOf e := by
  have hone : ∀ {value : Expr}, p ∈ [value] → sizeOf p ≤ sizeOf value := by
    intro value hp
    rw [List.mem_singleton.1 hp]
  cases e with
  | lambda params rest named body =>
    rw [lambda.sizeOf_spec]
    rcases List.mem_append.1 h with hp | hp
    · obtain ⟨⟨id, default⟩, hparam, hdefault⟩ := List.mem_filterMap.1 hp
      have hsize := List.sizeOf_lt_of_mem hparam
      cases hdefault
      rw [Param.mk.sizeOf_spec, Option.some.sizeOf_spec] at hsize
      omega
    · have hsize := hone hp
      omega
  | literal l => cases h
  | name id => cases h
  | attr value label =>
    have hsize := hone h
    rw [attr.sizeOf_spec]
    omega
  | binary left op right =>
    rw [binary.sizeOf_spec]
    rcases List.mem_cons.1 h with rfl | hp
    · omega
    · have hsize := hone hp
      omega
  | unary op operand =>
    have hsize := hone h
    rw [unary.sizeOf_spec]
    omega
  | compare left ops operands =>
    rw [compare.sizeOf_spec]
    rcases List.mem_cons.1 h with rfl | hp
    · omega
    · have hsize := List.sizeOf_lt_of_mem hp
      omega
  | boolean op operands =>
    have hsize : sizeOf p < sizeOf operands := List.sizeOf_lt_of_mem h
    rw [boolean.sizeOf_spec]
    omega
  | conditional test body otherwise =>
    simp only [parts, List.mem_cons, List.not_mem_nil, or_false] at h
    rw [conditional.sizeOf_spec]
    rcases h with rfl | rfl | rfl <;> omega
  | call callee args keywords =>
    rw [call.sizeOf_spec]
    rcases List.mem_cons.1 h with rfl | hp
    · omega
    · rcases List.mem_append.1 hp with hp | hp
      · have hsize := List.sizeOf_lt_of_mem hp
        omega
      · obtain ⟨⟨label, value⟩, hk, rfl⟩ := List.mem_map.1 hp
        have hsize := List.sizeOf_lt_of_mem hk
        rw [Keyword.mk.sizeOf_spec] at hsize
        dsimp only
        omega
  | starred value =>
    have hsize := hone h
    rw [starred.sizeOf_spec]
    omega
  | subscript value index =>
    rw [subscript.sizeOf_spec]
    rcases List.mem_cons.1 h with rfl | hp
    · omega
    · have hsize := hone hp
      omega
  | slice lower upper step =>
    simp only [parts, List.mem_append, Option.mem_toList] at h
    rw [slice.sizeOf_spec]
    rcases h with (rfl | rfl) | rfl <;> rw [Option.some.sizeOf_spec] <;> omega
  | list items =>
    have hsize : sizeOf p < sizeOf items := List.sizeOf_lt_of_mem h
    rw [list.sizeOf_spec]
    omega
  | tuple items =>
    have hsize : sizeOf p < sizeOf items := List.sizeOf_lt_of_mem h
    rw [tuple.sizeOf_spec]
    omega
  | listComp element clauses =>
    rw [listComp.sizeOf_spec]
    rcases List.mem_cons.1 h with rfl | hp
    · omega
    · have hsize := sizeOf_lt_of_mem_clauses hp
      omega
  | generator element clauses =>
    rw [generator.sizeOf_spec]
    rcases List.mem_cons.1 h with rfl | hp
    · omega
    · have hsize := sizeOf_lt_of_mem_clauses hp
      omega
  | display kind => cases h

/-- Induction on an expression, with the property of everything that is properly inside it. -/
theorem Expr.inside_induction {P : Expr → Prop}
    (step : ∀ e, (∀ p ∈ e.parts, ∀ x, x.Inside p → P x) → P e) (e : Expr) : P e := by
  have hle : ∀ {x p : Expr}, x.Inside p → sizeOf x ≤ sizeOf p := by
    intro x p h
    induction h with
    | self => exact le_rfl
    | part hp _ ih => exact ih.trans (sizeOf_lt_of_mem_parts hp).le
  induction hn : sizeOf e using Nat.strong_induction_on generalizing e with
  | _ n ih =>
    subst hn
    exact step e fun p hp x hx => ih _ ((hle hx).trans_lt (sizeOf_lt_of_mem_parts hp)) x rfl

/-! ## Places -/

/-- The place of an expression in the expression around it. -/
inductive Role where
  /-- A positional argument of a call. -/
  | argument
  /-- The only argument of a quantifier. -/
  | quantified
  /-- The index of a subscript. -/
  | index
  /-- An item of a tuple that is the index of a subscript. -/
  | indexItem
  | elsewhere
deriving DecidableEq, Repr

/-- An expression and where it stands. -/
structure Site where
  place : Role
  expr : Expr

namespace Site

/-- The expressions directly inside an expression, with their places. -/
def parts : Site → List Site
  | ⟨_, .call callee args keywords⟩ =>
    let place : Role :=
      if (Expr.call callee args keywords).quantifierCall?.isSome then .quantified else .argument
    ⟨.elsewhere, callee⟩ :: (args.map (⟨place, ·⟩) ++ keywords.map (⟨.elsewhere, ·.value⟩))
  | ⟨_, .subscript value index⟩ => [⟨.elsewhere, value⟩, ⟨.index, index⟩]
  | ⟨.index, .tuple items⟩ => items.map (⟨.indexItem, ·⟩)
  | ⟨_, e⟩ => e.parts.map (⟨.elsewhere, ·⟩)

/-- `x.Occurs s`: the expression of `x` stands at its place in `s`, at some depth, or is all of it. -/
inductive Occurs (x : Site) : Site → Prop
  | self : Occurs x x
  | part {s p : Site} (hp : p ∈ s.parts) (h : Occurs x p) : Occurs x s

/-- The parts of a site are the parts of its expression. -/
theorem map_expr_parts (s : Site) : s.parts.map expr = s.expr.parts := by
  obtain ⟨place, e⟩ := s
  cases e with
  | call callee args keywords => simp [parts, Expr.parts, Function.comp_def]
  | tuple items => cases place <;> simp [parts, Expr.parts, Function.comp_def]
  | _ => simp [parts, Expr.parts, Function.comp_def]

/-- The expressions inside an expression are those that stand at some place in it. -/
theorem inside_iff_exists_occurs {y e : Expr} (place : Role) :
    y.Inside e ↔ ∃ q, Occurs ⟨q, y⟩ ⟨place, e⟩ := by
  constructor
  · intro h
    induction h generalizing place with
    | self => exact ⟨place, .self⟩
    | @part e p hp _ ih =>
      rw [← map_expr_parts ⟨place, e⟩] at hp
      obtain ⟨⟨q, _⟩, hs, rfl⟩ := List.mem_map.1 hp
      obtain ⟨r, hr⟩ := ih q
      exact ⟨r, .part hs hr⟩
  · suffices ∀ {x s : Site}, x.Occurs s → x.expr.Inside s.expr by
      rintro ⟨q, h⟩
      exact this h
    intro x s h
    induction h with
    | self => exact .self
    | @part s p hp _ ih =>
      refine .part ?_ ih
      rw [← map_expr_parts]
      exact List.mem_map_of_mem hp

/-- A property of all that occurs in a site is one of the site and of all that occurs in its parts. -/
theorem forall_occurs_iff {P : Site → Prop} {s : Site} :
    (∀ x, Occurs x s → P x) ↔ P s ∧ ∀ p ∈ s.parts, ∀ x, Occurs x p → P x := by
  constructor
  · exact fun h => ⟨h s .self, fun p hp x hx => h x (.part hp hx)⟩
  · rintro ⟨hself, hparts⟩ x (_ | ⟨hp, hx⟩)
    · exact hself
    · exact hparts _ hp x hx

/-! ## Well-formed trees -/

/-- What is taken for granted about an expression where it stands. -/
def WellFormed : Site → Prop
  | ⟨_, .lambda params rest named _⟩ =>
    (∀ p ∈ params, IsName p.name) ∧ (∀ id ∈ rest, IsName id) ∧ ∀ id ∈ named, IsName id
  | ⟨_, .literal (.int n)⟩ => 0 ≤ n ∧ n < 2 ^ 63
  | ⟨_, .name id⟩ => IsName id
  | ⟨_, .attr _ label⟩ => IsName label
  | ⟨_, .compare _ ops operands⟩ => ops.length = operands.length ∧ 1 ≤ ops.length
  | ⟨_, .boolean _ operands⟩ => 2 ≤ operands.length
  | ⟨_, .call _ _ keywords⟩ => ∀ k ∈ keywords, ∀ id ∈ k.label, IsName id
  | ⟨place, .starred _⟩ => place = .argument
  | ⟨place, .slice _ _ _⟩ => place = .index ∨ place = .indexItem
  | ⟨_, .listComp _ clauses⟩ => 1 ≤ clauses.length ∧ ∀ c ∈ clauses, IsName c.target
  | ⟨_, .generator _ clauses⟩ => 1 ≤ clauses.length ∧ ∀ c ∈ clauses, IsName c.target
  | ⟨_, .display kind⟩ => kind = "dict" ∨ kind = "set"
  | _ => True

/-- Everything in the expression is well-formed where it stands. -/
def Sound (s : Site) : Prop := ∀ x, Occurs x s → x.WellFormed

theorem sound_of_parts {s : Site} (h : s.WellFormed) (hparts : ∀ p ∈ s.parts, p.Sound) : s.Sound :=
  forall_occurs_iff.2 ⟨h, hparts⟩

/-- An expression whose parts can stand anywhere. -/
theorem sound_of_elsewhere {place : Role} {e : Expr} (h : WellFormed ⟨place, e⟩)
    (hparts : ∀ p ∈ e.parts, ∀ q, Sound ⟨q, p⟩) : Sound ⟨place, e⟩ := by
  refine sound_of_parts h fun p hp => hparts p.expr ?_ p.place
  rw [← map_expr_parts ⟨place, e⟩]
  exact List.mem_map_of_mem hp

theorem sound_of_leaf {place : Role} {e : Expr} (h : WellFormed ⟨place, e⟩) (hleaf : e.parts = []) :
    Sound ⟨place, e⟩ :=
  sound_of_elsewhere h (by simp [hleaf])

theorem sound_call {place : Role} {callee : Expr} {args : List (Positional Expr)}
    {keywords : List (Keyword Expr)} (labels : ∀ k ∈ keywords, ∀ id ∈ k.label, IsName id)
    (hcallee : ∀ q, Sound ⟨q, callee⟩) (hargs : ∀ a ∈ args, ∀ q, Sound ⟨q, a.value⟩)
    (hkeywords : ∀ k ∈ keywords, ∀ q, Sound ⟨q, k.value⟩) :
    Sound ⟨place, .call callee (args.map (·.expr)) keywords⟩ := by
  refine sound_of_parts labels fun p hp => ?_
  simp only [parts, List.mem_cons, List.mem_append, List.mem_map] at hp
  rcases hp with rfl | ⟨_, ⟨⟨spread, value⟩, ha, rfl⟩, rfl⟩ | ⟨k, hk, rfl⟩
  · exact hcallee _
  · cases spread with
    | false => exact hargs _ ha _
    | true =>
      -- The only argument of a quantifier is a comprehension, so a call with a spread one is none.
      have hplain : (Expr.call callee (args.map (·.expr)) keywords).quantifierCall? = none := by
        rw [Expr.quantifierCall?.eq_def]
        split
        · rename_i argument heq
          have hstarred : Expr.starred value ∈ args.map (·.expr) := List.mem_map.2 ⟨_, ha, rfl⟩
          obtain ⟨-, hsingle, -⟩ := Expr.call.inj heq
          rw [hsingle] at hstarred
          cases List.mem_singleton.1 hstarred
          rfl
        · rfl
      rw [hplain]
      refine sound_of_elsewhere rfl fun p hp => ?_
      cases List.mem_singleton.1 hp
      exact hargs _ ha
  · exact hkeywords k hk _

/-- An index may be a slice, alone or as the item of a tuple. -/
theorem sound_index {place : Role} (hplace : place = .index ∨ place = .indexItem) {i : Index Expr}
    (hparts : ∀ e ∈ i.parts, ∀ q, Sound ⟨q, e⟩) : Sound ⟨place, i.expr⟩ := by
  cases i with
  | single e => exact hparts e List.mem_cons_self place
  | slice lower upper step => exact sound_of_elsewhere hplace hparts

theorem sound_comprehension {place : Role} {e element : Expr} {clauses : List (Clause Expr)}
    (h : WellFormed ⟨place, e⟩) (he : e.comprehensionParts? = some (element, clauses))
    (helement : ∀ q, Sound ⟨q, element⟩) (hsources : ∀ c ∈ clauses, ∀ q, Sound ⟨q, c.source⟩)
    (hconditions : ∀ c ∈ clauses, ∀ y ∈ c.conditions, ∀ q, Sound ⟨q, y⟩) : Sound ⟨place, e⟩ := by
  have hparts : e.parts = element :: clauses.flatMap fun c => c.source :: c.conditions := by
    obtain rfl | rfl := Expr.comprehensionParts_cases he <;> rfl
  refine sound_of_elsewhere h fun p hp => ?_
  rw [hparts] at hp
  rcases List.mem_cons.1 hp with rfl | hp
  · exact helement
  · obtain ⟨c, hc, hp⟩ := List.mem_flatMap.1 hp
    rcases List.mem_cons.1 hp with rfl | hp
    · exact hsources c hc
    · exact hconditions c hc p hp

end Site

open Site

/-- A tree of the grammar can stand anywhere, and everything in it is well-formed. -/
theorem Parsed.sound {e : Expr} (h : Parsed e) (place : Role) : Sound ⟨place, e⟩ := by
  -- The place is free, since a rule of the grammar does not know where its result will stand.
  induction h generalizing place with
  | lambda params rest named names restName namedName _ _ ihDefaults ihBody =>
    refine sound_of_elsewhere ⟨names, restName, namedName⟩ fun p hp => ?_
    rcases List.mem_append.1 hp with hp | hp
    · obtain ⟨param, hparam, hdefault⟩ := List.mem_filterMap.1 hp
      exact ihDefaults param hparam p hdefault
    · cases List.mem_singleton.1 hp
      exact ihBody
  | none => exact sound_of_leaf trivial rfl
  | bool b => exact sound_of_leaf trivial rfl
  | int n hn => exact sound_of_leaf ⟨Int.natCast_nonneg n, by exact_mod_cast hn⟩ rfl
  | float digits exponent => exact sound_of_leaf trivial rfl
  | str s => exact sound_of_leaf trivial rfl
  | name hid => exact sound_of_leaf hid rfl
  | attr _ hlabel ih =>
    refine sound_of_elsewhere hlabel fun p hp => ?_
    cases List.mem_singleton.1 hp
    exact ih
  | binary op _ _ ihLeft ihRight =>
    refine sound_of_elsewhere trivial fun p hp => ?_
    simp only [Expr.parts, List.mem_cons, List.not_mem_nil, or_false] at hp
    rcases hp with rfl | rfl
    · exact ihLeft
    · exact ihRight
  | unary op _ ih =>
    refine sound_of_elsewhere trivial fun p hp => ?_
    cases List.mem_singleton.1 hp
    exact ih
  | compare _ links hne _ ihLeft ih =>
    have hlength : 1 ≤ links.length := List.length_pos_iff.2 hne
    refine sound_of_elsewhere (by simpa [WellFormed] using hlength) fun p hp => ?_
    rcases List.mem_cons.1 hp with rfl | hp
    · exact ihLeft
    · obtain ⟨l, hl, rfl⟩ := List.mem_map.1 hp
      exact ih l hl
  | boolean op first second others _ ih => exact sound_of_elsewhere (by simp [WellFormed]) ih
  | conditional _ _ _ ihTest ihBody ihOtherwise =>
    refine sound_of_elsewhere trivial fun p hp => ?_
    simp only [Expr.parts, List.mem_cons, List.not_mem_nil, or_false] at hp
    rcases hp with rfl | rfl | rfl
    · exact ihTest
    · exact ihBody
    · exact ihOtherwise
  | call _ args keywords labels _ _ ih ihArgs ihKeywords =>
    exact sound_call labels ih ihArgs ihKeywords
  | subscript _ i _ _ ih ihParts =>
    refine sound_of_parts trivial fun p hp => ?_
    simp only [parts, List.mem_cons, List.not_mem_nil, or_false] at hp
    rcases hp with rfl | rfl
    · exact ih _
    · exact sound_index (.inl rfl) ihParts
  | subscripts _ indices _ _ ih ihParts =>
    have htuple : Sound ⟨.index, .tuple (indices.map (·.expr))⟩ := by
      refine sound_of_parts trivial fun p hp => ?_
      simp only [parts, List.map_map, List.mem_map] at hp
      obtain ⟨i, hi, rfl⟩ := hp
      exact sound_index (.inr rfl) (ihParts i hi)
    refine sound_of_parts trivial fun p hp => ?_
    simp only [parts, List.mem_cons, List.not_mem_nil, or_false] at hp
    rcases hp with rfl | rfl
    · exact ih _
    · exact htuple
  | list items _ ih => exact sound_of_elsewhere trivial ih
  | tuple items _ ih => exact sound_of_elsewhere trivial ih
  | listComp _ clauses hne targets _ _ ih ihSources ihConditions =>
    exact sound_comprehension ⟨List.length_pos_iff.2 hne, targets⟩ rfl ih ihSources ihConditions
  | generator _ clauses hne targets _ _ ih ihSources ihConditions =>
    exact sound_comprehension ⟨List.length_pos_iff.2 hne, targets⟩ rfl ih ihSources ihConditions
  | display hkind => exact sound_of_leaf (by simpa [WellFormed] using hkind) rfl

/-- Wherever an expression stands in a tree that is read from a text, it is well-formed. -/
theorem wellFormed_of_parse {t : String} {e : Expr} (h : Expr.parse t = .ok e) {x : Site}
    (hx : x.Occurs ⟨.elsewhere, e⟩) : x.WellFormed :=
  (parsed_of_parse h).sound .elsewhere x hx

theorem wellFormed_of_parse_slice : ∃ e : Expr,
    Expr.parse "f(*a, k=lambda x=1: x[y, ::-3]) if [v for v in b.c] else \x7b\x7d" = .ok e ∧
    Occurs ⟨.indexItem, .slice none none (some (.unary .neg (.literal (.int 3))))⟩ ⟨.elsewhere, e⟩ ∧
    WellFormed ⟨.indexItem, .slice none none (some (.unary .neg (.literal (.int 3))))⟩ := by
  let slice : Expr := .slice none none (some (.unary .neg (.literal (.int 3))))
  let indices : Expr := .tuple [.name "y", slice]
  let function : Expr :=
    .lambda [⟨"x", some (.literal (.int 1))⟩] none none (.subscript (.name "x") indices)
  let call : Expr := .call (.name "f") [.starred (.name "a")] [⟨some "k", function⟩]
  let test : Expr := .listComp (.name "v") [⟨"v", .attr (.name "b") "c", []⟩]
  have hparse : Expr.parse "f(*a, k=lambda x=1: x[y, ::-3]) if [v for v in b.c] else \x7b\x7d" =
      .ok (.conditional test call (.display "dict")) := by cbv
  have hoccurs : Occurs ⟨.indexItem, slice⟩ ⟨.elsewhere, .conditional test call (.display "dict")⟩ := by
    refine .part (p := ⟨.elsewhere, call⟩) (by simp [parts, Expr.parts]) ?_
    refine .part (p := ⟨.elsewhere, function⟩) (by simp [call, parts]) ?_
    refine .part (p := ⟨.elsewhere, .subscript (.name "x") indices⟩)
      (by simp [function, parts, Expr.parts]) ?_
    refine .part (p := ⟨.index, indices⟩) (by simp [parts]) ?_
    exact .part (p := ⟨.indexItem, slice⟩) (by simp [indices, parts]) .self
  exact ⟨_, hparse, hoccurs, wellFormed_of_parse hparse hoccurs⟩

end DocQuery
