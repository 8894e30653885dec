import DocQuery.Proofs.Outcome
import DocQuery.Sql.Fragment

/-! # What evaluation answers

What the value of an expression can be is said once, for comparisons, quantifiers and calls, and the
proofs about values only tell these cases apart.

* `eval_compare`, `quantified_singleton`: comparisons and quantifiers by the shape of their operands.
* `Compared`, `Quantified`, `Called`: the values that these expressions can have.
* `compared_of_eval`, `quantified_of_answer`, `called_of_eval`: they have no others.
-/

set_option autoImplicit false

namespace DocQuery

/-- The expression whose attribute an expression is. -/
def Expr.receiver? : Expr → Option Expr
  | attr value _ => some value
  | _ => none

namespace Sql

open Context

variable {c : Context}

theorem compile_eq_ok {e : Expr} {v : Value} {sql : String} (hv : c.eval e = .ok v)
    (hs : c.sqlOf e v = .ok sql) : c.compile e = .ok sql := by
  rw [compile, hv]
  exact hs

theorem sqlOf_of_conditionOf {e : Expr} {v : Value} {sql : String}
    (h : c.conditionOf e v = .ok (some sql)) : c.sqlOf e v = .ok sql := by
  cases v with
  | satisfied => cases h
  | _ =>
    obtain ⟨s, hs, heq⟩ := map_eq_ok h
    cases heq
    exact hs

/-! ## Comparisons -/

/-- The values of a comparison. -/
inductive Compared (c : Context) (left : Expr) (ops : List CmpOp) (operands : List Expr) :
    Value → Prop
  | guaranteed (h : c.isGuaranteed (.compare left ops operands) = true) :
      Compared c left ops operands .satisfied
  | listed {l : String} {items : List String} (op : CmpOp) (hl : c.compile left = .ok l)
      (hitems : items = [] ∨ ∃ right ∈ operands, c.eval right = .ok (.sequence items)) :
      Compared c left ops operands (listTest l op items)
  | pattern {right : Expr} {r : String} (negated : Bool) (pattern : String)
      (hright : right ∈ operands) (hr : c.compile right = .ok r) :
      Compared c left ops operands (patternTest r negated pattern)
  | chain {first : String} {items : List String} (hfirst : c.compile left = .ok first)
      (hitems : c.links first ops operands = .ok items) :
      Compared c left ops operands (.text (chained items))

variable {left : Expr} {ops : List CmpOp} {operands : List Expr} {v : Value}

theorem Compared.of_links {refusal : Error}
    (h : (if ops.length ≠ operands.length ∨ ops.isEmpty then .error refusal
      else do
        let first ← c.sqlOf left (← c.eval left)
        return Value.text (chained (← c.links first ops operands))) = .ok v) :
    Compared c left ops operands v := by
  split at h
  · cases h
  · obtain ⟨w, hw, h⟩ := bind_eq_ok h
    obtain ⟨first, hfirst, h⟩ := bind_eq_ok h
    obtain ⟨items, hitems, h⟩ := bind_eq_ok h
    cases h
    exact .chain (compile_eq_ok hw hfirst) hitems

theorem Compared.of_list {op : CmpOp} {items : Except Error (List String)}
    (hitems : ∀ is, items = .ok is →
      is = [] ∨ ∃ right ∈ operands, c.eval right = .ok (.sequence is))
    (h : (do
      let l ← c.sqlOf left (← c.eval left)
      return listTest l op (← items)) = .ok v) : Compared c left ops operands v := by
  obtain ⟨w, hw, h⟩ := bind_eq_ok h
  obtain ⟨l, hl, h⟩ := bind_eq_ok h
  obtain ⟨is, his, h⟩ := bind_eq_ok h
  cases h
  exact .listed op (compile_eq_ok hw hl) (hitems is his)

theorem compared_of_eval (h : c.eval (.compare left ops operands) = .ok v) :
    Compared c left ops operands v := by
  rw [eval] at h
  split at h
  · cases h
    exact .guaranteed ‹_›
  dsimp only at h
  -- A list, a tuple and nothing on the right are special, then a text and a free name on the left.
  split at h
  · exact .of_list (fun is his => .inr ⟨_, List.mem_cons_self, by rw [eval, his]; rfl⟩) h
  · exact .of_list (fun is his => .inr ⟨_, List.mem_cons_self, by rw [eval, his]; rfl⟩) h
  · obtain ⟨w, hw, h⟩ := bind_eq_ok h
    obtain ⟨l, hl, h⟩ := bind_eq_ok h
    cases h
    exact .listed _ (compile_eq_ok hw hl) (.inl rfl)
  · split at h
    · obtain ⟨w, hw, h⟩ := bind_eq_ok h
      obtain ⟨r, hr, h⟩ := bind_eq_ok h
      cases h
      exact .pattern _ _ List.mem_cons_self (compile_eq_ok hw hr)
    · split at h
      · obtain ⟨w, -, h⟩ := bind_eq_ok h
        split at h
        · cases h
        · exact .of_links h
      · exact .of_links h
    · exact .of_links h
  · exact .of_links h

/-- The items on the right of a test whether a value is in a list. -/
def listed? : Expr → Option (List Expr)
  | .list items => some items
  | .tuple items => some items
  | .literal .none => some []
  | _ => none

theorem listed_cases {e : Expr} {items : List Expr} (h : listed? e = some items) :
    e = .list items ∨ e = .tuple items ∨ e = .literal .none ∧ items = [] := by
  cases e with
  | list es => exact .inl (congrArg Expr.list (Option.some.inj h))
  | tuple es => exact .inr (.inl (congrArg Expr.tuple (Option.some.inj h)))
  | literal l =>
    cases l with
    | none => exact .inr (.inr ⟨rfl, (Option.some.inj h).symm⟩)
    | _ => cases h
  | _ => cases h

/-- The value of a comparison chain. -/
def linked (c : Context) (left : Expr) (ops : List CmpOp) (operands : List Expr) :
    Except Error Value :=
  if ops.length ≠ operands.length ∨ ops.isEmpty then
    .error (.mismatch (Expr.compare left ops operands).render .malformedComparison)
  else do
    let first ← c.sqlOf left (← c.eval left)
    return .text (chained (← c.links first ops operands))

/-- The value of the test whether something is in what is no list. -/
def testedIn (c : Context) (left : Expr) (op : CmpOp) (ops : List CmpOp) (right : Expr) :
    Except Error Value :=
  match left with
  | .literal (.str text) => do
    let r ← c.sqlOf right (← c.eval right)
    return patternTest r (op = .notElemOf) ("%" ++ text ++ "%")
  | .name id =>
    if (c.scope.resolve id).isUnbound then do
      match ← c.eval right with
      | .path _ =>
        .error (.unsupported (Expr.compare left ops [right]).render .nestedMembership)
      | _ => linked c left ops [right]
    else linked c left ops [right]
  | _ => linked c left ops [right]

/-- A test in what is no list is a comparison, unless text is looked for in text or the element of an
array in its array. -/
theorem testedIn_eq_linked {right : Expr} {op : CmpOp} (hv : c.eval right = .ok v)
    (htext : ∀ text, left ≠ .literal (.str text))
    (hname : ∀ id path, left = .name id → (c.scope.resolve id).isUnbound = true → v ≠ .path path) :
    testedIn c left op ops right = linked c left ops [right] := by
  cases left with
  | literal l =>
    cases l with
    | str text => exact absurd rfl (htext text)
    | _ => rfl
  | name id =>
    rw [testedIn]
    split
    · rename_i hunbound
      rw [hv]
      cases v with
      | path path => exact absurd rfl (hname id path rfl hunbound)
      | _ => rfl
    · rfl
  | _ => rfl

theorem eval_compare (left : Expr) (ops : List CmpOp) (operands : List Expr) :
    c.eval (.compare left ops operands) =
      if c.isGuaranteed (.compare left ops operands) then .ok .satisfied
      else match membershipOp? ops, operands with
        | some op, [right] =>
          match listed? right with
          | some items => do
            let l ← c.sqlOf left (← c.eval left)
            return listTest l op (← c.compileAll items)
          | none => testedIn c left op ops right
        | _, _ => linked c left ops operands := by
  rw [eval]
  refine if_congr Iff.rfl rfl ?_
  cases hop : membershipOp? ops with
  | none => rfl
  | some op =>
    cases operands with
    | nil => rfl
    | cons right rest =>
      cases right with
      | literal l => cases l <;> cases rest <;> rfl
      | _ => cases rest <;> rfl

/-! ## Connectives -/

/-- A conjunction is never satisfied by one of its operands alone. -/
theorem conditions_and_ne_none (es : List Expr) : c.conditions .and es ≠ .ok none := by
  induction es with
  | nil => simp [conditions]
  | cons e es ih =>
    intro h
    rw [conditions] at h
    obtain ⟨v, -, h⟩ := bind_eq_ok h
    obtain ⟨p, -, h⟩ := bind_eq_ok h
    cases p with
    | none => exact ih h
    | some sql =>
      obtain ⟨q, hq, h⟩ := bind_eq_ok h
      cases q with
      | none => exact ih hq
      | some parts => cases h

/-! ## Quantifiers -/

/-- The values of a quantifier over `e`. -/
inductive Quantified (c : Context) (e : Expr) : Value → Prop
  | clause {element array : Expr} {target : String} {filters : List Expr} {path : FieldPath}
      {own : Option String} {others : Option (List String)}
      (hparts : e.comprehensionParts? = some (element, [⟨target, array, filters⟩]))
      (hpath : c.fieldPath array = .ok path)
      (hown : ∀ sql ∈ own, (c.within target).compile element = .ok sql)
      (hothers : (c.within target).conditions .and filters = .ok others) :
      Quantified c e (.text (existence path target (own.toList ++ others.getD [])))

theorem quantified_eq_some {args : List Expr} {a : Except Error Value}
    (h : c.quantified args = some a) : ∃ e, args = [e] := by
  rw [quantified.eq_def] at h
  split at h
  · exact ⟨_, rfl⟩
  · exact ⟨_, rfl⟩
  · cases h

theorem Quantified.of_clause {e element array : Expr} {target : String} {filters : List Expr}
    (hparts : e.comprehensionParts? = some (element, [⟨target, array, filters⟩]))
    (h : (do
      let path ← pathOf array (← c.eval array)
      let own ← if element.asName? = some target then pure none
        else (c.within target).conditionOf element (← (c.within target).eval element)
      let others ← (c.within target).conditions .and filters
      return Value.text (existence path target (own.toList ++ others.getD []))) = .ok v) :
    Quantified c e v := by
  obtain ⟨w, hw, h⟩ := bind_eq_ok h
  obtain ⟨path, hpath, h⟩ := bind_eq_ok h
  have hfield : c.fieldPath array = .ok path := by
    rw [fieldPath, hw]
    exact hpath
  obtain ⟨own, hown, h⟩ : ∃ own : Option String,
      (∀ sql ∈ own, (c.within target).compile element = .ok sql) ∧ (do
        let others ← (c.within target).conditions .and filters
        return Value.text (existence path target (own.toList ++ others.getD []))) = .ok v := by
    dsimp only at h
    split at h
    · exact ⟨none, nofun, h⟩
    · obtain ⟨u, hu, h⟩ := bind_eq_ok h
      obtain ⟨own, hown, h⟩ := bind_eq_ok h
      refine ⟨own, fun sql hsql => ?_, h⟩
      cases hsql
      exact compile_eq_ok hu (sqlOf_of_conditionOf hown)
  obtain ⟨others, hothers, h⟩ := bind_eq_ok h
  cases h
  exact .clause hparts hfield hown hothers

theorem quantified_of_answer {e : Expr} (h : c.quantified [e] = some (.ok v)) :
    Quantified c e v := by
  rw [quantified.eq_def] at h
  split at h
  · rename_i heq
    cases heq
    split at h
    · exact .of_clause rfl (Option.some.inj h)
    · cases h
  · rename_i heq
    cases heq
    split at h
    · exact .of_clause rfl (Option.some.inj h)
    · cases h
  · cases h

/-- The value of a quantifier over an array. -/
def existential (c : Context) (element : Expr) (target : String) (array : Expr)
    (filters : List Expr) : Except Error Value := do
  let path ← pathOf array (← c.eval array)
  let own ← if element.asName? = some target then pure none
    else (c.within target).conditionOf element (← (c.within target).eval element)
  let others ← (c.within target).conditions .and filters
  return .text (existence path target (own.toList ++ others.getD []))

theorem quantified_singleton (e : Expr) :
    c.quantified [e] = match e.comprehensionParts? with
      | some (element, [⟨target, array, filters⟩]) =>
        if array.chain?.isSome then some (existential c element target array filters) else none
      | _ => none := by
  cases e with
  | generator element clauses => rcases clauses with _ | ⟨⟨target, array, filters⟩, _ | _⟩ <;> rfl
  | listComp element clauses => rcases clauses with _ | ⟨⟨target, array, filters⟩, _ | _⟩ <;> rfl
  | _ => rfl

/-! ## Calls -/

/-- The values of a call. -/
inductive Called (c : Context) : Expr → List Expr → Value → Prop
  | length {callee e : Expr} {p : FieldPath} (he : c.eval e = .ok (.path p)) :
      Called c callee [e] (.text p.length)
  | quantified {callee e : Expr} {v : Value} (h : c.quantified [e] = some (.ok v)) :
      Called c callee [e] v
  | method {value : Expr} {label r : String} {args : List Expr} (pattern : String)
      (hr : c.compile value = .ok r) :
      Called c (.attr value label) args (patternTest r false pattern)

theorem called_of_eval {callee : Expr} {args : List Expr} {keywords : List (Keyword Expr)}
    (h : c.eval (.call callee args keywords) = .ok v) : Called c callee args v := by
  rw [eval.eq_def] at h
  dsimp only at h
  split at h
  · cases h
  split at h
  · split at h
    · split at h
      · obtain ⟨w, hw, h⟩ := bind_eq_ok h
        split at h
        · cases h
          exact .length hw
        · cases h
      · cases h
    · split at h
      · rename_i answer hanswer
        subst h
        split at hanswer
        · obtain ⟨e, rfl⟩ := quantified_eq_some hanswer
          exact .quantified hanswer
        · cases hanswer
      · cases h
  · split at h
    · split at h
      · obtain ⟨w, hw, h⟩ := bind_eq_ok h
        obtain ⟨r, hr, h⟩ := bind_eq_ok h
        cases h
        exact .method _ (compile_eq_ok hw hr)
      · cases h
    · cases h
  · cases h

/-- Only names and attributes can be called. -/
theorem call_refused {callee : Expr} {args : List Expr} {keywords : List (Keyword Expr)}
    (hname : ∀ id, callee ≠ .name id)
    (hattr : ∀ value label, callee ≠ .attr value label) :
    ∃ refusal, c.eval (.call callee args keywords) = .error refusal := by
  rw [eval.eq_def]
  dsimp only
  split
  · exact ⟨_, rfl⟩
  · split
    · exact absurd rfl (hname _)
    · exact absurd rfl (hattr _ _)
    · exact ⟨_, rfl⟩

end Sql

end DocQuery
