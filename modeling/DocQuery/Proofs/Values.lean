import DocQuery.Proofs.Literals
import DocQuery.Proofs.Parsed
import DocQuery.Proofs.Evaluation

/-! # The values of expressions hold fragments

The SQL for a tree of the grammar is a fragment, in any context: names are words, texts are quoted,
signs stand in front of parentheses or of numbers without a sign.

* `Sql.Value.Proper`: the texts in a value are fragments.
* `Sql.Compiles`: an expression has proper values only, wherever it stands.
* `Parsed.compiles`: the trees of the grammar have.
-/

set_option autoImplicit false

namespace DocQuery.Sql

open Token

/-- The texts in a value are fragments. -/
def Value.Proper : Value → Prop
  | text sql => Fragment sql
  | path p => Fragment p.root.document
  | bound _ => True
  | table name => IsWord name
  | sequence items => ∀ i ∈ items, Fragment i
  | satisfied => True

namespace Context

variable {c : Context}

/-! ## Values and their texts -/

theorem fragment_sqlOf {e : Expr} {v : Value} {sql : String} (hv : v.Proper)
    (h : c.sqlOf e v = .ok sql) : Fragment sql := by
  cases v with
  | text s =>
    cases h
    exact hv
  | path p =>
    cases h
    exact FieldPath.fragment_field hv
  | bound value =>
    cases value with
    | constant l =>
      cases h
      exact l.fragment_sql
    | holder name members => cases h
  | table name =>
    cases h
    exact Root.fragment_table hv _
  | sequence items =>
    cases h
    exact .ofParts [.word "(", .hole (Sql.sequence items), .word ")"] (by simp [Part.text]) rfl
      (by simp [fragment_sequence hv])
  | satisfied =>
    cases h
    exact fun _ => rfl

theorem proper_named {id : String} (h : IsName id) : (c.named id).Proper := by
  have hword := isWord_of_isIdentifier h.1
  unfold named
  split
  · exact Root.fragment_element hword
  · trivial
  · exact hword
  · exact hword.fragment

theorem proper_attributeOf {whole : Expr} {label : String} {v w : Value} (hlabel : IsName label)
    (hv : v.Proper) (h : c.attributeOf whole label v = .ok w) : w.Proper := by
  have hword := isWord_of_isIdentifier hlabel.1
  cases v with
  | text sql =>
    cases h
    replace hv : Fragment sql := hv
    exact .ofParts [.hole sql, .word ".", .hole label] (by simp [Part.text]) rfl
      (by simp [hword.fragment, hv])
  | path p =>
    cases h
    exact hv
  | bound value =>
    simp only [attributeOf] at h
    split at h
    · cases h
      trivial
    · cases h
  | table name =>
    cases h
    exact Root.fragment_table hv _
  | sequence items => cases h
  | satisfied => cases h

theorem proper_itemOf {whole index : Expr} {v w : Value} (hv : v.Proper)
    (h : itemOf whole index v = .ok w) : w.Proper := by
  cases v with
  | path p =>
    simp only [itemOf] at h
    split at h
    · cases h
      exact hv
    · cases h
  | _ => cases h

end Context

/-! ## Texts of operations -/

section Operations

variable {l r : String} {parts : List String}

theorem fragment_arithmetic {op : BinaryOp} {sql : String} (hl : Fragment l) (hr : Fragment r)
    (h : arithmetic? op l r = some sql) : Fragment sql := by
  have hbetween : Fragment ("(" ++ l ++ " " ++ op.symbol ++ " " ++ r ++ ")") :=
    .ofParts [.word "(", .hole l, .word " ", .word op.symbol, .word " ", .hole r, .word ")"]
      (by simp [Part.text]) (by cases op <;> rfl) (by simp [hl, hr])
  cases op with
  | pow =>
    cases h
    exact .ofParts [.word "POW(", .hole l, .word ", ", .hole r, .word ")"] (by simp [Part.text]) rfl
      (by simp [hl, hr])
  | floorDiv =>
    cases h
    exact .ofParts [.word "CAST((", .hole l, .word ") / (", .hole r, .word ") AS INTEGER)"]
      (by simp [Part.text]) rfl (by simp [hl, hr])
  | bitXor =>
    cases h
    exact .ofParts [.word "((", .hole l, .word " | ", .hole r, .word ") - (", .hole l, .word " & ",
      .hole r, .word "))"] (by simp [Part.text]) rfl (by simp [hl, hr])
  | matMul => cases h
  | _ =>
    cases h
    exact hbetween

theorem fragment_link (op : CmpOp) (hl : Fragment l) (hr : Fragment r) :
    Fragment ("(" ++ l ++ " " ++ comparison op ++ " " ++ r ++ ")") :=
  .ofParts [.word "(", .hole l, .word " ", .word (comparison op), .word " ", .hole r, .word ")"]
    (by simp [Part.text]) (by cases op <;> rfl) (by simp [hl, hr])

theorem fragment_enclosed (hl : Fragment l) : Fragment ("(" ++ l ++ ")") :=
  .ofParts [.word "(", .hole l, .word ")"] (by simp [Part.text]) rfl (by simp [hl])

theorem proper_connected (op : BoolOp) (h : ∀ p ∈ parts, Fragment p) :
    (connected op parts).Proper := by
  unfold connected
  split
  · trivial
  · exact h _ List.mem_cons_self
  · have hsep : Fragment (" " ++ connective op ++ " ") := by cases op <;> exact fun _ => rfl
    exact fragment_enclosed (fragment_intercalate hsep h)

theorem fragment_chained (h : ∀ p ∈ parts, Fragment p) : Fragment (chained parts) := by
  unfold chained
  split
  · exact h _ List.mem_cons_self
  · exact fragment_enclosed (fragment_intercalate (fun _ => rfl) h)

theorem proper_listTest (op : CmpOp) (hl : Fragment l) (h : ∀ i ∈ parts, Fragment i) :
    (Context.listTest l op parts).Proper :=
  .ofParts [.word "(", .hole l, .word " ", .word (comparison op), .word " (",
    .hole (Sql.sequence parts), .word "))"] (by simp [Part.text]) (by cases op <;> rfl)
    (by simp [hl, fragment_sequence h])

theorem proper_patternTest (hl : Fragment l) (negated : Bool) (pattern : String) :
    (Context.patternTest l negated pattern).Proper :=
  .ofParts [.word "(", .hole l, .word (if negated then " NOT LIKE " else " LIKE "),
    .hole (quote pattern), .word ")"] (by simp [Part.text]) (by cases negated <;> rfl)
    (by simp [hl, fragment_quote])

theorem fragment_existence {array : FieldPath} {target : String}
    (harray : Fragment array.root.document) (ht : Fragment target)
    (h : ∀ p ∈ parts, Fragment p) : Fragment (existence array target parts) := by
  have hconditions := proper_connected .and h
  have hexpansion := FieldPath.fragment_expansion harray ht
  unfold existence
  split
  · rename_i condition hc
    rw [hc] at hconditions
    replace hconditions : Fragment condition := hconditions
    exact .ofParts [.word "EXISTS (SELECT 1 FROM ", .hole (array.expansion target),
      .word " WHERE ", .hole condition, .word ")"] (by simp [Part.text]) rfl
      (by simp [hexpansion, hconditions])
  · exact .ofParts [.word "EXISTS (SELECT 1 FROM ", .hole (array.expansion target), .word ")"]
      (by simp [Part.text]) rfl (by simp [hexpansion])

end Operations

/-! ## Expressions -/

/-- An expression has proper values only, wherever it stands: as a value, as the argument of a
quantifier, and as the method of a call, whose receiver counts. -/
structure Compiles (e : Expr) : Prop where
  eval : ∀ (c : Context) (v : Value), c.eval e = .ok v → v.Proper
  quantified : ∀ (c : Context) (v : Value), c.quantified [e] = some (.ok v) → v.Proper
  receiver : ∀ value label, e = .attr value label →
    ∀ (c : Context) (v : Value), c.eval value = .ok v → v.Proper

/-- Most expressions are neither a comprehension nor an attribute. -/
theorem Compiles.of_eval {e : Expr} (h : ∀ (c : Context) (v : Value), c.eval e = .ok v → v.Proper)
    (hcomprehension : e.comprehensionParts? = none) (hreceiver : e.receiver? = none) :
    Compiles e where
  eval := h
  quantified c v hq := by
    cases e with
    | listComp => cases hcomprehension
    | generator => cases hcomprehension
    | _ => simp [Context.quantified] at hq
  receiver value label heq := by
    subst heq
    cases hreceiver

namespace Context

variable {c : Context} {e : Expr}

theorem fragment_compile (h : Compiles e) {sql : String} (hs : c.compile e = .ok sql) :
    Fragment sql := by
  obtain ⟨v, hv, hs⟩ := bind_eq_ok hs
  exact fragment_sqlOf (h.eval c v hv) hs

theorem fragment_compileAll {es : List Expr} (h : ∀ e ∈ es, Compiles e) {items : List String}
    (hs : c.compileAll es = .ok items) : ∀ i ∈ items, Fragment i := by
  induction es generalizing items with
  | nil =>
    cases hs
    simp
  | cons e es ih =>
    rw [compileAll] at hs
    obtain ⟨v, hv, hs⟩ := bind_eq_ok hs
    obtain ⟨sql, hsql, hs⟩ := bind_eq_ok hs
    obtain ⟨rest, hrest, hs⟩ := bind_eq_ok hs
    cases hs
    have hfirst := fragment_sqlOf ((h e List.mem_cons_self).eval c v hv) hsql
    simpa [hfirst] using ih (fun e he => h e (List.mem_cons_of_mem _ he)) hrest

theorem fragment_links {es : List Expr} (h : ∀ e ∈ es, Compiles e) {ops : List CmpOp}
    {current : String} (hcurrent : Fragment current) {items : List String}
    (hs : c.links current ops es = .ok items) : ∀ i ∈ items, Fragment i := by
  induction es generalizing ops current items with
  | nil =>
    cases ops <;> cases hs <;> simp
  | cons e es ih =>
    cases ops with
    | nil =>
      cases hs
      simp
    | cons op ops =>
      rw [links] at hs
      obtain ⟨v, hv, hs⟩ := bind_eq_ok hs
      obtain ⟨sql, hsql, hs⟩ := bind_eq_ok hs
      obtain ⟨rest, hrest, hs⟩ := bind_eq_ok hs
      cases hs
      have hnext := fragment_sqlOf ((h e List.mem_cons_self).eval c v hv) hsql
      have hlink := fragment_link op hcurrent hnext
      simpa [hlink] using ih (fun e he => h e (List.mem_cons_of_mem _ he)) hnext hrest

theorem fragment_conditions {op : BoolOp} {es : List Expr} (h : ∀ e ∈ es, Compiles e)
    {parts : List String} (hs : c.conditions op es = .ok (some parts)) :
    ∀ p ∈ parts, Fragment p := by
  induction es generalizing parts with
  | nil =>
    cases hs
    simp
  | cons e es ih =>
    rw [conditions] at hs
    obtain ⟨v, hv, hs⟩ := bind_eq_ok hs
    obtain ⟨condition, hcondition, hs⟩ := bind_eq_ok hs
    replace ih := @ih fun e he => h e (List.mem_cons_of_mem _ he)
    cases condition with
    | none =>
      dsimp only at hs
      split at hs
      · cases hs
      · exact ih hs
    | some sql =>
      obtain ⟨rest, hrest, hs⟩ := bind_eq_ok hs
      have hsql := fragment_sqlOf ((h e List.mem_cons_self).eval c v hv)
        (sqlOf_of_conditionOf hcondition)
      obtain ⟨others, rfl, rfl⟩ := Option.map_eq_some_iff.1 (Except.ok.inj hs)
      simpa [hsql] using ih hrest

theorem fragment_fieldPath (h : Compiles e) {p : FieldPath} (hp : c.fieldPath e = .ok p) :
    Fragment p.root.document := by
  obtain ⟨v, hv, hp⟩ := bind_eq_ok hp
  have hproper := h.eval c v hv
  cases v with
  | path q =>
    cases hp
    exact hproper
  | _ => cases hp

theorem proper_compare {left : Expr} {ops : List CmpOp} {operands : List Expr} {v : Value}
    (hleft : Compiles left) (hoperands : ∀ e ∈ operands, Compiles e)
    (h : Compared c left ops operands v) : v.Proper := by
  cases h with
  | guaranteed => trivial
  | @listed l items op hl hitems =>
    refine proper_listTest op (fragment_compile hleft hl) ?_
    obtain rfl | ⟨right, hright, heval⟩ := hitems
    · exact nofun
    · exact (hoperands right hright).eval c _ heval
  | pattern negated pattern hright hr =>
    exact proper_patternTest (fragment_compile (hoperands _ hright) hr) negated pattern
  | chain hfirst hitems =>
    exact fragment_chained (fragment_links hoperands (fragment_compile hleft hfirst) hitems)

/-- A number that was read from a text has no sign of its own. -/
theorem isWord_numberSql (h : Parsed e) (hnumber : e.isNumber = true) : IsWord (numberSql e) := by
  cases h with
  | int n => exact isWord_natCast n
  | float digits exponent => exact Decimal.isWord_ofDecimal digits exponent
  | _ => cases hnumber

theorem proper_unary {op : UnaryOp} {v : Value} (hparsed : Parsed e) (he : Compiles e)
    (h : c.eval (.unary op e) = .ok v) : v.Proper := by
  rw [eval] at h
  split at h
  · rename_i hnumber
    cases h
    simp only [Bool.and_eq_true] at hnumber
    exact (isWord_numberSql hparsed hnumber.2).fragment_minus
  · split at h
    · obtain ⟨w, hw, h⟩ := bind_eq_ok h
      obtain ⟨sql, hsql, h⟩ := bind_eq_ok h
      cases h
      have hfragment := fragment_sqlOf (he.eval c w hw) hsql
      exact .ofParts [.word "NOT ", .hole sql] (by simp [Part.text]) rfl (by simp [hfragment])
    · obtain ⟨w, hw, h⟩ := bind_eq_ok h
      have hproper := he.eval c w hw
      unfold signedOf at h
      split at h
      · cases h
      · obtain ⟨sql, hsql, h⟩ := bind_eq_ok h
        cases h
        have hfragment := fragment_sqlOf hproper hsql
        exact .ofParts [.word (sign op), .word "(", .hole sql, .word ")"] (by simp [Part.text])
          (by cases op <;> rfl) (by simp [hfragment])

theorem proper_call {callee : Expr} {args : List Expr} {v : Value} (hcallee : Compiles callee)
    (hargs : ∀ e ∈ args, Compiles e) (h : Called c callee args v) : v.Proper := by
  cases h with
  | length he =>
    have hpath := (hargs _ List.mem_cons_self).eval c _ he
    exact FieldPath.fragment_length hpath
  | quantified hq => exact (hargs _ List.mem_cons_self).quantified c v hq
  | method pattern hr =>
    obtain ⟨w, hw, hs⟩ := bind_eq_ok hr
    exact proper_patternTest (fragment_sqlOf (hcallee.receiver _ _ rfl c w hw) hs) false pattern

theorem proper_boolean {op : BoolOp} {operands : List Expr} {v : Value}
    (h : ∀ e ∈ operands, Compiles e) (hv : c.eval (.boolean op operands) = .ok v) : v.Proper := by
  rw [eval] at hv
  obtain ⟨parts, hparts, hv⟩ := bind_eq_ok hv
  cases parts with
  | none =>
    cases hv
    trivial
  | some parts =>
    cases hv
    exact proper_connected op (fragment_conditions h hparts)

theorem proper_conditional {test body otherwise : Expr} {v : Value} (htest : Compiles test)
    (hbody : Compiles body) (hotherwise : Compiles otherwise)
    (h : c.eval (.conditional test body otherwise) = .ok v) : v.Proper := by
  rw [eval] at h
  obtain ⟨wt, hwt, h⟩ := bind_eq_ok h
  obtain ⟨t, ht, h⟩ := bind_eq_ok h
  obtain ⟨wb, hwb, h⟩ := bind_eq_ok h
  obtain ⟨b, hb, h⟩ := bind_eq_ok h
  obtain ⟨wo, hwo, h⟩ := bind_eq_ok h
  obtain ⟨o, ho, h⟩ := bind_eq_ok h
  cases h
  have htFragment := fragment_sqlOf (htest.eval c wt hwt) ht
  have hbFragment := fragment_sqlOf (hbody.eval c wb hwb) hb
  have hoFragment := fragment_sqlOf (hotherwise.eval c wo hwo) ho
  exact .ofParts [.word "CASE WHEN ", .hole t, .word " THEN ", .hole b, .word " ELSE ", .hole o,
    .word " END"] (by simp [Part.text]) rfl (by simp [htFragment, hbFragment, hoFragment])

theorem proper_binary {left right : Expr} {op : BinaryOp} {v : Value} (hleft : Compiles left)
    (hright : Compiles right) (h : c.eval (.binary left op right) = .ok v) : v.Proper := by
  rw [eval] at h
  obtain ⟨wl, hwl, h⟩ := bind_eq_ok h
  obtain ⟨l, hl, h⟩ := bind_eq_ok h
  obtain ⟨wr, hwr, h⟩ := bind_eq_ok h
  obtain ⟨r, hr, h⟩ := bind_eq_ok h
  split at h
  · rename_i sql hsql
    cases h
    exact fragment_arithmetic (fragment_sqlOf (hleft.eval c wl hwl) hl)
      (fragment_sqlOf (hright.eval c wr hwr) hr) hsql
  · cases h

theorem proper_sequence {items : List Expr} (h : ∀ e ∈ items, Compiles e) {v : Value}
    (hv : (do return Value.sequence (← c.compileAll items)) = .ok v) : v.Proper := by
  obtain ⟨texts, htexts, hv⟩ := bind_eq_ok hv
  cases hv
  exact fragment_compileAll h htexts

end Context

/-- A comprehension has no value of its own; as the argument of a quantifier it needs one clause. -/
theorem compiles_comprehension {e element : Expr} {clauses : List (Clause Expr)}
    (he : e.comprehensionParts? = some (element, clauses))
    (helement : Compiles element) (targets : ∀ c ∈ clauses, IsName c.target)
    (sources : ∀ c ∈ clauses, Compiles c.source)
    (conditions : ∀ c ∈ clauses, ∀ e ∈ c.conditions, Compiles e) : Compiles e where
  eval c v h := by
    cases e with
    | listComp => simp [Context.eval] at h
    | generator => simp [Context.eval] at h
    | _ => cases he
  quantified c v h := by
    obtain @⟨element', array, target, filters, path, own, others, hparts, hpath, hown, hothers⟩ :=
      quantified_of_answer h
    cases he.symm.trans hparts
    have hroot := Context.fragment_fieldPath (sources _ List.mem_cons_self) hpath
    have hothersFragment : ∀ p ∈ others.getD [], Fragment p := by
      cases others with
      | none => simp
      | some parts => exact Context.fragment_conditions (conditions _ List.mem_cons_self) hothers
    have htarget := isWord_of_isIdentifier (targets _ List.mem_cons_self).1
    refine fragment_existence hroot htarget.fragment fun p hp => ?_
    obtain hp | hp := List.mem_append.1 hp
    · exact Context.fragment_compile helement (hown p (Option.mem_toList.1 hp))
    · exact hothersFragment p hp
  receiver value label heq := by
    subst heq
    cases he

end DocQuery.Sql

namespace DocQuery

open Sql

theorem compiles_literal (l : Literal) : Compiles (.literal l) := by
  refine .of_eval (fun c v hv => ?_) rfl rfl
  cases hv
  exact l.fragment_sql

theorem compiles_subscript {value index : Expr} (h : Compiles value) :
    Compiles (.subscript value index) := by
  refine .of_eval (fun c v hv => ?_) rfl rfl
  rw [Context.eval] at hv
  obtain ⟨w, hw, hv⟩ := bind_eq_ok hv
  exact Context.proper_itemOf (h.eval c w hw) hv

theorem compiles_expr {a : Positional Expr} (h : Compiles a.value) : Compiles a.expr := by
  obtain ⟨spread, value⟩ := a
  cases spread with
  | false => exact h
  | true => exact .of_eval (fun c v hv => by simp [Positional.expr, Context.eval] at hv) rfl rfl

/-- The trees of the grammar have proper values only. -/
theorem Parsed.compiles {e : Expr} (h : Parsed e) : Compiles e := by
  induction h with
  | lambda => exact .of_eval (fun c v hv => by simp [Context.eval] at hv) rfl rfl
  | none => exact compiles_literal .none
  | bool b => exact compiles_literal (.bool b)
  | int n => exact compiles_literal (.int n)
  | float digits exponent => exact compiles_literal (.float _)
  | str s => exact compiles_literal (.str s)
  | name h =>
    refine .of_eval (fun c v hv => ?_) rfl rfl
    cases hv
    exact Context.proper_named h
  | attr _ hlabel ih =>
    refine ⟨fun c v hv => ?_, fun c v hv => by simp [Context.quantified] at hv, ?_⟩
    · rw [Context.eval] at hv
      obtain ⟨w, hw, hv⟩ := bind_eq_ok hv
      exact Context.proper_attributeOf hlabel (ih.eval c w hw) hv
    · rintro _ _ ⟨⟩
      exact ih.eval
  | binary op _ _ ihLeft ihRight =>
    exact .of_eval (fun c v hv => Context.proper_binary ihLeft ihRight hv) rfl rfl
  | unary op h ih => exact .of_eval (fun c v hv => Context.proper_unary h ih hv) rfl rfl
  | compare _ links _ _ ihLeft ih =>
    refine .of_eval (fun c v hv => ?_) rfl rfl
    refine Context.proper_compare ihLeft (fun e he => ?_) (compared_of_eval hv)
    obtain ⟨l, hl, rfl⟩ := List.mem_map.1 he
    exact ih l hl
  | boolean op first second others _ ih =>
    exact .of_eval (fun c v hv => Context.proper_boolean ih hv) rfl rfl
  | conditional _ _ _ ihTest ihBody ihOtherwise =>
    exact .of_eval (fun c v hv => Context.proper_conditional ihTest ihBody ihOtherwise hv) rfl rfl
  | call _ args keywords _ _ _ ih ihArgs =>
    refine .of_eval (fun c v hv => ?_) rfl rfl
    refine Context.proper_call ih (fun e he => ?_) (called_of_eval hv)
    obtain ⟨a, ha, rfl⟩ := List.mem_map.1 he
    exact compiles_expr (ihArgs a ha)
  | subscript _ i _ _ ih => exact compiles_subscript ih
  | subscripts _ indices _ _ ih => exact compiles_subscript ih
  | list items _ ih =>
    refine .of_eval (fun c v hv => ?_) rfl rfl
    rw [Context.eval] at hv
    exact Context.proper_sequence ih hv
  | tuple items _ ih =>
    refine .of_eval (fun c v hv => ?_) rfl rfl
    rw [Context.eval] at hv
    exact Context.proper_sequence ih hv
  | listComp _ clauses _ targets _ _ ih ihSources ihConditions =>
    exact compiles_comprehension rfl ih targets ihSources ihConditions
  | generator _ clauses _ targets _ _ ih ihSources ihConditions =>
    exact compiles_comprehension rfl ih targets ihSources ihConditions
  | display => exact .of_eval (fun c v hv => by simp [Context.eval] at hv) rfl rfl

end DocQuery
