import DocQuery.Proofs.StackTexts
import DocQuery.Proofs.Parsed

/-! # Recovering the text of a lowered expression

Lowering an expression and recovering a text from the trace gives the expression back, except that a
connective of several operands comes back as one of two operands, nested to the right: the jumps of a
chain do not tell where it was written in parentheses.

* `Expr.nest`: connectives nested to the right, at every depth.
* `Parsed.recovered`: the steps of a tree of the grammar push a text that writes its nested form.
* `parse_text_ofText`: the same for the trace of a text.
-/

set_option autoImplicit false

namespace DocQuery

open DocQuery.Parser Token

/-! ## Nested connectives -/

namespace Expr

/-- A connective of two operands at a time, nested to the right. -/
def rightNested (op : BoolOp) : List Expr → Expr
  | a :: b :: c :: more => boolean op [a, rightNested op (b :: c :: more)]
  | operands => boolean op operands

mutual

/-- The expression with all its connectives nested to the right. -/
def nest : Expr → Expr
  | lambda params rest named body => lambda (nestParams params) rest named (nest body)
  | literal l => literal l
  | name id => name id
  | attr value label => attr (nest value) label
  | binary left op right => binary (nest left) op (nest right)
  | unary op operand => unary op (nest operand)
  | compare left ops operands => compare (nest left) ops (nestAll operands)
  | boolean op operands => rightNested op (nestAll operands)
  | conditional test body otherwise => conditional (nest test) (nest body) (nest otherwise)
  | call callee args keywords => call (nest callee) (nestAll args) (nestKeywords keywords)
  | starred value => starred (nest value)
  | subscript value index => subscript (nest value) (nest index)
  | slice lower upper step => slice (nestOption lower) (nestOption upper) (nestOption step)
  | list items => list (nestAll items)
  | tuple items => tuple (nestAll items)
  | listComp element clauses => listComp (nest element) (nestClauses clauses)
  | generator element clauses => generator (nest element) (nestClauses clauses)
  | display kind => display kind
termination_by structural e => e

def nestAll : List Expr → List Expr
  | [] => []
  | e :: es => nest e :: nestAll es
termination_by structural es => es

/-- The nested form of an expression that may be missing. -/
def nestOption : Option Expr → Option Expr
  | none => none
  | some e => some (nest e)
termination_by structural e => e

/-- The nested forms of the defaults of parameters. -/
def nestParams : List (Param Expr) → List (Param Expr)
  | [] => []
  | ⟨id, default⟩ :: ps => ⟨id, nestOption default⟩ :: nestParams ps
termination_by structural ps => ps

def nestKeywords : List (Keyword Expr) → List (Keyword Expr)
  | [] => []
  | ⟨label, value⟩ :: ks => ⟨label, nest value⟩ :: nestKeywords ks
termination_by structural ks => ks

/-- The nested forms of the clauses of a comprehension. -/
def nestClauses : List (Clause Expr) → List (Clause Expr)
  | [] => []
  | ⟨target, source, conditions⟩ :: cs =>
    ⟨target, nest source, nestAll conditions⟩ :: nestClauses cs
termination_by structural cs => cs

end

end Expr

attribute [local simp] Expr.lower Expr.nest

theorem nestAll_eq_map (es : List Expr) : Expr.nestAll es = es.map Expr.nest := by
  induction es with
  | nil => rfl
  | cons e es ih => rw [Expr.nestAll, ih, List.map_cons]

/-! ## Recovered expressions -/

/-- No floating-point number, and no point directly after digits, at any depth. -/
structure Expr.Recoverable (e : Expr) : Prop where
  no_float : ∀ x, ¬(Expr.literal (.float x)).Inside e
  no_digits : ∀ n label, ¬(Expr.attr (.literal (.int n)) label).Inside e

theorem Expr.Recoverable.part {e p : Expr} (h : e.Recoverable) (hp : p ∈ e.parts) : p.Recoverable :=
  ⟨fun x hi => h.no_float x (.part hp hi), fun n label hi => h.no_digits n label (.part hp hi)⟩

/-- Whatever steps an expression has, they recover its nested form. -/
def Recovered (e : Expr) : Prop := ∀ steps, e.lower = .ok steps → Recovers steps e.nest

theorem Expr.Recoverable.ne_float {l : Literal} (h : (Expr.literal l).Recoverable) (x : Float) :
    l ≠ .float x := by
  rintro rfl
  exact h.no_float x .self

theorem recoversAll_lowerAll {es : List Expr} (h : ∀ e ∈ es, Recovered e) {steps : List Step}
    (hs : Expr.lowerAll es = .ok steps) : RecoversAll steps (es.map Expr.nest) := by
  induction es generalizing steps with
  | nil =>
    cases hs
    exact recoversAll_nil
  | cons e es ih =>
    rw [Expr.lowerAll] at hs
    obtain ⟨a, ha, hs⟩ := bind_eq_ok hs
    obtain ⟨b, hb, hs⟩ := bind_eq_ok hs
    cases hs
    exact (h e List.mem_cons_self a ha).cons (ih (fun e he => h e (List.mem_cons_of_mem _ he)) hb)

theorem eq_map_of_literals? {es : List Expr} {ls : List Literal}
    (h : Expr.literals? es = some ls) : es = ls.map .literal := by
  induction es generalizing ls with
  | nil =>
    cases h
    rfl
  | cons e es ih =>
    cases e with
    | literal l =>
      obtain ⟨ms, hms, rfl⟩ := Option.map_eq_some_iff.1 h
      rw [ih hms, List.map_cons]
    | _ => cases h

theorem recovered_literal {l : Literal} (h : Parsed (.literal l))
    (hr : (Expr.literal l).Recoverable) : Recovered (.literal l) := by
  intro steps hs
  have hconstant := h.constant hr.ne_float
  cases hs
  exact recovers_load rfl (by simp [Step.constant])
    (fun _ _ => (congrArg (· >>= _) hconstant.text).trans rfl) hconstant.spelled

theorem map_nest_literal (ls : List Literal) :
    (ls.map Expr.literal).map Expr.nest = ls.map Expr.literal := by
  simp [Function.comp_def]

theorem recovered_tuple {es : List Expr} (h : ∀ e ∈ es, Recovered e)
    (hconstant : ∀ l, Expr.literal l ∈ es → l.Constant) : Recovered (.tuple es) := by
  intro steps hs
  rw [Expr.lower] at hs
  rw [Expr.nest, nestAll_eq_map]
  split at hs
  · rename_i ls hls
    cases hs
    cases eq_map_of_literals? hls
    rw [map_nest_literal]
    exact recovers_constants fun l hl => hconstant l (List.mem_map_of_mem hl)
  · obtain ⟨a, ha, hs⟩ := bind_eq_ok hs
    cases hs
    simpa using recovers_tuple (recoversAll_lowerAll h ha)

theorem recovered_list {es : List Expr} (h : ∀ e ∈ es, Recovered e)
    (hconstant : ∀ l, Expr.literal l ∈ es → l.Constant) : Recovered (.list es) := by
  intro steps hs
  rw [Expr.lower] at hs
  rw [Expr.nest, nestAll_eq_map]
  split at hs
  · rename_i k l m more hls
    cases hs
    cases eq_map_of_literals? hls
    rw [map_nest_literal]
    exact recovers_constantList (fun l hl => hconstant l (List.mem_map_of_mem hl)) (by simp)
  · obtain ⟨a, ha, hs⟩ := bind_eq_ok hs
    cases hs
    simpa using recovers_list (recoversAll_lowerAll h ha)

/-- A chain is recovered from its end: the jump after an operand leads to the end of the chain. -/
theorem recovers_lowerChain (op : BoolOp) (others : List Expr) {first second : Expr}
    (h : ∀ e ∈ first :: second :: others, Recovered e) {steps : List Step}
    (hs : Expr.lowerChain op (first :: second :: others) = .ok steps) :
    Recovers steps (Expr.rightNested op ((first :: second :: others).map Expr.nest)) := by
  induction others generalizing first second steps with
  | nil =>
    rw [Expr.lowerChain] at hs
    · obtain ⟨a, ha, hs⟩ := bind_eq_ok hs
      obtain ⟨b, hb, hs⟩ := bind_eq_ok hs
      cases hs
      rw [Expr.lowerChain] at hb
      exact recovers_chain op (h first (by simp) a ha) (h second (by simp) b hb)
    · simp
  | cons third others ih =>
    rw [Expr.lowerChain] at hs
    · obtain ⟨a, ha, hs⟩ := bind_eq_ok hs
      obtain ⟨b, hb, hs⟩ := bind_eq_ok hs
      cases hs
      have hrest := ih (fun e he => h e (List.mem_cons_of_mem _ he)) hb
      exact recovers_chain op (h first (by simp) a ha) hrest
    · simp

theorem nest_ne_int {e : Expr} (h : ∀ n, e ≠ .literal (.int n)) (n : Int) :
    e.nest ≠ .literal (.int n) := by
  cases e with
  | literal l => exact h n
  | boolean op operands =>
    rw [Expr.nest]
    unfold Expr.rightNested
    split <;> exact nofun
  | _ => simp

theorem Parsed.ne_slice {e : Expr} (h : Parsed e) (lower upper step : Option Expr) :
    e ≠ .slice lower upper step := by
  rintro rfl
  cases h

theorem recovered_subscript {value index : Expr} (hvalue : Recovered value)
    (hindex : Recovered index) (h : ∀ lower upper step, index ≠ .slice lower upper step) :
    Recovered (.subscript value index) := by
  intro steps hs
  rw [Expr.lower] at hs
  · obtain ⟨a, ha, hs⟩ := bind_eq_ok hs
    obtain ⟨b, hb, hs⟩ := bind_eq_ok hs
    cases hs
    rw [Expr.nest]
    exact recovers_subscript (hvalue a ha) (hindex b hb)
  · exact h

theorem recovered_compare {left : Expr} {links : List (CmpOp × Expr)} (hne : links ≠ [])
    (hleft : Recovered left) (h : ∀ l ∈ links, Recovered l.2) :
    Recovered (.compare left (links.map (·.1)) (links.map (·.2))) := by
  intro steps hs
  match links with
  | [] => exact absurd rfl hne
  | [(op, right)] =>
    rw [List.map_singleton, List.map_singleton, Expr.lower] at hs
    obtain ⟨a, ha, hs⟩ := bind_eq_ok hs
    obtain ⟨b, hb, hs⟩ := bind_eq_ok hs
    cases hs
    exact recovers_compare op (hleft a ha) (h _ List.mem_cons_self b hb)
  | _ :: _ :: _ => simp at hs

/-- Only positional arguments that are not spread have steps. -/
theorem recovered_call {callee : Expr} {args : List (Positional Expr)}
    {keywords : List (Keyword Expr)} (h : Recovered callee)
    (hargs : ∀ a ∈ args, a.spread = false → Recovered a.value) :
    Recovered (.call callee (args.map (·.expr)) keywords) := by
  intro steps hs
  rw [Expr.lower] at hs
  split at hs
  · cases hs
  · rename_i hplain
    obtain ⟨a, ha, hs⟩ := bind_eq_ok hs
    obtain ⟨b, hb, hs⟩ := bind_eq_ok hs
    cases hs
    simp only [Bool.or_eq_true, Bool.not_eq_true', List.isEmpty_eq_false_iff, not_or, ne_eq,
      Decidable.not_not, List.any_eq_true, not_exists, not_and, List.forall_mem_map] at hplain
    obtain ⟨rfl, hspread⟩ := hplain
    have hitems : ∀ e ∈ args.map (·.expr), Recovered e := by
      intro e he
      obtain ⟨⟨spread, value⟩, harg, rfl⟩ := List.mem_map.1 he
      cases spread with
      | false => exact hargs _ harg rfl
      | true => exact absurd rfl (hspread _ harg)
    rw [Expr.nest, nestAll_eq_map, Expr.nestKeywords]
    simpa using recovers_call (h a ha) (recoversAll_lowerAll hitems hb)

/-- Every lowered tree of the grammar is recovered in its nested form. -/
theorem Parsed.recovered {e : Expr} (h : Parsed e) : e.Recoverable → Recovered e := by
  -- On the tree: its steps push one text, made of the texts that the steps of its parts push. The
  -- forms that have no steps are vacuous.
  induction h with
  | lambda params rest named =>
    intro _ steps hs
    cases params <;> cases rest <;> cases named <;> simp [Expr.notLowerable] at hs
  | none => exact recovered_literal .none
  | bool b => exact recovered_literal (.bool b)
  | int n hn => exact recovered_literal (.int n hn)
  | float digits exponent => exact recovered_literal (.float digits exponent)
  | str s => exact recovered_literal (.str s)
  | name h =>
    intro _ steps hs
    cases hs
    exact recovers_name h
  | attr _ hlabel ih =>
    intro hr steps hs
    rw [Expr.lower] at hs
    obtain ⟨a, ha, hs⟩ := bind_eq_ok hs
    cases hs
    refine recovers_attr (ih (hr.part (by simp [Expr.parts])) a ha) hlabel (nest_ne_int ?_)
    rintro n rfl
    exact hr.no_digits n _ .self
  | binary op _ _ ihLeft ihRight =>
    intro hr steps hs
    rw [Expr.lower] at hs
    obtain ⟨a, ha, hs⟩ := bind_eq_ok hs
    obtain ⟨b, hb, hs⟩ := bind_eq_ok hs
    cases hs
    exact recovers_binary op (ihLeft (hr.part (by simp [Expr.parts])) a ha)
      (ihRight (hr.part (by simp [Expr.parts])) b hb)
  | unary op _ ih =>
    intro hr steps hs
    rw [Expr.lower] at hs
    obtain ⟨a, ha, hs⟩ := bind_eq_ok hs
    cases hs
    exact recovers_unary op (ih (hr.part (by simp [Expr.parts])) a ha)
  | compare _ links some _ ihLeft ih =>
    intro hr
    refine recovered_compare some (ihLeft (hr.part (by simp [Expr.parts]))) fun l hl => ?_
    exact ih l hl (hr.part (List.mem_cons_of_mem _ (List.mem_map_of_mem hl)))
  | boolean op first second others _ ih =>
    intro hr steps hs
    rw [Expr.lower] at hs
    rw [Expr.nest, nestAll_eq_map]
    exact recovers_lowerChain op others (fun e he => ih e he (hr.part he)) hs
  | conditional => exact fun _ _ hs => by simp [Expr.notLowerable] at hs
  | call _ args keywords _ _ _ ih ihArgs =>
    intro hr
    refine recovered_call (ih (hr.part (by simp [Expr.parts]))) fun a ha hspread => ?_
    have hpart : a.expr.Recoverable :=
      hr.part (List.mem_cons_of_mem _ (List.mem_append_left _ (List.mem_map_of_mem ha)))
    exact ihArgs a ha (by simpa [Positional.expr, hspread] using hpart)
  | subscript _ i single parts ih ihParts =>
    intro hr
    cases i with
    | single index =>
      exact recovered_subscript (ih (hr.part (by simp [Expr.parts])))
        (ihParts index List.mem_cons_self (hr.part (by simp [Expr.parts, Index.expr])))
        (parts index List.mem_cons_self).ne_slice
    | slice lower upper step => exact fun _ hs => by simp [Index.expr] at hs
  | subscripts _ indices some parts ih ihParts =>
    intro hr
    have htuple : (Expr.tuple (indices.map (·.expr))).Recoverable := hr.part (by simp [Expr.parts])
    refine recovered_subscript (ih (hr.part (by simp [Expr.parts])))
      (recovered_tuple (fun e he => ?_) fun l hl => ?_) (by simp)
    · have hpart := htuple.part he
      obtain ⟨i, hi, rfl⟩ := List.mem_map.1 he
      cases i with
      | single e => exact ihParts _ hi e List.mem_cons_self hpart
      | slice lower upper step =>
        exact fun _ hs => by simp [Index.expr, Expr.notLowerable] at hs
    · have hpart := htuple.part hl
      obtain ⟨i, hi, heq⟩ := List.mem_map.1 hl
      cases i with
      | single e =>
        cases heq
        exact (parts _ hi _ List.mem_cons_self).constant (hpart.ne_float)
      | slice lower upper step => cases heq
  | list items h ih =>
    intro hr
    exact recovered_list (fun e he => ih e he (hr.part he))
      fun l hl => (h _ hl).constant (hr.part hl).ne_float
  | tuple items h ih =>
    intro hr
    exact recovered_tuple (fun e he => ih e he (hr.part he))
      fun l hl => (h _ hl).constant (hr.part hl).ne_float
  | listComp => exact fun _ _ hs => by simp [Expr.notLowerable] at hs
  | generator => exact fun _ _ hs => by simp [Expr.notLowerable] at hs
  | display => exact fun _ _ hs => by simp [Expr.notLowerable] at hs

/-! ## Traces of texts -/

theorem ofExpr_eq_ok {e : Expr} {c : Trace} (h : Trace.ofExpr e = .ok c) (hparams : c.params = []) :
    ∃ body steps, Source.bodyOf e = .ok body ∧ body.lower = .ok steps ∧
      c = ⟨[], Step.whole steps⟩ := by
  cases e with
  | lambda params rest named body =>
    obtain ⟨steps, hsteps, hc⟩ := bind_eq_ok h
    cases hc
    obtain ⟨rfl, rfl, rfl⟩ : params = [] ∧ rest = none ∧ named = none := by
      simpa [Trace.paramNames, and_assoc] using hparams
    exact ⟨body, steps, rfl, hsteps, rfl⟩
  | _ =>
    obtain ⟨steps, hsteps, hc⟩ := bind_eq_ok h
    cases hc
    exact ⟨_, steps, rfl, hsteps, rfl⟩

/-- A predicate that was lowered without parameters is recovered and read again, with its connectives
nested to the right. -/
theorem parse_text_ofText {t : String} {c : Trace} (hc : Trace.ofText t = .ok c)
    (hparams : c.params = []) :
    ∃ e, (Source.text t).expr = .ok e ∧
      ((∀ x, ¬(Expr.literal (.float x)).Inside e) →
        (∀ n label, ¬(Expr.attr (.literal (.int n)) label).Inside e) →
        c.code.length < 2 ^ 31 →
        ∃ d, c.text = .ok d ∧ Expr.parse d = .ok e.nest) := by
  obtain ⟨tree, hparse, hc⟩ := bind_eq_ok hc
  obtain ⟨e, steps, hbody, hsteps, rfl⟩ := ofExpr_eq_ok hc hparams
  have hexpr : (Source.text t).expr = .ok e := by
    rw [Source.expr, Source.toText]
    exact (congrArg (· >>= _) hparse).trans hbody
  refine ⟨e, hexpr, fun hfloat hdigits hlength => ?_⟩
  obtain ⟨d, hspell, hpush⟩ := (parsed_of_expr hexpr).recovered ⟨hfloat, hdigits⟩ steps hsteps
  exact ⟨d, text_whole hpush hlength, (hspell.loosen (by decide)).parse⟩

theorem parse_text_ofText_chain : ∃ (e : Expr) (c : Trace) (d : String),
    Trace.ofText "lambda: a and b and (c or -v[1, 2] in [4, None, 'x'])" = .ok c ∧ c.params = [] ∧
    (Source.text "lambda: a and b and (c or -v[1, 2] in [4, None, 'x'])").expr = .ok e ∧
    (∀ x, ¬(Expr.literal (.float x)).Inside e) ∧
    (∀ n label, ¬(Expr.attr (.literal (.int n)) label).Inside e) ∧ c.code.length < 2 ^ 31 ∧
    c.text = .ok d ∧ Expr.parse d = .ok e.nest := by
  let pair : Expr := .tuple [.literal (.int 1), .literal (.int 2)]
  let items : Expr := .list [.literal (.int 4), .literal .none, .literal (.str "x")]
  let value : Expr := .subscript (.name "v") pair
  let member : Expr := .compare (.unary .neg value) [.elemOf] [items]
  let choice : Expr := .boolean .or [.name "c", member]
  let e : Expr := .boolean .and [.name "a", .name "b", choice]
  -- The text is kept apart, so that nothing below reads it once more.
  obtain ⟨t, ht⟩ : ∃ t, t = "lambda: a and b and (c or -v[1, 2] in [4, None, 'x'])" := ⟨_, rfl⟩
  rw [← ht]
  have hparse : Expr.parse t = .ok (.lambda [] none none e) := by
    rw [ht]
    cbv
  have hinside : ∀ x : Expr, x.Inside e → x ∈ [e, .name "a", .name "b", choice, .name "c", member,
      .unary .neg value, value, .name "v", pair, .literal (.int 1), .literal (.int 2), items,
      .literal (.int 4), .literal .none, .literal (.str "x")] :=
    fun x hx => hx.mem_of_closed List.mem_cons_self
      (by simp [e, choice, member, value, items, pair, Expr.parts])
  have hfloat : ∀ x, ¬(Expr.literal (.float x)).Inside e := fun x hx => by
    simpa [e, choice, member, value, items, pair] using hinside _ hx
  have hdigits : ∀ n label, ¬(Expr.attr (.literal (.int n)) label).Inside e := fun n label hx => by
    simpa [e, choice, member, value, items, pair] using hinside _ hx
  obtain ⟨steps, hsteps, hlength⟩ : ∃ steps, e.lower = .ok steps ∧
      (Step.whole steps).length < 2 ^ 31 := ⟨_, rfl, by decide⟩
  have hc : Trace.ofText t = .ok ⟨[], Step.whole steps⟩ := by
    rw [Trace.ofText, hparse]
    change Trace.ofBody [] e = _
    rw [Trace.ofBody, hsteps]
    rfl
  have hsource : (Source.text t).expr = .ok e := by
    rw [Source.expr, Source.toText]
    exact (congrArg (· >>= _) hparse).trans rfl
  obtain ⟨e', hexpr, hrecovered⟩ := parse_text_ofText hc rfl
  cases Except.ok.inj (hexpr.symm.trans hsource)
  obtain ⟨d, htext, hread⟩ := hrecovered hfloat hdigits hlength
  exact ⟨e, _, d, hc, rfl, hexpr, hfloat, hdigits, hlength, htext, hread⟩

end DocQuery
