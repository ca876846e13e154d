import Paac.Library.IndexMap

set_option autoImplicit false

/-!
# Cedar policies over a context record

The part of the Cedar policy language in which conditions read attributes of `context`, compare
them with string literals, test membership in sets, and combine the answers with `!`, `&&` and
`||`; policies whose scope is open or fixes the action; and the authorization decision. A policy
whose condition raises an error is skipped, a satisfied `forbid` overrides every `permit`, and
without a satisfied `permit` the answer is deny.

Evaluation is in the order of the language: `&&` and `||` look at their right operand only when the
left one leaves the answer open, so an error on the right may go unnoticed. `EvalsTo` says that a
condition evaluates to a Boolean, `holds` that it evaluates to true; the lemmas on chains of
conjuncts hold for `holds` also where a part raises an error.

## Main results

- `Expr.eval_congr`, `holds_congr`: a condition depends on the attributes that it reads only.
- `evalsTo_orAll`, `evalsTo_andAll`: chains of disjuncts and conjuncts have the expected value when
  their parts have one.
- `holds_and`, `holds_andAll`: a conjunction holds when its parts do, errors included.
- `decision_eq_allow_iff`: what an allow takes: a satisfied permit, and no satisfied forbid.
- `decision_congr`: policies that are satisfied alike decide alike.
-/

namespace Paac.Cedar

/-! ## Values and expressions -/

/-- Cedar values as far as string conditions can tell them apart: `other` stands for numbers,
records, entities and extension values, none of which equals a string. -/
inductive Value where
  | bool (b : Bool)
  | str (s : String)
  | set (items : List Value)
  | other

/-- The value is the string `s`. -/
def Value.isStr (s : String) : Value → Bool
  | .str t => t = s
  | _ => false

/-- A context record. -/
abbrev Record := List (String × Value)

/-- Conditions over `context`. -/
inductive Expr where
  /-- `context.name` -/
  | attr (name : String)
  /-- `e == "s"` -/
  | eqStr (e : Expr) (s : String)
  /-- `e.contains("s")` -/
  | containsStr (e : Expr) (s : String)
  /-- `!e` -/
  | not (e : Expr)
  /-- `a && b` -/
  | and (a b : Expr)
  /-- `a || b` -/
  | or (a b : Expr)
  deriving DecidableEq, Repr

inductive EvalError where
  | missingAttribute (name : String)
  | typeError
  deriving DecidableEq, Repr

/-- The Boolean a value is, or a type error. -/
def asBool : Value → Except EvalError Bool
  | .bool b => .ok b
  | _ => .error .typeError

/-- Evaluation; `&&` and `||` evaluate their right operand only when the left one leaves the
answer open. -/
def Expr.eval (c : Record) : Expr → Except EvalError Value
  | .attr name =>
      match lookupEntry name c with
      | some v => .ok v
      | none => .error (.missingAttribute name)
  | .eqStr e s => (e.eval c).map fun v => .bool (v.isStr s)
  | .containsStr e s =>
      match e.eval c with
      | .ok (.set items) => .ok (.bool (items.any (Value.isStr s)))
      | .ok _ => .error .typeError
      | .error err => .error err
  | .not e => ((e.eval c).bind asBool).map fun b => .bool !b
  | .and a b =>
      ((a.eval c).bind asBool).bind fun left =>
        if left then ((b.eval c).bind asBool).map .bool else .ok (.bool false)
  | .or a b =>
      ((a.eval c).bind asBool).bind fun left =>
        if left then .ok (.bool true) else ((b.eval c).bind asBool).map .bool

section

variable (c : Record)

theorem Expr.eval_attr (name : String) :
    (Expr.attr name).eval c =
      match lookupEntry name c with
      | some v => .ok v
      | none => .error (.missingAttribute name) := rfl

theorem Expr.eval_eqStr (e : Expr) (s : String) :
    (Expr.eqStr e s).eval c = (e.eval c).map fun v => .bool (v.isStr s) := rfl

/-- Membership in anything but a set is a type error. -/
theorem Expr.eval_containsStr (e : Expr) (s : String) :
    (Expr.containsStr e s).eval c =
      match e.eval c with
      | .ok (.set items) => .ok (.bool (items.any (Value.isStr s)))
      | .ok _ => .error .typeError
      | .error err => .error err := rfl

theorem Expr.eval_not (e : Expr) :
    (Expr.not e).eval c = ((e.eval c).bind asBool).map fun b => .bool !b := rfl

theorem Expr.eval_and (a b : Expr) :
    (Expr.and a b).eval c = ((a.eval c).bind asBool).bind fun left =>
      if left then ((b.eval c).bind asBool).map .bool else .ok (.bool false) := rfl

theorem Expr.eval_or (a b : Expr) :
    (Expr.or a b).eval c = ((a.eval c).bind asBool).bind fun left =>
      if left then .ok (.bool true) else ((b.eval c).bind asBool).map .bool := rfl

end

/-- The attributes an expression reads. -/
def Expr.attrs : Expr → List String
  | .attr name => [name]
  | .eqStr e _ => e.attrs
  | .containsStr e _ => e.attrs
  | .not e => e.attrs
  | .and a b => a.attrs ++ b.attrs
  | .or a b => a.attrs ++ b.attrs

/-- **Coincidence.** Evaluation depends on the attributes an expression reads and on nothing
else of the record. -/
theorem Expr.eval_congr {c c' : Record} (e : Expr)
    (h : ∀ a ∈ e.attrs, lookupEntry a c = lookupEntry a c') : e.eval c = e.eval c' := by
  induction e with
  | attr name =>
      have hname := h name List.mem_cons_self
      rw [eval_attr, eval_attr, hname]
  | eqStr e s ih => rw [eval_eqStr, eval_eqStr, ih h]
  | containsStr e s ih => rw [eval_containsStr, eval_containsStr, ih h]
  | not e ih => rw [eval_not, eval_not, ih h]
  | and a b iha ihb =>
      have ha := iha fun x hx => h x (List.mem_append_left _ hx)
      have hb := ihb fun x hx => h x (List.mem_append_right _ hx)
      rw [eval_and, eval_and, ha, hb]
  | or a b iha ihb =>
      have ha := iha fun x hx => h x (List.mem_append_left _ hx)
      have hb := ihb fun x hx => h x (List.mem_append_right _ hx)
      rw [eval_or, eval_or, ha, hb]

/-! ## Conditions that evaluate to a Boolean -/

/-- The condition evaluates, without error, to `b`. -/
def EvalsTo (c : Record) (e : Expr) (b : Bool) : Prop := e.eval c = .ok (.bool b)

/-- The condition is satisfied. -/
def holds (c : Record) (e : Expr) : Bool :=
  match e.eval c with
  | .ok (.bool b) => b
  | _ => false

theorem EvalsTo.holds_eq {c : Record} {e : Expr} {b : Bool} (h : EvalsTo c e b) :
    holds c e = b := by
  show (match e.eval c with | .ok (.bool b) => b | _ => false) = b
  rw [show e.eval c = .ok (.bool b) from h]

theorem holds_congr {c c' : Record} (e : Expr)
    (h : ∀ a ∈ e.attrs, lookupEntry a c = lookupEntry a c') : holds c e = holds c' e := by
  show (match e.eval c with | .ok (.bool b) => b | _ => false) = _
  rw [e.eval_congr h]
  rfl

theorem evalsTo_attr {c : Record} {a : String} {b : Bool}
    (h : lookupEntry a c = some (.bool b)) : EvalsTo c (.attr a) b :=
  (Expr.eval_attr c a).trans (by rw [h])

theorem evalsTo_eqStr {c : Record} {a : String} {v : Value} (s : String)
    (h : lookupEntry a c = some v) : EvalsTo c (.eqStr (.attr a) s) (v.isStr s) := by
  apply (Expr.eval_eqStr c (.attr a) s).trans
  rw [Expr.eval_attr, h]
  rfl

theorem any_isStr (ss : List String) (s : String) :
    (ss.map Value.str).any (Value.isStr s) = ss.contains s := by
  induction ss with
  | nil => rfl
  | cons t ss ih =>
      rw [List.map_cons, List.any_cons, ih, List.contains_cons]
      by_cases h : t = s
      · simp [Value.isStr, h]
      · have h' : ¬s = t := fun e => h e.symm
        simp [Value.isStr, h, h']

/-- Membership has a value when the attribute is a set of strings. -/
theorem evalsTo_containsStr {c : Record} {a : String} {ss : List String} (s : String)
    (h : lookupEntry a c = some (.set (ss.map .str))) :
    EvalsTo c (.containsStr (.attr a) s) (ss.contains s) := by
  apply (Expr.eval_containsStr c (.attr a) s).trans
  rw [Expr.eval_attr, h]
  exact congrArg (fun b => Except.ok (Value.bool b)) (any_isStr ss s)

theorem EvalsTo.not {c : Record} {e : Expr} {b : Bool} (h : EvalsTo c e b) :
    EvalsTo c (.not e) (!b) := by
  apply (Expr.eval_not c e).trans
  rw [show e.eval c = .ok (.bool b) from h]
  rfl

theorem EvalsTo.and {c : Record} {e e' : Expr} {b b' : Bool} (h : EvalsTo c e b)
    (h' : EvalsTo c e' b') : EvalsTo c (.and e e') (b && b') := by
  apply (Expr.eval_and c e e').trans
  rw [show e.eval c = .ok (.bool b) from h, show e'.eval c = .ok (.bool b') from h']
  cases b <;> rfl

theorem EvalsTo.or {c : Record} {e e' : Expr} {b b' : Bool} (h : EvalsTo c e b)
    (h' : EvalsTo c e' b') : EvalsTo c (.or e e') (b || b') := by
  apply (Expr.eval_or c e e').trans
  rw [show e.eval c = .ok (.bool b) from h, show e'.eval c = .ok (.bool b') from h']
  cases b <;> rfl

/-- `e₁ && e₂ && ...`, grouped to the left as the grammar does. -/
def andAll (e : Expr) (es : List Expr) : Expr := es.foldl .and e

/-- `e₁ || e₂ || ...`, grouped to the left. -/
def orAll (e : Expr) (es : List Expr) : Expr := es.foldl .or e

/-- A disjunction of conditions that all evaluate. -/
theorem evalsTo_orAll {α : Type} {c : Record} (f : α → Expr) (g : α → Bool) (as : List α)
    (hall : ∀ a ∈ as, EvalsTo c (f a) (g a)) :
    ∀ {e : Expr} {b : Bool}, EvalsTo c e b → EvalsTo c (orAll e (as.map f)) (b || as.any g) := by
  induction as with
  | nil => intro e b h; simpa [orAll] using h
  | cons a as ih =>
      intro e b h
      have hstep := ih (fun x hx => hall x (List.mem_cons_of_mem _ hx))
        (h.or (hall a List.mem_cons_self))
      rw [List.any_cons, ← Bool.or_assoc]
      exact hstep

/-- A conjunction is satisfied exactly when its parts are; this needs no typing, since an error
in one part leaves the conjunction unsatisfied. -/
theorem holds_and (c : Record) (a b : Expr) : holds c (.and a b) = (holds c a && holds c b) := by
  show (match (Expr.and a b).eval c with | .ok (.bool b) => b | _ => false) =
    ((match a.eval c with | .ok (.bool b) => b | _ => false) &&
      match b.eval c with | .ok (.bool b) => b | _ => false)
  rw [Expr.eval_and]
  rcases ha : a.eval c with err | va
  · rfl
  · cases va with
    | bool x =>
        cases x with
        | false => rfl
        | true =>
            rcases hb : b.eval c with err | vb
            · rfl
            · cases vb <;> rfl
    | str s => rfl
    | set items => rfl
    | other => rfl

theorem holds_andAll (c : Record) (es : List Expr) :
    ∀ e : Expr, holds c (andAll e es) = (holds c e && es.all (holds c)) := by
  induction es with
  | nil => intro e; simp [andAll]
  | cons e' es ih =>
      intro e
      have hstep : andAll e (e' :: es) = andAll (.and e e') es := rfl
      rw [hstep, ih, holds_and, List.all_cons, Bool.and_assoc]

/-- A conjunction of conditions that all evaluate evaluates. -/
theorem evalsTo_andAll {c : Record} {es : List Expr} {bs : List Bool}
    (hall : List.Forall₂ (EvalsTo c) es bs) :
    ∀ {e : Expr} {b : Bool}, EvalsTo c e b → EvalsTo c (andAll e es) (b && bs.all id) := by
  induction hall with
  | nil => intro e b h; simpa [andAll] using h
  | cons hh _ ih =>
      intro e b h
      have hstep := ih (h.and hh)
      rw [List.all_cons, id, ← Bool.and_assoc]
      exact hstep

/-! ## Policies and decisions -/

/-- An entity identifier, such as `Action::"READ"`. -/
structure EntityUid where
  type : String
  id : String
  deriving DecidableEq, Repr

inductive Effect where
  | permit
  | forbid
  deriving DecidableEq, Repr

/-- A policy: the scope leaves principal and resource open and may fix the action; the
conditions are its `when` clauses. -/
structure Policy where
  annotations : List (String × String)
  effect : Effect
  action : Option EntityUid
  conditions : List Expr
  deriving DecidableEq, Repr

/-- `Policy::annotation`. -/
def Policy.annotation (p : Policy) (key : String) : Option String := lookupEntry key p.annotations

/-- An authorization request. -/
structure Request where
  principal : EntityUid
  action : EntityUid
  resource : EntityUid
  context : Record

/-- The scope of a policy admits the request. -/
def Policy.inScope (p : Policy) (q : Request) : Bool :=
  match p.action with
  | none => true
  | some a => q.action = a

/-- A policy is satisfied when the request is in scope and every condition evaluates to true. -/
def Policy.satisfied (q : Request) (p : Policy) : Bool :=
  p.inScope q && p.conditions.all (holds q.context)

/-- Evaluating the conditions in order raises an error. -/
def raisesError (c : Record) : List Expr → Bool
  | [] => false
  | e :: es =>
      match e.eval c with
      | .ok (.bool true) => raisesError c es
      | .ok (.bool false) => false
      | _ => true

/-- Evaluating the policy on the request raises an error. -/
def Policy.erring (q : Request) (p : Policy) : Bool := p.inScope q && raisesError q.context p.conditions

inductive Decision where
  | allow
  | deny
  deriving DecidableEq, Repr

/-- The satisfied policies of one effect, in order. -/
def satisfiedPolicies (ps : List Policy) (e : Effect) (q : Request) : List Policy :=
  ps.filter fun p => p.effect = e && p.satisfied q

/-- The decision: some permit is satisfied and no forbid is. -/
def decision (ps : List Policy) (q : Request) : Decision :=
  if (satisfiedPolicies ps .forbid q).isEmpty && !(satisfiedPolicies ps .permit q).isEmpty then
    .allow
  else .deny

/-- The policies that determine the decision. -/
def determining (ps : List Policy) (q : Request) : List Policy :=
  match decision ps q with
  | .allow => satisfiedPolicies ps .permit q
  | .deny => satisfiedPolicies ps .forbid q

/-- The policies skipped because of an error. -/
def erringPolicies (ps : List Policy) (q : Request) : List Policy := ps.filter (·.erring q)

/-- **Forbid overrides permit, deny by default.** -/
theorem decision_eq_allow_iff (ps : List Policy) (q : Request) :
    decision ps q = .allow ↔
      (∃ p ∈ ps, p.effect = .permit ∧ p.satisfied q = true) ∧
        ∀ p ∈ ps, p.effect = .forbid → p.satisfied q = false := by
  have hperm : (satisfiedPolicies ps .permit q).isEmpty = false ↔
      ∃ p ∈ ps, p.effect = .permit ∧ p.satisfied q = true := by
    simp [satisfiedPolicies, List.isEmpty_eq_false_iff, List.filter_eq_nil_iff]
  have hforb : (satisfiedPolicies ps .forbid q).isEmpty = true ↔
      ∀ p ∈ ps, p.effect = .forbid → p.satisfied q = false := by
    simp [satisfiedPolicies, List.filter_eq_nil_iff]
  rw [← hperm, ← hforb]
  unfold decision
  cases (satisfiedPolicies ps .forbid q).isEmpty <;>
    cases (satisfiedPolicies ps .permit q).isEmpty <;> simp

/-- Requests that satisfy the same policies get the same decision. -/
theorem decision_congr {ps : List Policy} {q q' : Request}
    (h : ∀ p ∈ ps, p.satisfied q = p.satisfied q') : decision ps q = decision ps q' := by
  have hsat : ∀ e, satisfiedPolicies ps e q = satisfiedPolicies ps e q' := by
    intro e
    refine List.filter_congr fun p hp => ?_
    rw [h p hp]
  simp only [decision, hsat]

end Paac.Cedar
