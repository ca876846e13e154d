import Paac.Library.Cedar.Engine

set_option autoImplicit false

/-!
# Typing policies against a schema

What a schema says to conditions over `context`: for each action, the attributes a request carries
and their types. A condition has a type when every attribute it reads is declared and used at its
type, and a policy is well typed when its conditions are Boolean in the context of its action. The
schema is read out of its JSON text; an attribute that need not be there counts as undeclared, since
no condition of the grammar asks whether an attribute is present.

`Engine.ValidatesStrictly` is what a caller relies on in the parser and the strict validator of the
engine. What it must accept are texts of the grammar within the engine's own limits: no bare
carriage return in a literal, no annotation twice, no reserved word as an identifier, at most four
negations in a row (`Policy.Admissible`). A text with a bare carriage return in a literal is
refused, and the validator finds no error exactly where every policy is well typed.

## Main results

- `Expr.uses_declared`: a typed expression reads declared attributes only, at their types.
- `Policy.declared_of_wellTyped`: the same of a well-typed policy.
- `hasType_andAll`, `hasType_orAll`: chains have the type Boolean when their parts have it.
- `Printable.fewNegations`: printed policies stay within the engine's limit on negations.
- `Engine.typed_validatesStrictly`: an engine with this parser and type checker keeps to the
  assumption, whatever the schema text.
-/

namespace Paac.Cedar

/-! ## Schemas -/

/-- The types at which conditions read attributes. -/
inductive AttrType where
  | bool
  | str
  /-- A set of strings. -/
  | strSet
  deriving DecidableEq, Repr

/-- The attributes that every context of an action has. -/
abbrev ContextType := List (String × AttrType)

/-- The declared actions with their contexts. -/
abbrev SchemaType := List (String × ContextType)

/-- The type a JSON type expression denotes; the other types are of no use to a condition. -/
def AttrType.ofJson (j : Json) : Option AttrType :=
  match (j.get "type").bind Json.asStr with
  | some "Boolean" => some .bool
  | some "String" => some .str
  | some "Set" =>
      if (j.pointer ["element", "type"]).bind Json.asStr = some "String" then some .strSet else none
  | _ => none

/-- An attribute is required unless its declaration says otherwise. -/
def isRequired (j : Json) : Bool :=
  match j.get "required" with
  | some (.bool b) => b
  | _ => true

/-- The required attributes of a record type. An optional attribute counts as undeclared: no
condition of the grammar guards its access. -/
def ContextType.ofMembers (ms : List (String × Json)) : ContextType :=
  ms.filterMap fun m => if isRequired m.2 then (AttrType.ofJson m.2).map fun τ => (m.1, τ) else none

/-- The context of an action declaration. -/
def ContextType.ofAction (j : Json) : ContextType :=
  match j.pointer ["appliesTo", "context", "attributes"] with
  | some (.obj ms) => ContextType.ofMembers ms
  | _ => []

/-- The actions of the empty namespace. -/
def SchemaType.ofJson (j : Json) : Option SchemaType :=
  match j.pointer ["", "actions"] with
  | some (.obj actions) => some (actions.map fun a => (a.1, ContextType.ofAction a.2))
  | _ => none

/-- The schema a JSON text denotes. -/
def SchemaType.ofText (text : String) : Option SchemaType := (Json.parse text).bind SchemaType.ofJson

/-! ## Types of conditions -/

/-- The expression has the type `τ` in contexts of type `Γ`. -/
def Expr.hasType (Γ : ContextType) : AttrType → Expr → Bool
  | τ, .attr name => lookupEntry name Γ = some τ
  | .bool, .eqStr e _ => e.hasType Γ .str
  | .bool, .containsStr e _ => e.hasType Γ .strSet
  | .bool, .not e => e.hasType Γ .bool
  | .bool, .and a b => a.hasType Γ .bool && b.hasType Γ .bool
  | .bool, .or a b => a.hasType Γ .bool && b.hasType Γ .bool
  | _, _ => false

/-- The attributes an expression reads, each with the type its place asks for, when the expression
itself stands where a `τ` is due. -/
def Expr.uses : AttrType → Expr → List (String × AttrType)
  | τ, .attr name => [(name, τ)]
  | _, .eqStr e _ => e.uses .str
  | _, .containsStr e _ => e.uses .strSet
  | _, .not e => e.uses .bool
  | _, .and a b => a.uses .bool ++ b.uses .bool
  | _, .or a b => a.uses .bool ++ b.uses .bool

/-- A property that a conjunction has when its two parts have it. -/
theorem all_andAll (f : Expr → Bool) (hf : ∀ a b, f (.and a b) = (f a && f b)) (es : List Expr) :
    ∀ e : Expr, f (andAll e es) = (f e && es.all f) := by
  induction es with
  | nil => intro e; simp [andAll]
  | cons e' es ih =>
      intro e
      have hstep : andAll e (e' :: es) = andAll (.and e e') es := rfl
      rw [hstep, ih, hf, List.all_cons, Bool.and_assoc]

/-- A property that a disjunction has when its two parts have it. -/
theorem all_orAll (f : Expr → Bool) (hf : ∀ a b, f (.or a b) = (f a && f b)) (es : List Expr) :
    ∀ e : Expr, f (orAll e es) = (f e && es.all f) := by
  induction es with
  | nil => intro e; simp [orAll]
  | cons e' es ih =>
      intro e
      have hstep : orAll e (e' :: es) = orAll (.or e e') es := rfl
      rw [hstep, ih, hf, List.all_cons, Bool.and_assoc]

section

variable {Γ : ContextType}

/-- **A typed expression reads declared attributes only, at their types.** -/
theorem Expr.uses_declared {τ : AttrType} {e : Expr} (h : e.hasType Γ τ = true) :
    ∀ u ∈ e.uses τ, lookupEntry u.1 Γ = some u.2 := by
  induction e generalizing τ with
  | attr name =>
      intro u hu
      obtain rfl := List.mem_singleton.1 hu
      simpa [hasType] using h
  | eqStr e s ih =>
      cases τ with
      | bool => exact ih h
      | str => cases h
      | strSet => cases h
  | containsStr e s ih =>
      cases τ with
      | bool => exact ih h
      | str => cases h
      | strSet => cases h
  | not e ih =>
      cases τ with
      | bool => exact ih h
      | str => cases h
      | strSet => cases h
  | and a b iha ihb =>
      cases τ with
      | bool =>
          obtain ⟨ha, hb⟩ := Bool.and_eq_true_iff.1 h
          exact List.forall_mem_append.2 ⟨iha ha, ihb hb⟩
      | str => cases h
      | strSet => cases h
  | or a b iha ihb =>
      cases τ with
      | bool =>
          obtain ⟨ha, hb⟩ := Bool.and_eq_true_iff.1 h
          exact List.forall_mem_append.2 ⟨iha ha, ihb hb⟩
      | str => cases h
      | strSet => cases h

theorem hasType_andAll (es : List Expr) (e : Expr) :
    (andAll e es).hasType Γ .bool = (e.hasType Γ .bool && es.all (Expr.hasType Γ .bool)) :=
  all_andAll (Expr.hasType Γ .bool) (fun _ _ => rfl) es e

theorem hasType_orAll (es : List Expr) (e : Expr) :
    (orAll e es).hasType Γ .bool = (e.hasType Γ .bool && es.all (Expr.hasType Γ .bool)) :=
  all_orAll (Expr.hasType Γ .bool) (fun _ _ => rfl) es e

end

/-! ## Types of policies -/

/-- The contexts of the requests in the scope of the policy; a policy on an undeclared action has
none. -/
def Policy.contexts (S : SchemaType) (p : Policy) : Option (List ContextType) :=
  match p.action with
  | none => some (S.map Prod.snd)
  | some a => if a.type = "Action" then (lookupEntry a.id S).map fun Γ => [Γ] else none

/-- The conditions are Boolean in every context of the scope. -/
def Policy.wellTyped (S : SchemaType) (p : Policy) : Bool :=
  match p.contexts S with
  | some Γs => Γs.all fun Γ => p.conditions.all (Expr.hasType Γ .bool)
  | none => false

/-- Every attribute the policy reads is declared, in every context of the scope, with the type its
place asks for. -/
def Policy.Declared (S : SchemaType) (p : Policy) : Prop :=
  ∃ Γs, p.contexts S = some Γs ∧
    ∀ Γ ∈ Γs, ∀ e ∈ p.conditions, ∀ u ∈ e.uses .bool, lookupEntry u.1 Γ = some u.2

/-- **A well-typed policy reads declared attributes only, at their types.** -/
theorem Policy.declared_of_wellTyped {S : SchemaType} {p : Policy} (h : p.wellTyped S = true) :
    p.Declared S := by
  unfold wellTyped at h
  split at h
  · next Γs hΓs =>
      refine ⟨Γs, hΓs, fun Γ hΓ e he => ?_⟩
      have htyped := List.all_eq_true.1 (List.all_eq_true.1 h Γ hΓ) e he
      exact Expr.uses_declared htyped
  · cases h

/-- On a declared action the context is the declared one. -/
theorem Policy.wellTyped_action {S : SchemaType} {p : Policy} {name : String} {Γ : ContextType}
    (haction : p.action = some ⟨"Action", name⟩) (hΓ : lookupEntry name S = some Γ) :
    p.wellTyped S = p.conditions.all (Expr.hasType Γ .bool) := by
  have hcontexts : p.contexts S = some [Γ] := by
    simp [contexts, haction, hΓ]
  simp [wellTyped, hcontexts]

/-! ## The strict validator -/

/-- The words that the engine takes for no identifier. -/
def reservedWords : List String :=
  ["true", "false", "if", "then", "else", "in", "is", "like", "has", "__cedar"]

/-- The negations in front of an expression. -/
def Expr.negations : Expr → Nat
  | .not e => e.negations + 1
  | _ => 0

/-- The engine takes up to four negations in a row. -/
def Expr.fewNegations : Expr → Bool
  | .attr _ => true
  | .eqStr e _ => e.fewNegations
  | .containsStr e _ => e.fewNegations
  | .not e => decide (e.negations < 4) && e.fewNegations
  | .and a b => a.fewNegations && b.fewNegations
  | .or a b => a.fewNegations && b.fewNegations

/-- No annotation stands twice, the action is of the type that the engine asks for, no reserved word
is used as an attribute, and no more than four negations stand in a row. -/
structure Policy.Admissible (p : Policy) : Prop where
  annotations : (p.annotations.map Prod.fst).Nodup
  action : ∀ a ∈ p.action, a.type = "Action"
  attributes : ∀ e ∈ p.conditions, ∀ a ∈ e.attrs, a ∉ reservedWords
  negations : ∀ e ∈ p.conditions, e.fewNegations = true

theorem Atom.fewNegations (a : Atom) : a.expr.fewNegations = true := by
  cases a <;> rfl

theorem Atom.negations (a : Atom) : a.expr.negations = 0 := by
  cases a <;> rfl

theorem fewNegations_atoms (a : Atom) (as : List Atom) :
    (orAll a.expr (as.map Atom.expr)).fewNegations = true := by
  have hall : (as.map Atom.expr).all Expr.fewNegations = true := by
    simp [Atom.fewNegations]
  rw [all_orAll Expr.fewNegations (fun _ _ => rfl), hall, a.fewNegations]
  rfl

theorem negations_orAll (es : List Expr) :
    ∀ e : Expr, (orAll e es).negations ≤ e.negations := by
  induction es with
  | nil => exact fun e => le_refl _
  | cons e' es ih => exact fun e => (ih (.or e e')).trans (Nat.zero_le _)

theorem Factor.fewNegations (f : Factor) : f.expr.fewNegations = true := by
  cases f with
  | atom a => exact a.fewNegations
  | any a as => exact fewNegations_atoms a as
  | none a as =>
      -- the one negation stands before a disjunction of atoms
      have hinner := (negations_orAll (as.map Atom.expr) a.expr).trans_eq a.negations
      rw [Factor.expr, Expr.fewNegations, fewNegations_atoms]
      simp only [Bool.and_true, decide_eq_true_eq]
      omega

/-- A printed policy has no more negations in a row than the engine takes. -/
theorem Printable.fewNegations (p : Printable) :
    ∀ e ∈ p.policy.conditions, e.fewNegations = true := by
  have hall : (p.factors.map Factor.expr).all Expr.fewNegations = true := by
    simp [Factor.fewNegations]
  intro e he
  obtain rfl := List.mem_singleton.1 he
  rw [all_andAll Expr.fewNegations (fun _ _ => rfl), hall, p.first.fewNegations]
  rfl

/-- What a caller relies on who validates policy sets for the schema text in strict mode: admissible
texts of the grammar are policy sets, unless a literal of theirs holds a bare carriage return, which
is refused in every text; the schema text is a schema; and the validator finds no error exactly when
every policy is well typed. -/
structure Engine.ValidatesStrictly (E : Engine) (text : String) : Prop where
  parses : ∀ {src : String} {ps : List Policy}, parsePolicies src = some ps →
    hasBareReturn src = false → (∀ p ∈ ps, p.Admissible) → ∃ set, E.policySetFromStr src = .ok set
  refuses : ∀ {src : String} {set : E.PolicySet}, E.policySetFromStr src = .ok set →
    hasBareReturn src = false
  validates : ∀ {S : SchemaType}, SchemaType.ofText text = some S →
    ∃ schema, E.schemaFromJsonStr text = .ok schema ∧
      ∀ {src : String} {set : E.PolicySet} {ps : List Policy}, E.policySetFromStr src = .ok set →
        parsePolicies src = some ps →
          (E.validate schema set = [] ↔ ∀ p ∈ ps, p.wellTyped S = true)

/-- The reference engine with a validator, whose errors name the policies that are not well typed,
and with a parser that refuses bare carriage returns. -/
def Engine.typed : Engine :=
  { Engine.reference with
    policySetFromStr := fun src =>
      if hasBareReturn src then .error "parse error" else Engine.reference.policySetFromStr src
    Schema := SchemaType
    schemaFromJsonStr := fun text =>
      match SchemaType.ofText text with
      | some S => .ok S
      | none => .error "invalid schema"
    validate := fun S (ps : List Policy) =>
      ((withIds ps).filter fun p => !p.2.wellTyped S).map fun p =>
        "for policy `" ++ p.1 ++ "`, type error" }

/-- The ids leave the policies as they are. -/
theorem map_withIds (ps : List Policy) : (withIds ps).map Prod.snd = ps := by
  rw [withIds, List.map_map]
  exact List.zipIdx_map_fst 0 ps

/-- **The engine with the type checker validates strictly**, whatever the schema text. -/
theorem Engine.typed_validatesStrictly (text : String) : Engine.typed.ValidatesStrictly text where
  parses := by
    intro src ps hps hreturn _
    exact ⟨ps, by simp only [typed, reference, hps, hreturn]; rfl⟩
  refuses := by
    intro src set hset
    simp only [typed] at hset
    split_ifs at hset with hreturn
    exact Bool.eq_false_iff.2 hreturn
  validates := by
    intro S hS
    refine ⟨S, by simp only [typed, hS], fun {src set ps} hset hps => ?_⟩
    simp only [typed, reference, hps] at hset
    split_ifs at hset
    obtain rfl : ps = set := Except.ok.inj hset
    have herrors : Engine.typed.validate S ps = [] ↔
        ∀ e ∈ withIds ps, e.2.wellTyped S = true := by
      simp only [typed, List.map_eq_nil_iff, List.filter_eq_nil_iff, Bool.not_eq_true,
        Bool.not_eq_false']
    have hpolicies : (∀ e ∈ withIds ps, e.2.wellTyped S = true) ↔
        ∀ p ∈ (withIds ps).map Prod.snd, p.wellTyped S = true := by
      rw [List.forall_mem_map]
    rw [herrors, hpolicies, map_withIds]

end Paac.Cedar
