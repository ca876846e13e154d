import Mathlib

set_option autoImplicit false

/-!
# Programs with state, errors and visible events

`Eff ε σ κ α` is a program that reads and changes a state `σ`, may stop with an error `ε`, and emits
events `κ` on the way. Its run is a function of the state alone, and its outcome is a result, the
state it leaves, and the events in their order.

Events are output: nothing reads them, so what a sequence of programs emits is the concatenation of
what they emit. An error keeps the state and the events emitted before it, as a program that returns
early does. The predicate `Eff.Emits` says that every event of every run satisfies a property; it is
how a program is checked for what it never does.

## Main results

- `bind_eq_ok`, `bind_ok_eq`: what a sequence of fallible steps gives, step by step.
- `Eff.bind_ok`, `Eff.bind_error`: a sequence whose first part succeeds or fails, given the outcome
  of that part.
- `Eff.bind_result_ok`: a sequence succeeds exactly when both of its parts do.
- `Eff.Emits.bind`: what a sequence emits, part by part. With `emits_pure`, `emits_fail`,
  `emits_lift` and `emits_modify` a program is checked without running it.
-/

namespace Paac

/-! ## Fallible steps -/

/-- A chain of fallible steps succeeds exactly when each of them does. -/
theorem bind_eq_ok {ε α β : Type} {r : Except ε α} {f : α → Except ε β} {b : β} :
    (r >>= f) = .ok b ↔ ∃ a, r = .ok a ∧ f a = .ok b := by
  cases r with
  | error e => simp [bind, Except.bind]
  | ok a => simp [bind, Except.bind]

theorem bind_ok_eq {ε α β : Type} (a : α) (f : α → Except ε β) : (Except.ok a >>= f) = f a := rfl

/-! ## Programs -/

universe u

/-- How a run ends: its result, the state it leaves, and the events in order. -/
structure Outcome (ε σ κ α : Type u) where
  result : Except ε α
  state : σ
  events : List κ

/-- A program. -/
def Eff (ε σ κ α : Type u) : Type u := σ → Outcome ε σ κ α

namespace Eff

variable {ε σ κ α β : Type u}

/-- The outcome after some events. -/
def after (es : List κ) (o : Outcome ε σ κ α) : Outcome ε σ κ α := { o with events := es ++ o.events }

instance : Monad (Eff ε σ κ) where
  pure a := fun s => ⟨.ok a, s, []⟩
  bind m f := fun s =>
    match m s with
    | ⟨.ok a, s', es⟩ => after es (f a s')
    | ⟨.error e, s', es⟩ => ⟨.error e, s', es⟩

/-- Stop with an error. -/
def fail (e : ε) : Eff ε σ κ α := fun s => ⟨.error e, s, []⟩

/-- The result of a fallible computation. -/
def lift (r : Except ε α) : Eff ε σ κ α := fun s => ⟨r, s, []⟩

/-- Change the state. -/
def modify (f : σ → σ) : Eff ε σ κ PUnit := fun s => ⟨.ok ⟨⟩, f s, []⟩

theorem pure_apply (a : α) (s : σ) : (pure a : Eff ε σ κ α) s = ⟨.ok a, s, []⟩ := rfl

@[simp] theorem lift_apply (r : Except ε α) (s : σ) : (lift r : Eff ε σ κ α) s = ⟨r, s, []⟩ := rfl

@[simp] theorem after_nil (o : Outcome ε σ κ α) : after [] o = o := rfl

theorem bind_apply (m : Eff ε σ κ α) (f : α → Eff ε σ κ β) (s : σ) :
    (m >>= f) s = match m s with
      | ⟨.ok a, s', es⟩ => after es (f a s')
      | ⟨.error e, s', es⟩ => ⟨.error e, s', es⟩ := rfl

/-- A first program that succeeds hands its result and state on. -/
theorem bind_ok {m : Eff ε σ κ α} {s : σ} {a : α} (h : (m s).result = .ok a)
    (f : α → Eff ε σ κ β) : (m >>= f) s = after (m s).events (f a (m s).state) := by
  rw [bind_apply]
  rcases hm : m s with ⟨r, s', es⟩
  rw [hm] at h
  cases h
  rfl

/-- A first program that fails ends the sequence. -/
theorem bind_error {m : Eff ε σ κ α} {s : σ} {e : ε} (h : (m s).result = .error e)
    (f : α → Eff ε σ κ β) : (m >>= f) s = ⟨.error e, (m s).state, (m s).events⟩ := by
  rw [bind_apply]
  rcases hm : m s with ⟨r, s', es⟩
  rw [hm] at h
  cases h
  rfl

/-- A sequence succeeds exactly when its parts do. -/
theorem bind_result_ok {m : Eff ε σ κ α} {f : α → Eff ε σ κ β} {s : σ} {b : β} :
    ((m >>= f) s).result = .ok b ↔
      ∃ a, (m s).result = .ok a ∧ (f a (m s).state).result = .ok b := by
  cases h : (m s).result with
  | error e =>
      rw [bind_error h]
      simp
  | ok a =>
      rw [bind_ok h]
      simp [after]

/-- What is made of the result changes no state. -/
theorem bind_pure_state (m : Eff ε σ κ α) (f : α → β) (s : σ) :
    ((m >>= fun a => (pure (f a) : Eff ε σ κ β)) s).state = (m s).state := by
  cases h : (m s).result with
  | error e => rw [bind_error h]
  | ok a =>
      rw [bind_ok h]
      rfl

/-! ## Events -/

/-- Every event the program can emit satisfies `P`. -/
def Emits (m : Eff ε σ κ α) (P : κ → Prop) : Prop := ∀ s, ∀ e ∈ (m s).events, P e

variable {P : κ → Prop}

theorem emits_pure (a : α) : (pure a : Eff ε σ κ α).Emits P :=
  fun _ _ he => absurd he List.not_mem_nil

theorem emits_fail (e : ε) : (fail e : Eff ε σ κ α).Emits P :=
  fun _ _ he => absurd he List.not_mem_nil

theorem emits_lift (r : Except ε α) : (lift r : Eff ε σ κ α).Emits P :=
  fun _ _ he => absurd he List.not_mem_nil

theorem emits_modify (f : σ → σ) : (modify f : Eff ε σ κ PUnit).Emits P :=
  fun _ _ he => absurd he List.not_mem_nil

/-- What a sequence emits its parts emit. -/
theorem Emits.bind {m : Eff ε σ κ α} (hm : m.Emits P) {f : α → Eff ε σ κ β}
    (hf : ∀ a, (f a).Emits P) : (m >>= f).Emits P := by
  intro s e he
  cases h : (m s).result with
  | error err =>
      rw [bind_error h] at he
      exact hm s e he
  | ok a =>
      rw [bind_ok h] at he
      rcases List.mem_append.1 he with he | he
      · exact hm s e he
      · exact hf a _ e he

end Eff

end Paac
