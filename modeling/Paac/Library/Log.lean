import Paac.Library.Effect

set_option autoImplicit false

/-!
# Properties of whole logs

A property of event lists that composes (it holds of the empty list, and of two lists put together
when it holds of both) holds of what a program emits as soon as it holds of what its parts emit.
That every event satisfies a predicate is the simplest such property; that the events pair up, as a
decision with its record, is another one that says more than a predicate on single events can.

## Main results

- `logs_bind`: a sequence logs as its parts do, with `logs_pure`, `logs_fail`, `logs_lift` and
  `logs_modify` for the programs that emit nothing.
- `composes_all`: that all events satisfy a predicate composes.
-/

namespace Paac

universe u

/-- The property holds of the empty log, and of one log after another. -/
structure Composes {κ : Type u} (P : List κ → Prop) : Prop where
  nil : P []
  append : ∀ {es es' : List κ}, P es → P es' → P (es ++ es')

theorem composes_all {κ : Type u} (P : κ → Prop) : Composes fun es => ∀ e ∈ es, P e where
  nil := fun _ he => absurd he List.not_mem_nil
  append := fun h h' _ he => (List.mem_append.1 he).elim (h _) (h' _)

namespace Eff

variable {ε σ κ α β : Type u}

/-- What the program emits has the property, however it ends. -/
def Logs (m : Eff ε σ κ α) (P : List κ → Prop) : Prop := ∀ s, P (m s).events

variable {P : List κ → Prop} (hP : Composes P)
include hP

theorem logs_pure (a : α) : (pure a : Eff ε σ κ α).Logs P := fun _ => hP.nil

theorem logs_fail (e : ε) : (fail e : Eff ε σ κ α).Logs P := fun _ => hP.nil

theorem logs_lift (r : Except ε α) : (lift r : Eff ε σ κ α).Logs P := fun _ => hP.nil

theorem logs_modify (f : σ → σ) : (modify f : Eff ε σ κ PUnit).Logs P := fun _ => hP.nil

/-- A sequence emits what its parts emit, one after the other. -/
theorem logs_bind {m : Eff ε σ κ α} (hm : m.Logs P) {f : α → Eff ε σ κ β}
    (hf : ∀ a, (f a).Logs P) : (m >>= f).Logs P := by
  intro s
  cases h : (m s).result with
  | error err =>
      rw [bind_error h]
      exact hm s
  | ok a =>
      rw [bind_ok h]
      exact hP.append (hm s) (hf a _)

end Eff

end Paac
