import Paac.Library.Effect
import Paac.Library.Run
import Paac.Library.Triple

set_option autoImplicit false

/-!
# Programs that run at the same time

A process is the tree of its atomic actions (`Proc`): which action it takes next depends on the
results of the actions before. Several processes share one state, and a run says whose turn it is; a
process that gets no further turn has stopped where it stands. Nothing is said of who may have a
turn, so a run is any interleaving whatever, and a process that stops is one of them.

`Protocol` is what the processes rely on and guarantee. `Proc.Keeps` is checked for each process
alone, against whatever the others may do between its turns: it has one rule for each way a process
is built (`atom`, `bind`, `fail`), so a program is checked in the order of its text.

## Main results

- `Proc.run_bind`: a sequence runs its parts one after the other. `Proc.run` is the process without
  the others, and connects a process to the sequential program of the same text.
- `Proc.Keeps.atom`, `Proc.Keeps.bind`: the step rules. What a process knows between two turns has
  to survive the turns of the others (`Later`), and what it has learned is handed on.
- `Pool.Keeps.step`: a turn of one process keeps what all of them promise.
- `Pool.keeps_run`: so every interleaving keeps the protocol, by induction on the run.
- `Pool.Keeps.answer`: a process that has ended keeps the promise about its result.
- `Proc.Keeps.triple`, `Proc.Keeps.within`: processes out of sequential programs, and processes on a
  part of the state.
-/

namespace Paac

/-! ## Sequencing -/

namespace Eff

universe u

variable {ε σ κ α β γ : Type u}

theorem after_after (es es' : List κ) (o : Outcome ε σ κ α) :
    after es (after es' o) = after (es ++ es') o := by
  simp [after]

theorem pure_bind (a : α) (f : α → Eff ε σ κ β) : (pure a >>= f) = f a := by
  funext s
  rw [bind_ok (a := a) rfl]
  rfl

theorem bind_pure (m : Eff ε σ κ α) : (m >>= pure) = m := by
  funext s
  rcases hm : m s with ⟨r, s', es⟩
  cases r with
  | error e =>
      rw [bind_error (e := e) (congrArg Outcome.result hm), hm]
  | ok a =>
      rw [bind_ok (a := a) (congrArg Outcome.result hm), hm]
      simp [after, pure_apply]

/-- Sequencing is associative, the events included. -/
theorem bind_assoc (m : Eff ε σ κ α) (f : α → Eff ε σ κ β) (g : β → Eff ε σ κ γ) :
    (m >>= f >>= g) = m >>= fun a => f a >>= g := by
  funext s
  rcases hm : m s with ⟨r, s', es⟩
  simp only [bind_apply, hm]
  cases r with
  | error e => rfl
  | ok a =>
      simp only
      rcases hf : f a s' with ⟨r', s'', es'⟩
      cases r' with
      | error e => rfl
      | ok b => exact (after_after es es' (g b s'')).symm

theorem fail_bind (e : ε) (f : α → Eff ε σ κ β) : (fail e >>= f) = fail e := by
  funext s
  rw [bind_error (e := e) rfl]
  rfl

end Eff

/-! ## Processes -/

/-- A process: finished, or about to take an action. -/
inductive Proc (ε σ κ α : Type) : Type 1 where
  | done (r : Except ε α)
  | act {β : Type} (m : Eff ε σ κ β) (next : β → Proc ε σ κ α)

namespace Proc

variable {ε σ κ α β : Type}

/-- One process after the other. -/
def bind : Proc ε σ κ α → (α → Proc ε σ κ β) → Proc ε σ κ β
  | .done (.ok a), f => f a
  | .done (.error e), _ => .done (.error e)
  | .act m next, f => .act m fun b => (next b).bind f

instance : Monad (Proc ε σ κ) where
  pure a := .done (.ok a)
  bind := bind

/-- One atomic action. -/
def atom (m : Eff ε σ κ α) : Proc ε σ κ α := .act m fun a => .done (.ok a)

/-- The process without others. -/
def run : Proc ε σ κ α → Eff ε σ κ α
  | .done r => Eff.lift r
  | .act m next => m >>= fun b => (next b).run

/-- What the process has returned, if it has. -/
def answer? : Proc ε σ κ α → Option α
  | .done (.ok a) => some a
  | _ => none

theorem eq_done_of_answer? {p : Proc ε σ κ α} {a : α} (h : p.answer? = some a) :
    p = .done (.ok a) := by
  unfold answer? at h
  split at h
  · rw [Option.some.inj h]
  · cases h

@[simp] theorem run_done (r : Except ε α) : (done r : Proc ε σ κ α).run = Eff.lift r := rfl

@[simp] theorem run_pure (a : α) : (pure a : Proc ε σ κ α).run = pure a := rfl

@[simp] theorem run_atom (m : Eff ε σ κ α) : (atom m).run = m := Eff.bind_pure m

/-- **A sequence runs its parts one after the other.** -/
@[simp] theorem run_bind (p : Proc ε σ κ α) (f : α → Proc ε σ κ β) :
    (p >>= f).run = p.run >>= fun a => (f a).run := by
  change (p.bind f).run = _
  induction p with
  | done r =>
      cases r with
      | ok a => exact (Eff.pure_bind a fun a => (f a).run).symm
      | error e => exact (Eff.fail_bind e _).symm
  | act m next ih =>
      rw [bind, run, run, Eff.bind_assoc]
      congr 1
      funext b
      exact ih b

@[simp] theorem run_ite (c : Prop) [Decidable c] (p q : Proc ε σ κ α) :
    (if c then p else q).run = if c then p.run else q.run := by
  split <;> rfl

end Proc

/-! ## A part of the state -/

/-- A part of a state, and how to replace it. -/
structure Part (σ τ : Type) where
  get : τ → σ
  set : σ → τ → τ
  get_set : ∀ a s, get (set a s) = a

variable {ε ε' σ τ κ α : Type}

/-- A program on a part of the state. -/
def Eff.within (part : Part σ τ) (f : ε → ε') (m : Eff ε σ κ α) : Eff ε' τ κ α := fun s =>
  let o := m (part.get s)
  ⟨o.result.mapError f, part.set o.state s, o.events⟩

/-- A process on a part of the state. -/
def Proc.within (part : Part σ τ) (f : ε → ε') : Proc ε σ κ α → Proc ε' τ κ α
  | .done r => .done (r.mapError f)
  | .act m next => .act (m.within part f) fun b => (next b).within part f

theorem mapError_eq_ok {f : ε → ε'} {r : Except ε α} {a : α} :
    r.mapError f = .ok a ↔ r = .ok a := by
  cases r <;> simp [Except.mapError]

/-- What a program does to a part of the state; the rest of the state is kept. -/
theorem Eff.Triple.within {A R : σ → Prop} {Q : α → σ → Prop} {m : Eff ε σ κ α}
    (part : Part σ τ) (f : ε → ε') (h : Eff.Triple A m Q R) {F : τ → Prop}
    (hF : ∀ s u, F s → F (part.set u s)) :
    Eff.Triple (fun t => A (part.get t) ∧ F t) (m.within part f)
      (fun a t => Q a (part.get t) ∧ F t) fun t => R (part.get t) ∧ F t := by
  intro t ht
  obtain ⟨hok, herror⟩ := h (part.get t) ht.1
  have hstate : part.get (m.within part f t).state = (m (part.get t)).state := part.get_set _ _
  have hframe : F (m.within part f t).state := hF t _ ht.2
  refine ⟨fun a ha => ⟨?_, hframe⟩, fun e he => ⟨?_, hframe⟩⟩
  · rw [hstate]
    exact hok a (mapError_eq_ok.1 ha)
  · rw [hstate]
    cases hr : (m (part.get t)).result with
    | ok a =>
        have hresult : (m.within part f t).result = .ok a := mapError_eq_ok.2 hr
        rw [hresult] at he
        cases he
    | error e' => exact herror e' hr

/-! ## Relying on each other -/

/-- How processes that share a state get along. -/
structure Protocol (ι σ : Type) where
  /-- What holds whenever a process is given a turn. -/
  Inv : σ → Prop
  /-- What every action of every process does at most. -/
  Step : σ → σ → Prop
  /-- What the actions of the others leave alone. -/
  Own : ι → σ → σ → Prop
  step_refl : ∀ s, Step s s
  step_trans : ∀ {s t u}, Step s t → Step t u → Step s u
  own_refl : ∀ i s, Own i s s
  own_trans : ∀ {i s t u}, Own i s t → Own i t u → Own i s u

namespace Protocol

variable {ι σ : Type} (P : Protocol ι σ)

/-- A state that some actions may leave. -/
def Since (s t : σ) : Prop := P.Step s t ∧ P.Inv t

/-- A state that some actions of the others may leave. -/
def Later (i : ι) (s t : σ) : Prop := P.Since s t ∧ P.Own i s t

variable {P} {i : ι} {s t u : σ}

theorem Since.refl (h : P.Inv s) : P.Since s s := ⟨P.step_refl s, h⟩

theorem Since.trans (h : P.Since s t) (h' : P.Since t u) : P.Since s u :=
  ⟨P.step_trans h.1 h'.1, h'.2⟩

theorem Later.refl (h : P.Inv s) : P.Later i s s := ⟨.refl h, P.own_refl i s⟩

theorem Later.trans (h : P.Later i s t) (h' : P.Later i t u) : P.Later i s u :=
  ⟨h.1.trans h'.1, P.own_trans h.2 h'.2⟩

theorem Later.inv (h : P.Later i s t) : P.Inv t := h.1.2

/-- What an action of process `i` does. -/
structure Allows (P : Protocol ι σ) (i : ι) (s t : σ) : Prop where
  since : P.Since s t
  own : ∀ j, j ≠ i → P.Own j s t

end Protocol

variable {β ι : Type} {P : Protocol ι σ} {i : ι}

/-- Whatever the others do between its turns, the process keeps the protocol, and a result it ends
with satisfies `Q` from then on. -/
def Proc.Keeps (P : Protocol ι σ) (i : ι) (Q : α → σ → Prop) : Proc ε σ κ α → σ → Prop
  | .done r, s => ∀ a, r = .ok a → ∀ t, P.Later i s t → Q a t
  | .act m next, s => ∀ t, P.Later i s t → P.Allows i t (m t).state ∧
      ∀ b, (m t).result = .ok b → Keeps P i Q (next b) (m t).state

namespace Proc.Keeps

variable {Q : α → σ → Prop} {p : Proc ε σ κ α} {s t : σ}

/-- What a process is promised stays promised while the others act. -/
theorem later (h : p.Keeps P i Q s) (ht : P.Later i s t) : p.Keeps P i Q t := by
  cases p with
  | done r => exact fun a ha u hu => h a ha u (ht.trans hu)
  | act m next => exact fun u hu => h u (ht.trans hu)

/-- A weaker promise. -/
theorem mono {R : α → σ → Prop} (h : p.Keeps P i Q s) (hR : ∀ a t, Q a t → R a t) :
    p.Keeps P i R s := by
  induction p generalizing s with
  | done r => exact fun a ha t ht => hR a t (h a ha t ht)
  | act m next ih =>
      intro t ht
      obtain ⟨hallows, hnext⟩ := h t ht
      exact ⟨hallows, fun b hb => ih b (hnext b hb)⟩

theorem pure {a : α} (h : ∀ t, P.Later i s t → Q a t) :
    (pure a : Proc ε σ κ α).Keeps P i Q s := by
  intro b hb t ht
  obtain rfl := Except.ok.inj hb
  exact h t ht

theorem fail (e : ε) : (done (.error e) : Proc ε σ κ α).Keeps P i Q s := by
  intro a ha
  cases ha

theorem done {r : Except ε α} (h : ∀ a, r = .ok a → ∀ t, P.Later i s t → Q a t) :
    (done r : Proc ε σ κ α).Keeps P i Q s := h

/-- An action keeps the protocol when it does in every state the others may leave. -/
theorem atom {m : Eff ε σ κ α} (h : ∀ t, P.Later i s t → P.Allows i t (m t).state ∧
    ∀ a, (m t).result = .ok a → ∀ u, P.Later i (m t).state u → Q a u) :
    (atom m).Keeps P i Q s := by
  intro t ht
  obtain ⟨hallows, hresult⟩ := h t ht
  refine ⟨hallows, fun b hb a ha => ?_⟩
  obtain rfl := Except.ok.inj ha
  exact hresult b hb

/-- **Sequencing**: the second process starts from what the first one ends with. -/
theorem bind {R : β → σ → Prop} {f : α → Proc ε σ κ β} (h : p.Keeps P i Q s) (hs : P.Inv s)
    (hf : ∀ a t, P.Since s t → Q a t → (f a).Keeps P i R t) : (p >>= f).Keeps P i R s := by
  change (p.bind f).Keeps P i R s
  induction p generalizing s with
  | done r =>
      cases r with
      | ok a => exact hf a s (.refl hs) (h a rfl s (.refl hs))
      | error e => exact fail e
  | act m next ih =>
      intro t ht
      obtain ⟨hallows, hnext⟩ := h t ht
      refine ⟨hallows, fun b hb => ih b (hnext b hb) hallows.since.2 fun a u hu => ?_⟩
      exact hf a u ((ht.1.trans hallows.since).trans hu)

/-- Without the others the process is what it is with idle others. -/
theorem alone (h : p.Keeps P i Q s) (hs : P.Inv s) :
    P.Since s (p.run s).state ∧ ∀ a, (p.run s).result = .ok a → Q a (p.run s).state := by
  induction p generalizing s with
  | done r => exact ⟨.refl hs, fun a ha => h a ha s (.refl hs)⟩
  | act m next ih =>
      obtain ⟨hallows, hnext⟩ := h s (.refl hs)
      cases hr : (m s).result with
      | error e =>
          rw [run, Eff.bind_error hr]
          exact ⟨hallows.since, fun a ha => by cases ha⟩
      | ok b =>
          rw [run, Eff.bind_ok hr]
          obtain ⟨hrest, hresult⟩ := ih b (hnext b hr) hallows.since.2
          exact ⟨hallows.since.trans hrest, hresult⟩

/-- A process alone as a program with a pre- and a postcondition. -/
theorem triple {p : Proc ε σ κ α} (h : ∀ s, P.Inv s → p.Keeps P i Q s) :
    Eff.Triple P.Inv p.run (fun a s => P.Inv s ∧ Q a s) P.Inv := by
  intro s hs
  obtain ⟨hsince, hresult⟩ := (h s hs).alone hs
  exact ⟨fun a ha => ⟨hsince.2, hresult a ha⟩, fun _ _ => hsince.2⟩

/-- On a part of the state the process keeps a protocol that says no less about this part; what
neither the others nor this part can change stays. -/
theorem within (P' : Protocol ι τ) (part : Part σ τ) (f : ε → ε') {R : τ → Prop} {s : τ}
    (hlater : ∀ s t, P'.Later i s t → P.Later i (part.get s) (part.get t))
    (hallows : ∀ t u, P'.Inv t → P.Allows i (part.get t) u → P'.Allows i t (part.set u t))
    (hothers : ∀ s t, P'.Later i s t → R s → R t) (hpart : ∀ s u, R s → R (part.set u s))
    (h : p.Keeps P i Q (part.get s)) (hR : R s) :
    (p.within part f).Keeps P' i (fun a t => Q a (part.get t) ∧ R t) s := by
  induction p generalizing s with
  | done r =>
      intro a ha t ht
      exact ⟨h a (mapError_eq_ok.1 ha) (part.get t) (hlater s t ht), hothers s t ht hR⟩
  | act m next ih =>
      intro t ht
      obtain ⟨hstep, hnext⟩ := h (part.get t) (hlater s t ht)
      refine ⟨hallows t _ ht.inv hstep, fun b hb => ih b ?_ (hpart t _ (hothers s t ht hR))⟩
      have hstate : part.get (m.within part f t).state = (m (part.get t)).state := part.get_set _ _
      rw [hstate]
      exact hnext b (mapError_eq_ok.1 hb)

end Proc.Keeps

/-! ## Interleavings -/

/-- Processes, each with its own kind of result, over one state. -/
structure Pool (ε σ κ : Type) {ι : Type} (α : ι → Type) where
  procs : ∀ i, Proc ε σ κ (α i)
  state : σ

namespace Pool

variable {α : ι → Type}

/-- What remains of a process after an action with this result. -/
def resume {β γ : Type} (next : β → Proc ε σ κ γ) : Except ε β → Proc ε σ κ γ
  | .ok b => next b
  | .error e => .done (.error e)

/-- The next action of a process that has one. -/
def step [DecidableEq ι] (pool : Pool ε σ κ α) (i : ι) : Option (Pool ε σ κ α) :=
  match pool.procs i with
  | .done _ => none
  | .act m next =>
      let o := m pool.state
      some ⟨Function.update pool.procs i (resume next o.result), o.state⟩

/-- Every process keeps the protocol from here on. -/
structure Keeps (P : Protocol ι σ) (Q : ∀ i, α i → σ → Prop) (pool : Pool ε σ κ α) : Prop where
  inv : P.Inv pool.state
  procs : ∀ i, (pool.procs i).Keeps P i (Q i) pool.state

variable {Q : ∀ i, α i → σ → Prop} {pool pool' : Pool ε σ κ α}

/-- A turn of one process is what the others may see between theirs. -/
theorem Keeps.step [DecidableEq ι] (h : pool.Keeps P Q) {i : ι}
    (hstep : pool.step i = some pool') :
    pool'.Keeps P Q ∧ P.Since pool.state pool'.state := by
  have hi := h.procs i
  unfold Pool.step at hstep
  cases hp : pool.procs i with
  | done r =>
      rw [hp] at hstep
      cases hstep
  | act m next =>
      rw [hp] at hstep hi
      obtain rfl := Option.some.inj hstep
      obtain ⟨hallows, hnext⟩ := hi pool.state (.refl h.inv)
      refine ⟨⟨hallows.since.2, fun j => ?_⟩, hallows.since⟩
      by_cases hj : j = i
      · subst hj
        simp only [Function.update_self]
        cases hr : (m pool.state).result with
        | error e => exact Proc.Keeps.fail e
        | ok b => exact hnext b hr
      · simp only [Function.update_of_ne hj]
        exact (h.procs j).later ⟨hallows.since, hallows.own j hj⟩

/-- **Every interleaving keeps the protocol.** -/
theorem keeps_run [DecidableEq ι] (h : pool.Keeps P Q) {turns : List ι}
    (hrun : runFrom Pool.step pool turns = some pool') :
    pool'.Keeps P Q ∧ P.Since pool.state pool'.state := by
  refine runFrom_invariant (P := fun _ p => p.Keeps P Q ∧ P.Since pool.state p.state)
    ⟨h, .refl h.inv⟩ ?_ hrun
  intro _ m i t _ hm hstep
  obtain ⟨ht, hsince⟩ := hm.1.step hstep
  exact ⟨ht, hm.2.trans hsince⟩

/-- The answer of a process that has ended. -/
theorem Keeps.answer (h : pool.Keeps P Q) {i : ι} {a : α i}
    (ha : (pool.procs i).answer? = some a) : Q i a pool.state := by
  have hi := h.procs i
  rw [Proc.eq_done_of_answer? ha] at hi
  exact hi a rfl pool.state (.refl h.inv)

end Pool

end Paac
