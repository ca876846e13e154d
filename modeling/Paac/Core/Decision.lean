import Paac.Core.Request

set_option autoImplicit false

/-!
# Decisions and their evidence

A decision has an effect and the evidence it was made on: the request, the policies that matched,
the revision and signature of the bundle, and the notes of the engine. The records have all fields
of the source, since audit logs and explanations print them.
-/

namespace Paac

inductive DecisionEffect where
  | allow
  | deny
  | review
  deriving DecidableEq, Repr

structure MatchedPolicy where
  id : String
  effect : DecisionEffect
  reason : Option String
  deriving DecidableEq, Repr

structure Evidence where
  decisionId : String
  effect : DecisionEffect
  request : AuthzRequest
  matchedPolicies : List MatchedPolicy
  determiningPolicy : Option MatchedPolicy
  policyRevision : String
  policySignature : Option String
  engineVersion : String
  timestamp : String
  notes : List String
  deriving DecidableEq

structure AuthzDecision where
  effect : DecisionEffect
  evidence : Evidence
  deriving DecidableEq

end Paac
