import Paac.Core.Evaluate

set_option autoImplicit false

/-!
# The active policy bundle

The bundle that the hot path loads; a check decides with the bundle it has loaded, whatever is
stored afterwards. A bundle is replaced as a whole, so the revision, the signature and the policies
of a decision always come from one bundle.
-/

namespace Paac

open Cedar (Engine)

structure HotBundle (E : Engine) where
  policySet : E.PolicySet
  policyRevision : String
  policySignature : Option String
  signatureKeyId : Option String
  contentSha256 : Option String
  groupMembers : IndexMap (List String)

/-- `HotBundle::to_evaluator_config`. -/
def HotBundle.toEvaluatorConfig {E : Engine} (hot : HotBundle E) : EvaluatorConfig E :=
  ⟨hot.policySet, hot.policyRevision, hot.policySignature, hot.groupMembers⟩

end Paac
