import Paac.Core.Decision
import Paac.Library.IndexMap

set_option autoImplicit false

/-!
# Configuration, headers and errors of the proxy

The configuration as far as start-up and the handlers read it; members that nothing of the model
reads are left out. Header names are in lower case, the first header of a name counts, and only
visible ASCII text is text. A handler fails with an error of the proxy, of which a refusal carries
the decision that it rests on.
-/

namespace Paac

inductive RunMode where
  | development
  | production
  deriving DecidableEq, Repr

structure UpstreamConfig where
  baseUrl : String
  apiKey : Option String
  deriving DecidableEq, Repr

structure IdentityConfig where
  jwtHmacSecret : Option String
  jwksUrl : Option String
  allowHeaderIdentity : Bool
  cacheTtlSecs : Nat
  deriving DecidableEq, Repr

structure ConnectorsConfig where
  executeTools : Bool
  httpBaseUrl : Option String
  deriving DecidableEq, Repr

/-- The configuration, as far as start-up and the handlers read it. -/
structure ProxyConfig where
  mode : RunMode
  requireSignedBundle : Bool
  policyDir : String
  catalogPath : String
  upstream : UpstreamConfig
  identity : IdentityConfig
  connectors : ConnectorsConfig
  deriving DecidableEq, Repr

/-- Identities are verified: in production, or when a secret or a key set is configured. -/
def ProxyConfig.verifies (cfg : ProxyConfig) : Bool :=
  cfg.mode = .production || cfg.identity.jwtHmacSecret.isSome || cfg.identity.jwksUrl.isSome

/-- What a handler fails with; a refusal carries the decision. -/
inductive ProxyError where
  | unauthorized (msg : String)
  | forbidden (message decisionId : String) (body : AuthzDecision)
  | badRequest (msg : String)
  | upstream (msg : String)
  | internal (msg : String)
  | notReady (msg : String)
  deriving DecidableEq

/-! ## Headers -/

/-- The headers of a request, names in lower case. -/
abbrev HeaderMap : Type := List (String × String)

/-- `HeaderValue::to_str`: only visible ASCII text is text. -/
def headerText (v : String) : Option String :=
  if v.toList.all fun c => (32 ≤ c.toNat && c.toNat < 127) || c = '\t' then some v else none

/-- The text of the first header of that name. -/
def HeaderMap.text (headers : HeaderMap) (name : String) : Option String :=
  (lookupEntry name headers).bind headerText

end Paac
