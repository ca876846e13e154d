import Paac.Identity.Jwt
import Paac.Proxy.Config

set_option autoImplicit false

/-!
# Resolving the principal of a request

A bearer token is looked up in the identity cache before it is verified, under a key that is its
first 32 bytes. Where the cache has no entry the token is decoded, and verified as well in
production or where a secret or a key set is configured, and its identity is put into the cache.
Without a token, development may take the user from a header.

The step reads the clock three times (`Clock`): when the cache is asked, when the token is verified,
and when the identity is stored. The cache that it leaves is part of its result, so a run of calls
is a fold over caches.
-/

namespace Paac

/-- The readings of the clock during one call: when the cache is asked, when the token is verified
and when the identity is stored. -/
structure Clock where
  asked : Nat
  verified : Nat
  stored : Nat
  deriving DecidableEq, Repr

/-- `identity_to_principal`. -/
def identityToPrincipal (id : CanonicalIdentity) : Principal :=
  ⟨id.id, id.roles, id.groups, id.attrs⟩

/-- The bearer token of the request. -/
def bearerToken (headers : HeaderMap) : Option String :=
  (headers.text "authorization").bind fun auth =>
    (Text.stripPrefix "Bearer " auth).or (Text.stripPrefix "bearer " auth)

/-- The cache key of a token: its first 32 bytes, which are characters since header text is
ASCII. -/
def tokenKey (token : String) : String := "jwt:" ++ String.ofList (token.toList.take 32)

/-- The identity behind a token that the cache does not know. -/
def freshIdentity (lib : JwtLibrary) (cfg : ProxyConfig) (jwt : JwtOidcAdapter) (now : Nat)
    (token : String) : Except IdentityError CanonicalIdentity :=
  if cfg.verifies then jwt.normalize lib now token
  else JwtOidcAdapter.normalizeUnverified lib token

/-- The roles in a header, between commas. -/
def headerRoles (headers : HeaderMap) : List String :=
  match headers.text "x-paac-roles" with
  | some s => ((Text.split ',' s).map Text.trim).filter fun r => !r.isEmpty
  | none => []

/-- The identity without a token: the headers in development, if they may be used. -/
def headerPrincipal (headers : HeaderMap) (cfg : ProxyConfig) : Except ProxyError Principal :=
  match (if cfg.identity.allowHeaderIdentity && cfg.mode ≠ .production then
      headers.text "x-paac-user" else none) with
  | some user => .ok (Principal.withRoles user (headerRoles headers))
  | none =>
      if cfg.mode = .production then
        .error (.unauthorized "identity required (Authorization Bearer JWT)")
      else
        .error (.unauthorized
          "missing identity: provide Authorization Bearer JWT or X-PAAC-User (dev)")

/-- `resolve_principal`, with the cache it leaves behind. -/
def resolvePrincipal (lib : JwtLibrary) (headers : HeaderMap) (cfg : ProxyConfig)
    (jwt : JwtOidcAdapter) (cache : IdentityCache) (clock : Clock) :
    Except ProxyError Principal × IdentityCache :=
  match bearerToken headers with
  | some token =>
      match cache.get (tokenKey token) clock.asked with
      | some id => (.ok (identityToPrincipal id), cache)
      | none =>
          -- what was verified is stored with the time after the verification
          match freshIdentity lib cfg jwt clock.verified token with
          | .ok id => (.ok (identityToPrincipal id),
              cache.put (tokenKey token) id id.source clock.stored)
          | .error e => (.error (.unauthorized e.toText), cache)
  | none => (headerPrincipal headers cfg, cache)

end Paac
