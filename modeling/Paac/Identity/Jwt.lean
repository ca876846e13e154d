import Paac.Core.Request
import Paac.Identity.Cache

set_option autoImplicit false

/-!
# Identities from tokens

The adapter turns a bearer token into an identity. Decoding and verification are the work of
libraries outside the repository; `JwtLibrary` is what the adapter calls of them, and everything
that depends on the time of a call or on the network takes the time as an argument.

`normalize` is followed branch by branch: the algorithm in the header of the token decides whether
it is verified by the shared secret or by a key of the key set, and any other one is an error. Which
claims a verification demands is part of what the library is asked (`Validation`), so an assumption
about expiry is one about the library under these demands. `normalizeUnverified` reads the claims
without a verification; who calls it is up to the proxy. Errors carry the texts of the source.
-/

namespace Paac

inductive IdentityError where
  | msg (text : String)
  | jwt (text : String)
  deriving DecidableEq, Repr

/-- The `Display` text. -/
def IdentityError.toText : IdentityError → String
  | .msg text => "identity error: " ++ text
  | .jwt text => "jwt error: " ++ text

structure Claims where
  sub : String
  name : Option String
  email : Option String
  roles : List String
  groups : List String
  exp : Option Int
  deriving DecidableEq, Repr

structure Jwk where
  kid : Option String
  kty : String
  n : Option String
  e : Option String
  alg : Option String
  deriving DecidableEq, Repr

inductive Algorithm where
  | HS256
  | HS384
  | HS512
  | ES256
  | ES384
  | RS256
  | RS384
  | RS512
  | PS256
  | PS384
  | PS512
  | EdDSA
  deriving DecidableEq, Repr

/-- The `Debug` text. -/
def Algorithm.toText : Algorithm → String
  | .HS256 => "HS256"
  | .HS384 => "HS384"
  | .HS512 => "HS512"
  | .ES256 => "ES256"
  | .ES384 => "ES384"
  | .RS256 => "RS256"
  | .RS384 => "RS384"
  | .RS512 => "RS512"
  | .PS256 => "PS256"
  | .PS384 => "PS384"
  | .PS512 => "PS512"
  | .EdDSA => "EdDSA"

structure JwtHeader where
  alg : Algorithm
  kid : Option String
  deriving DecidableEq, Repr

/-- What a verification demands of a token. -/
structure Validation where
  alg : Algorithm
  validateExp : Bool
  requiredSpecClaims : List String
  deriving DecidableEq, Repr

/-- `Validation::new`. -/
def Validation.new (alg : Algorithm) : Validation := ⟨alg, true, ["exp"]⟩

/-- What the adapter calls of the libraries for tokens, encodings and HTTP; a verification and a
fetch happen at a time. -/
structure JwtLibrary where
  DecodingKey : Type
  decodeHeader : String → Except String JwtHeader
  fromSecret : String → DecodingKey
  fromRsaComponents : String → String → Except String DecodingKey
  decode : Nat → String → DecodingKey → Validation → Except String Claims
  fetchJwks : Nat → String → Except String (List Jwk)
  decodeUrlSafeNoPad : String → Except String (List UInt8)
  decodeUrlSafe : String → Except String (List UInt8)
  claimsFromSlice : List UInt8 → Except String Claims

structure JwtOidcAdapter where
  hmacSecret : Option String
  jwksUrl : Option String
  requireExp : Bool
  deriving DecidableEq, Repr

/-- `claims_to_identity`. -/
def claimsToIdentity (claims : Claims) (source : String) : CanonicalIdentity :=
  { id := claims.sub
    displayName := claims.name.getD ""
    email := claims.email
    source := source
    roles := claims.roles
    groups := claims.groups
    attrs := .empty }

/-- The value, or the token error of that text. -/
def orJwtError {α : Type} (v : Option α) (text : String) : Except IdentityError α :=
  match v with
  | some a => .ok a
  | none => .error (.jwt text)

namespace JwtOidcAdapter

variable (lib : JwtLibrary)

/-- `base64url_decode`. -/
def base64urlDecode (s : String) : Except IdentityError (List UInt8) :=
  mapErr .jwt <|
    match lib.decodeUrlSafeNoPad (Text.trimEndMatchesChar '=' s) with
    | .ok bytes => .ok bytes
    | .error _ => lib.decodeUrlSafe
        (if s.utf8ByteSize % 4 = 2 then s ++ "==" else if s.utf8ByteSize % 4 = 3 then s ++ "="
          else s)

/-- `normalize_unverified`. -/
def normalizeUnverified (token : String) : Except IdentityError CanonicalIdentity :=
  match Text.split '.' token with
  | _ :: payload :: _ => do
      let bytes ← base64urlDecode lib payload
      let claims ← mapErr IdentityError.jwt (lib.claimsFromSlice bytes)
      return claimsToIdentity claims "jwt-unverified"
  | _ => .error (.jwt "invalid jwt")

/-- The validation that the adapter asks for: without `require_exp` no claim is required. -/
def validation (jwt : JwtOidcAdapter) (alg : Algorithm) : Validation :=
  { Validation.new alg with
    validateExp := jwt.requireExp
    requiredSpecClaims := if jwt.requireExp then ["exp"] else [] }

/-- `normalize_hs256`. -/
def normalizeHs256 (jwt : JwtOidcAdapter) (now : Nat) (token : String) :
    Except IdentityError CanonicalIdentity := do
  let secret ← orJwtError jwt.hmacSecret "no hmac secret configured"
  let claims ← mapErr IdentityError.jwt
    (lib.decode now token (lib.fromSecret secret) (jwt.validation .HS256))
  return claimsToIdentity claims "jwt-hs256"

/-- `normalize_rs_jwks`. -/
def normalizeRsJwks (jwt : JwtOidcAdapter) (now : Nat) (token : String) (kid : Option String)
    (alg : Algorithm) : Except IdentityError CanonicalIdentity := do
  let url ← orJwtError jwt.jwksUrl "jwks_url not configured for RS JWT"
  let keys ← mapErr IdentityError.jwt (lib.fetchJwks now url)
  let jwk ← orJwtError
    -- without a key id any RSA key will do
    (keys.find? fun k => kid.all (fun id => k.kid = some id) && k.kty = "RSA") "no matching JWK"
  let n ← orJwtError jwk.n "jwk missing n"
  let e ← orJwtError jwk.e "jwk missing e"
  let key ← mapErr IdentityError.jwt (lib.fromRsaComponents n e)
  let claims ← mapErr IdentityError.jwt (lib.decode now token key (jwt.validation alg))
  return claimsToIdentity claims "jwt-jwks"

/-- `normalize`: the algorithm named in the header of the token decides how it is verified. -/
def normalize (jwt : JwtOidcAdapter) (now : Nat) (token : String) :
    Except IdentityError CanonicalIdentity := do
  let header ← mapErr IdentityError.jwt (lib.decodeHeader token)
  match header.alg with
  | .HS256 | .HS384 | .HS512 => jwt.normalizeHs256 lib now token
  | .RS256 | .RS384 | .RS512 => jwt.normalizeRsJwks lib now token header.kid header.alg
  | other => .error (.jwt ("unsupported alg " ++ other.toText))

end JwtOidcAdapter

end Paac
