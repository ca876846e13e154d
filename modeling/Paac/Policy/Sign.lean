import Paac.Core.Request
import Paac.Library.Hex
import Paac.Policy.Dsl

set_option autoImplicit false

/-!
# Signed bundles

A bundle carries the texts of a revision, the digest of the Cedar text and a signature of revision
and digest. Verification checks the digest against the Cedar text and the signature against both
signed fields, so these cannot change under a signature. The DSL text is under neither.

Hashes, signatures and their texts are the work of libraries (`CryptoLib`), and what is assumed of
them is stated where it is used: a signature made with a key verifies under it, no other text has
the digest of the signed one, and the signature verifies for its own message only. The message joins
revision and digest by a separator; it says which they are because digests have one length.

## Main results

- `LocalEd25519Signer.genuine`: a local signer verifies what it signs.
- `signedMessage_inj`: the signed message says which revision and digest were signed.
- `verifyBundle_signBundle`: a bundle that was signed verifies.
- `verifies_iff_sameSigned`: a bundle verifies under a signature exactly when its signed parts are
  those that were signed.
- `tamper_evident_iff`: a change of a bundle is found out exactly when the DSL text is the signed
  one, or a signed field differs as well.
- `dsl_text_replaced`: a replaced DSL text is not.
-/

namespace Paac

/-! ## The libraries -/

/-- The functions of the libraries for hashes, signatures and their texts. A secret key is any 32
bytes; a public key has to be a point of the curve. -/
structure CryptoLib where
  Signature : Type
  VerifyingKey : Type
  /-- `Sha256`, of the UTF-8 bytes of a text. -/
  sha256 : String → FixedBytes 32
  /-- `hex::decode` -/
  hexDecode : String → Except String Bytes
  /-- `STANDARD.encode` -/
  base64Encode : Bytes → String
  /-- `STANDARD.decode` -/
  base64Decode : String → Except String Bytes
  /-- `SigningKey::sign`, of the UTF-8 bytes of a text. -/
  sign : FixedBytes 32 → String → FixedBytes 64
  /-- The bytes of `SigningKey::verifying_key`. -/
  verifyingKey : FixedBytes 32 → FixedBytes 32
  /-- `Signature::from_slice` -/
  signatureFromSlice : Bytes → Except String Signature
  /-- `VerifyingKey::from_bytes` -/
  verifyingKeyFromBytes : FixedBytes 32 → Except String VerifyingKey
  /-- `VerifyingKey::verify`, as a truth value. -/
  verify : VerifyingKey → String → Signature → Bool

section

variable (lib : CryptoLib)

/-! ## Signers -/

/-- `BundleSigner`. -/
structure BundleSigner where
  keyId : String
  sign : String → Except PolicyError Bytes
  verifyingKeyBytes : Bytes

/-- `LocalEd25519Signer`. -/
structure LocalEd25519Signer where
  keyId : String
  signing : FixedBytes 32

/-- The signer a local key is. -/
def LocalEd25519Signer.signer (s : LocalEd25519Signer) : BundleSigner :=
  ⟨s.keyId, fun message => .ok (lib.sign s.signing message).1, (lib.verifyingKey s.signing).1⟩

structure SigningKeyPair where
  keyId : String
  secretHex : String
  publicHex : String
  deriving DecidableEq, Repr

/-- `LocalEd25519Signer::from_keypair`; the public half of the pair is not read. -/
def LocalEd25519Signer.fromKeypair (pair : SigningKeyPair) :
    Except PolicyError LocalEd25519Signer := do
  let bytes ← mapErr .crypto (lib.hexDecode pair.secretHex)
  match FixedBytes.ofBytes? 32 bytes with
  | some signing => return ⟨pair.keyId, signing⟩
  | none => .error (.crypto "invalid secret length")

/-! ## Bundles -/

structure SignedBundle where
  revision : String
  contentSha256 : String
  cedar : String
  dsl : String
  signatureB64 : String
  keyId : String
  signedAt : String
  deriving DecidableEq, Repr

/-- `content_digest`. -/
def contentDigest (cedar : String) : String := Hex.encode (lib.sha256 cedar).1

/-- The text that is signed. -/
def signedMessage (revision contentSha256 : String) : String := revision ++ "\n" ++ contentSha256

/-- `sign_bundle` at the time `signedAt`. -/
def signBundle (signer : BundleSigner) (revision cedar dsl signedAt : String) :
    Except PolicyError SignedBundle := do
  let contentSha256 := contentDigest lib cedar
  let sig ← signer.sign (signedMessage revision contentSha256)
  return ⟨revision, contentSha256, cedar, dsl, lib.base64Encode sig, signer.keyId, signedAt⟩

/-- Does the key verify these bytes as a signature of the message? -/
def verifySignature (publicKeyBytes sigBytes : Bytes) (message : String) :
    Except PolicyError Bool := do
  let sig ← mapErr .crypto (lib.signatureFromSlice sigBytes)
  match FixedBytes.ofBytes? 32 publicKeyBytes with
  | some pk => do
      let vk ← mapErr .crypto (lib.verifyingKeyFromBytes pk)
      return lib.verify vk message sig
  | none => .error (.crypto "public key must be 32 bytes")

/-- `verify_bundle`. -/
def verifyBundle (bundle : SignedBundle) (publicKeyBytes : Bytes) : Except PolicyError Bool :=
  -- another digest is an answer, not an error
  if contentDigest lib bundle.cedar ≠ bundle.contentSha256 then .ok false
  else do
    let sigBytes ← mapErr .crypto (lib.base64Decode bundle.signatureB64)
    verifySignature lib publicKeyBytes sigBytes
      (signedMessage bundle.revision bundle.contentSha256)

/-! ## What a signature covers -/

/-- Every signature of the signer verifies under its key. -/
def BundleSigner.Genuine (signer : BundleSigner) : Prop :=
  ∀ message sig, signer.sign message = .ok sig →
    verifySignature lib signer.verifyingKeyBytes sig message = .ok true

variable {lib}

/-- Local keys are genuine signers where Ed25519 verifies its own signatures. -/
theorem LocalEd25519Signer.genuine (h : ∀ sk message, ∃ sig vk,
    lib.signatureFromSlice (lib.sign sk message).1 = .ok sig ∧
      lib.verifyingKeyFromBytes (lib.verifyingKey sk) = .ok vk ∧ lib.verify vk message sig = true)
    (s : LocalEd25519Signer) : (s.signer lib).Genuine lib := by
  intro message sig hsig
  obtain ⟨sg, vk, hsg, hvk, hverify⟩ := h s.signing message
  obtain rfl := Except.ok.inj hsig
  simp only [verifySignature, LocalEd25519Signer.signer, hsg, mapErr, FixedBytes.ofBytes?_coe, hvk]
  exact congrArg Except.ok hverify

/-- A digest has 64 digits. -/
theorem length_contentDigest (cedar : String) : (contentDigest lib cedar).toList.length = 64 := by
  rw [contentDigest, Hex.length_encode, (lib.sha256 cedar).2]

theorem contentDigest_eq_iff {cedar cedar' : String} :
    contentDigest lib cedar = contentDigest lib cedar' ↔ lib.sha256 cedar = lib.sha256 cedar' :=
  ⟨fun h => Subtype.ext (Hex.encode_injective h), fun h => by rw [contentDigest, h, contentDigest]⟩

/-- **The signed text determines its parts**, since digests have one length. -/
theorem signedMessage_inj {revision revision' digest digest' : String}
    (hlen : digest.toList.length = digest'.toList.length)
    (h : signedMessage revision digest = signedMessage revision' digest') :
    revision = revision' ∧ digest = digest' := by
  simp only [signedMessage, ← String.toList_inj, String.toList_append] at h
  obtain ⟨hhead, hdigest⟩ := List.append_inj' h hlen
  exact ⟨String.toList_inj.1 (List.append_cancel_right hhead), String.toList_inj.1 hdigest⟩

/-- What `sign_bundle` returns. -/
theorem signBundle_ok {signer : BundleSigner} {revision cedar dsl signedAt : String}
    {b : SignedBundle} (h : signBundle lib signer revision cedar dsl signedAt = .ok b) :
    ∃ sig, signer.sign (signedMessage revision (contentDigest lib cedar)) = .ok sig ∧
      b = ⟨revision, contentDigest lib cedar, cedar, dsl, lib.base64Encode sig, signer.keyId,
        signedAt⟩ := by
  obtain ⟨sig, hsig, hb⟩ := bind_eq_ok.1 h
  exact ⟨sig, hsig, (Except.ok.inj hb).symm⟩

/-- When verification succeeds. -/
theorem verifyBundle_eq_true_iff {b : SignedBundle} {key : Bytes} :
    verifyBundle lib b key = .ok true ↔
      contentDigest lib b.cedar = b.contentSha256 ∧
        ∃ sig, lib.base64Decode b.signatureB64 = .ok sig ∧
          verifySignature lib key sig (signedMessage b.revision b.contentSha256) = .ok true := by
  unfold verifyBundle
  split
  · rename_i hne
    simp [hne]
  · rename_i heq
    rw [not_not] at heq
    simp only [heq, true_and, bind_eq_ok, mapErr_eq_ok]

/-- **What was signed verifies.** -/
theorem verifyBundle_signBundle {signer : BundleSigner} (hgenuine : signer.Genuine lib)
    (hbase64 : ∀ bs, lib.base64Decode (lib.base64Encode bs) = .ok bs)
    {revision cedar dsl signedAt : String} {b : SignedBundle}
    (h : signBundle lib signer revision cedar dsl signedAt = .ok b) :
    verifyBundle lib b signer.verifyingKeyBytes = .ok true := by
  obtain ⟨sig, hsig, rfl⟩ := signBundle_ok h
  exact verifyBundle_eq_true_iff.2 ⟨rfl, sig, hbase64 sig, hgenuine _ sig hsig⟩

/-- The signed fields are the ones of the other bundle. -/
def SignedBundle.SameSigned (c b : SignedBundle) : Prop :=
  c.revision = b.revision ∧ c.contentSha256 = b.contentSha256 ∧ c.cedar = b.cedar

instance (c b : SignedBundle) : Decidable (c.SameSigned b) := inferInstanceAs (Decidable (_ ∧ _))

section

variable {signer : BundleSigner} {revision cedar dsl signedAt : String} {b c : SignedBundle}

/-- **Under the signature of `b` exactly the signed fields of `b` verify**, if no other text has the
digest of its Cedar text and its signature verifies for its own message only. -/
theorem verifies_iff_sameSigned (hgenuine : signer.Genuine lib)
    (hbase64 : ∀ bs, lib.base64Decode (lib.base64Encode bs) = .ok bs)
    (hb : signBundle lib signer revision cedar dsl signedAt = .ok b)
    (hcollision : ∀ text, lib.sha256 text = lib.sha256 b.cedar → text = b.cedar)
    (hforge : ∀ sig message, lib.base64Decode b.signatureB64 = .ok sig →
      verifySignature lib signer.verifyingKeyBytes sig message = .ok true →
      message = signedMessage b.revision b.contentSha256)
    (hc : c.signatureB64 = b.signatureB64) :
    verifyBundle lib c signer.verifyingKeyBytes = .ok true ↔ c.SameSigned b := by
  have hverified := verifyBundle_eq_true_iff.1 (verifyBundle_signBundle hgenuine hbase64 hb)
  rw [verifyBundle_eq_true_iff, hc]
  constructor
  · rintro ⟨hdigest, sig, hsig, hverify⟩
    have hlen : c.contentSha256.toList.length = b.contentSha256.toList.length := by
      rw [← hdigest, ← hverified.1, length_contentDigest, length_contentDigest]
    obtain ⟨hrevision, hcontent⟩ := signedMessage_inj hlen (hforge sig _ hsig hverify)
    refine ⟨hrevision, hcontent, hcollision _ (contentDigest_eq_iff.1 ?_)⟩
    rw [hdigest, hcontent, hverified.1]
  · rintro ⟨hrevision, hcontent, hcedar⟩
    rw [hrevision, hcontent, hcedar]
    exact hverified

/-! ## Tampering -/

/-- Verification of `c` shows that its texts are the ones of `b`. -/
def TamperEvident (lib : CryptoLib) (signer : BundleSigner) (b c : SignedBundle) : Prop :=
  verifyBundle lib c signer.verifyingKeyBytes = .ok true →
    c.revision = b.revision ∧ c.cedar = b.cedar ∧ c.dsl = b.dsl

/-- **When tampering is evident**: exactly when the DSL text is the signed one, or a signed field
differs as well. -/
theorem tamper_evident_iff (hgenuine : signer.Genuine lib)
    (hbase64 : ∀ bs, lib.base64Decode (lib.base64Encode bs) = .ok bs)
    (hb : signBundle lib signer revision cedar dsl signedAt = .ok b)
    (hcollision : ∀ text, lib.sha256 text = lib.sha256 b.cedar → text = b.cedar)
    (hforge : ∀ sig message, lib.base64Decode b.signatureB64 = .ok sig →
      verifySignature lib signer.verifyingKeyBytes sig message = .ok true →
      message = signedMessage b.revision b.contentSha256)
    (hc : c.signatureB64 = b.signatureB64) :
    TamperEvident lib signer b c ↔ c.dsl = b.dsl ∨ ¬c.SameSigned b := by
  unfold TamperEvident
  rw [verifies_iff_sameSigned hgenuine hbase64 hb hcollision hforge hc]
  constructor
  · intro h
    by_cases hsame : c.SameSigned b
    · exact Or.inl (h hsame).2.2
    · exact Or.inr hsame
  · rintro (hdsl | hother) hsame
    · exact ⟨hsame.1, hsame.2.2, hdsl⟩
    · exact absurd hsame hother

end

end

/-! ## A revision and its signature -/

namespace KnownRevision

/-- Everybody may chat. -/
def dsl : String := "policy \"chat\"\nallow READ GENERAL_CHAT\n"

def cedar : String :=
  "// Generated by authz-policy from PAAC DSL\n@id(\"chat\")\npermit (\n  principal,\n" ++
  "  action == Action::\"READ\",\n  resource\n) when \x7b\n" ++
  "  context.resource_kind == \"GENERAL_CHAT\" &&\n  context.action_name == \"READ\"\n\x7d;\n\n"

/-- The SHA-256 digest of the Cedar text. -/
def digest : FixedBytes 32 :=
  ⟨[177, 69, 247, 108, 62, 238, 174, 153, 89, 100, 231, 189, 89, 237, 253, 155, 184, 86,
    173, 79, 196, 193, 165, 154, 173, 157, 245, 122, 217, 30, 97, 173], rfl⟩

/-- The text hashed for the revision: Cedar text, message and time. -/
def committed : String := cedar ++ "first" ++ "1700000000"

def commitDigest : FixedBytes 32 :=
  ⟨[67, 144, 172, 143, 107, 58, 18, 78, 205, 69, 201, 25, 54, 30, 25, 115, 95, 23, 177,
    234, 184, 24, 135, 188, 172, 189, 65, 32, 45, 6, 124, 169], rfl⟩

def revision : String := "4390ac8f6b3a124e"

def secret : FixedBytes 32 :=
  ⟨[157, 97, 177, 157, 239, 253, 90, 96, 186, 132, 74, 244, 146, 236, 44, 196, 68, 73, 197,
    105, 123, 50, 105, 25, 112, 59, 172, 3, 28, 174, 127, 96], rfl⟩

def secretHex : String := "9d61b19deffd5a60ba844af492ec2cc44449c5697b326919703bac031cae7f60"

def publicKey : FixedBytes 32 :=
  ⟨[215, 90, 152, 1, 130, 177, 10, 183, 213, 75, 254, 211, 201, 100, 7, 58, 14, 225, 114,
    243, 218, 166, 35, 37, 175, 2, 26, 104, 247, 7, 81, 26], rfl⟩

/-- The Ed25519 signature of revision and digest under the secret. -/
def signature : FixedBytes 64 :=
  ⟨[170, 213, 163, 81, 142, 35, 105, 126, 193, 72, 195, 106, 101, 131, 181, 111, 138, 167,
    109, 121, 218, 100, 224, 13, 235, 80, 198, 50, 40, 150, 166, 138, 22, 34, 137, 0, 62,
    230, 131, 205, 117, 23, 186, 111, 214, 114, 151, 255, 158, 187, 118, 20, 41, 30, 29,
    125, 46, 49, 44, 229, 166, 32, 241, 14], rfl⟩

def signatureB64 : String :=
  "qtWjUY4jaX7BSMNqZYO1b4qnbXnaZOAN61DGMiiWpooWIokAPuaDzXUXum/Wcpf/nrt2FCkeHX0uMSzlpiDxDg=="

def zeros (n : Nat) : FixedBytes n := ⟨List.replicate n 0, List.length_replicate⟩

/-- The libraries, right on the texts above: every other text hashes to zeros and is signed by
zeros, and other bytes become a text that no base64 text is. -/
def lib : CryptoLib where
  Signature := Bytes
  VerifyingKey := FixedBytes 32
  sha256 text :=
    if text = cedar then digest
    else if text = committed then commitDigest
    else zeros 32
  hexDecode text := if text = secretHex then .ok secret.1 else .error "Odd number of digits"
  base64Encode bs :=
    if bs = signature.1 then signatureB64
    else String.ofList ('?' :: bs.map fun b => Char.ofNat b.toNat)
  base64Decode text :=
    if text = signatureB64 then .ok signature.1
    else match text.toList with
      | '?' :: cs => .ok (cs.map fun c => UInt8.ofNat c.toNat)
      | _ => .error "Invalid symbol"
  sign sk message :=
    if sk = secret ∧ message = signedMessage revision (Hex.encode digest.1) then signature
    else zeros 64
  verifyingKey sk := if sk = secret then publicKey else sk
  signatureFromSlice bs := .ok bs
  verifyingKeyFromBytes pk := .ok pk
  verify vk message sig :=
    if sig = signature.1 then
      vk = publicKey && message = signedMessage revision (Hex.encode digest.1)
    else true

def signer : BundleSigner := (⟨"k1", secret⟩ : LocalEd25519Signer).signer lib

/-- The signed bundle. -/
def bundle : SignedBundle :=
  ⟨revision, Hex.encode digest.1, cedar, dsl, signatureB64, "k1", "2023-11-14T22:13:20+00:00"⟩

theorem signBundle_bundle :
    signBundle lib signer revision cedar dsl "2023-11-14T22:13:20+00:00" = .ok bundle := by
  decide +kernel

theorem genuine : signer.Genuine lib := by
  refine LocalEd25519Signer.genuine (fun sk message => ⟨(lib.sign sk message).1,
    lib.verifyingKey sk, rfl, rfl, ?_⟩) _
  simp only [lib]
  split
  · rename_i hknown
    simp [hknown.1, hknown.2]
  · rfl

/-- Every byte string is read back from its base64 text. -/
theorem base64 (bs : Bytes) : lib.base64Decode (lib.base64Encode bs) = .ok bs := by
  have hfirst : signatureB64.toList.head? ≠ some '?' := by decide
  have hmark : ∀ cs, String.ofList ('?' :: cs) ≠ signatureB64 := by
    intro cs h
    rw [← h, String.toList_ofList] at hfirst
    exact hfirst rfl
  have hbyte : ∀ b : UInt8, UInt8.ofNat (Char.ofNat b.toNat).toNat = b := by
    intro b
    have hvalid : b.toNat.isValidChar := Or.inl (by have := b.toNat_lt; omega)
    rw [Char.toNat_ofNat, if_pos hvalid, UInt8.ofNat_toNat]
  simp only [lib]
  by_cases h : bs = signature.1
  · rw [if_pos h, if_pos rfl, h]
  · rw [if_neg h, if_neg (hmark _), String.toList_ofList]
    simp [Function.comp_def, hbyte]

/-- No other text has the digest of the Cedar text. -/
theorem collision (text : String) (h : lib.sha256 text = lib.sha256 bundle.cedar) :
    text = bundle.cedar := by
  have hcedar : bundle.cedar = cedar := rfl
  rw [hcedar] at h ⊢
  have hcommit : commitDigest ≠ digest := by decide
  have hzeros : zeros 32 ≠ digest := by decide
  simp only [lib, if_true] at h
  split at h
  · assumption
  · split at h
    · exact absurd h hcommit
    · exact absurd h hzeros

/-- The signature verifies for its message only. -/
theorem forge (sig : Bytes) (message : String)
    (hsig : lib.base64Decode bundle.signatureB64 = .ok sig)
    (h : verifySignature lib signer.verifyingKeyBytes sig message = .ok true) :
    message = signedMessage bundle.revision bundle.contentSha256 := by
  obtain rfl : signature.1 = sig := Except.ok.inj hsig
  have hverify : lib.verify publicKey message signature.1 = true := Except.ok.inj h
  simp only [lib, if_true, Bool.and_eq_true, decide_eq_true_eq] at hverify
  exact hverify.2

end KnownRevision

/-- A bundle whose revision is changed is found out. -/
theorem tamper_evident_revision :
    TamperEvident KnownRevision.lib KnownRevision.signer KnownRevision.bundle
      { KnownRevision.bundle with revision := "0" } := by
  have hother : ¬SignedBundle.SameSigned { KnownRevision.bundle with revision := "0" }
      KnownRevision.bundle := by decide +kernel
  exact (tamper_evident_iff (c := { KnownRevision.bundle with revision := "0" })
    KnownRevision.genuine KnownRevision.base64 KnownRevision.signBundle_bundle
    KnownRevision.collision KnownRevision.forge rfl).2 (Or.inr hother)

/-- A bundle whose DSL text is replaced verifies. -/
theorem dsl_text_replaced :
    ¬TamperEvident KnownRevision.lib KnownRevision.signer KnownRevision.bundle
      { KnownRevision.bundle with dsl := "policy \"all\"\nallow EXPORT PAYROLL_DATA\n" } := by
  intro h
  have hverifies := (verifies_iff_sameSigned (c := { KnownRevision.bundle with
    dsl := "policy \"all\"\nallow EXPORT PAYROLL_DATA\n" }) KnownRevision.genuine
    KnownRevision.base64 KnownRevision.signBundle_bundle KnownRevision.collision
    KnownRevision.forge rfl).2 ⟨rfl, rfl, rfl⟩
  have hdsl := (h hverifies).2.2
  revert hdsl
  decide +kernel

end Paac
