import Paac.Core.Serde
import Paac.Library.JsonPretty
import Paac.Policy.Store

set_option autoImplicit false

/-!
# The files of the store

Revisions and key pairs are stored as indented JSON texts. Each of them is read as it was written,
so a store whose files are these texts loses nothing on the way to the disk and back. The records
have all fields of the source; the bundle of a revision is null until the revision is signed.

## Main results

- `Serde.fromText_toPretty`: a value whose encoding is read back is read back from its indented
  text.
- `SignedBundle.fromJson_toJson`, `PolicyRevision.fromJson_toJson`,
  `SigningKeyPair.fromJson_toJson`: each record is read back from its encoding.
- `PolicyRevision.fromText_toPretty`, `SigningKeyPair.fromText_toPretty`: the two kinds of files.
-/

namespace Paac

open Cedar (Engine)

open Serde

variable {α : Type}

/-- `to_string_pretty`. -/
def Serde.toPretty (write : α → Json) (a : α) : String := (write a).toPretty

/-- A value is read back from its indented text. -/
theorem Serde.fromText_toPretty {write : α → Json} {read : Json → Decoded α}
    (hwritable : ∀ a, (write a).Writable) (hread : ∀ a, read (write a) = .ok a) (a : α) :
    fromText read (toPretty write a) = .ok a := by
  rw [fromText, toPretty, Json.parse_toPretty _ (hwritable a)]
  exact hread a

/-! ## Bundles and revisions -/

def SignedBundle.toJson (b : SignedBundle) : Json :=
  .obj [
    ("revision", .str b.revision),
    ("content_sha256", .str b.contentSha256),
    ("cedar", .str b.cedar),
    ("dsl", .str b.dsl),
    ("signature_b64", .str b.signatureB64),
    ("key_id", .str b.keyId),
    ("signed_at", .str b.signedAt)]

def SignedBundle.fromJson (j : Json) : Decoded SignedBundle := do
  let ms ← fields ["revision", "content_sha256", "cedar", "dsl", "signature_b64", "key_id",
    "signed_at"] 7 j
  return {
    revision := ← required "revision" string ms
    contentSha256 := ← required "content_sha256" string ms
    cedar := ← required "cedar" string ms
    dsl := ← required "dsl" string ms
    signatureB64 := ← required "signature_b64" string ms
    keyId := ← required "key_id" string ms
    signedAt := ← required "signed_at" string ms }

def PolicyRevision.toJson (rev : PolicyRevision) : Json :=
  .obj [
    ("revision", .str rev.revision),
    ("message", .str rev.message),
    ("created_at", .str rev.createdAt),
    ("cedar", .str rev.cedar),
    ("dsl", .str rev.dsl),
    ("bundle", ofOption SignedBundle.toJson rev.bundle)]

def PolicyRevision.fromJson (j : Json) : Decoded PolicyRevision := do
  let ms ← fields ["revision", "message", "created_at", "cedar", "dsl", "bundle"] 6 j
  return {
    revision := ← required "revision" string ms
    message := ← required "message" string ms
    createdAt := ← required "created_at" string ms
    cedar := ← required "cedar" string ms
    dsl := ← required "dsl" string ms
    bundle := ← optional "bundle" SignedBundle.fromJson ms }

theorem SignedBundle.fromJson_toJson (b : SignedBundle) :
    SignedBundle.fromJson b.toJson = .ok b := rfl

theorem SignedBundle.writable (b : SignedBundle) : b.toJson.Writable :=
  ⟨by simp, trivial, trivial, trivial, trivial, trivial, trivial, trivial, trivial⟩

theorem PolicyRevision.fromJson_toJson (rev : PolicyRevision) :
    PolicyRevision.fromJson rev.toJson = .ok rev := by
  have hbundle : option SignedBundle.fromJson (ofOption SignedBundle.toJson rev.bundle) =
      .ok rev.bundle :=
    option_ofOption (fun b => b.fromJson_toJson) (fun _ h => by cases h) rev.bundle
  calc PolicyRevision.fromJson rev.toJson
      = (do
          let bundle ← option SignedBundle.fromJson (ofOption SignedBundle.toJson rev.bundle)
          return ⟨rev.revision, rev.message, rev.createdAt, rev.cedar, rev.dsl, bundle⟩) := rfl
    _ = .ok rev := by rw [hbundle]; rfl

theorem PolicyRevision.writable (rev : PolicyRevision) : rev.toJson.Writable :=
  ⟨by simp, trivial, trivial, trivial, trivial, trivial,
    writable_ofOption SignedBundle.writable _, trivial⟩

/-- A revision is read back from its file. -/
theorem PolicyRevision.fromText_toPretty (rev : PolicyRevision) :
    fromText PolicyRevision.fromJson (toPretty PolicyRevision.toJson rev) = .ok rev :=
  Serde.fromText_toPretty PolicyRevision.writable PolicyRevision.fromJson_toJson rev

/-! ## Key pairs -/

def SigningKeyPair.toJson (pair : SigningKeyPair) : Json :=
  .obj [
    ("key_id", .str pair.keyId),
    ("secret_hex", .str pair.secretHex),
    ("public_hex", .str pair.publicHex)]

def SigningKeyPair.fromJson (j : Json) : Decoded SigningKeyPair := do
  let ms ← fields ["key_id", "secret_hex", "public_hex"] 3 j
  return {
    keyId := ← required "key_id" string ms
    secretHex := ← required "secret_hex" string ms
    publicHex := ← required "public_hex" string ms }

theorem SigningKeyPair.fromJson_toJson (pair : SigningKeyPair) :
    SigningKeyPair.fromJson pair.toJson = .ok pair := rfl

theorem SigningKeyPair.writable (pair : SigningKeyPair) : pair.toJson.Writable :=
  ⟨by simp, trivial, trivial, trivial, trivial⟩

/-- A key pair is read back from its file. -/
theorem SigningKeyPair.fromText_toPretty (pair : SigningKeyPair) :
    fromText SigningKeyPair.fromJson (toPretty SigningKeyPair.toJson pair) = .ok pair :=
  Serde.fromText_toPretty SigningKeyPair.writable SigningKeyPair.fromJson_toJson pair

end Paac
