import Paac.Identity.Ldap
import Paac.Policy.Files

set_option autoImplicit false

/-!
# Stored snapshots

`identity sync` writes the snapshot of a directory to a file, and a later `check` takes the members
of the groups from it. What is read is the snapshot that was written, so nothing is lost between the
two commands. The records are written with all their fields; the time of the snapshot is an optional
text.

## Main results

- `CanonicalIdentity.fromJson_toJson`, `Group.fromJson_toJson`, `RelationshipEdge.fromJson_toJson`:
  each record is read back from its encoding.
- `IdentitySnapshot.fromJson_toJson`: so is the snapshot.
- `IdentitySnapshot.fromText_toPretty`: and so it is from its file.
-/

namespace Paac

open Serde

/-! ## The file -/

section

variable (j : Json)

def CanonicalIdentity.toJson (u : CanonicalIdentity) : Json :=
  .obj [
    ("id", .str u.id),
    ("display_name", .str u.displayName),
    ("email", ofOption Json.str u.email),
    ("source", .str u.source),
    ("roles", ofList Json.str u.roles),
    ("groups", ofList Json.str u.groups),
    ("attrs", attrsJson u.attrs)]

def CanonicalIdentity.fromJson : Decoded CanonicalIdentity := do
  let ms ← fields ["id", "display_name", "email", "source", "roles", "groups", "attrs"] 4 j
  return {
    id := ← required "id" string ms
    displayName := ← required "display_name" string ms
    email := ← optional "email" string ms
    source := ← required "source" string ms
    roles := ← defaulted "roles" (vec string) [] ms
    groups := ← defaulted "groups" (vec string) [] ms
    attrs := ← defaulted "attrs" (indexMap string) .empty ms }

def Group.toJson (g : Group) : Json :=
  .obj [
    ("id", .str g.id),
    ("name", .str g.name),
    ("members", ofList Json.str g.members),
    ("source", .str g.source)]

def Group.fromJson : Decoded Group := do
  let ms ← fields ["id", "name", "members", "source"] 4 j
  return {
    id := ← required "id" string ms
    name := ← required "name" string ms
    members := ← defaulted "members" (vec string) [] ms
    source := ← required "source" string ms }

def RelationshipEdge.toJson (e : RelationshipEdge) : Json :=
  .obj [
    ("kind", e.kind.toJson),
    ("from", .str e.from),
    ("to", .str e.to),
    ("source", .str e.source)]

def RelationshipEdge.fromJson : Decoded RelationshipEdge := do
  let ms ← fields ["kind", "from", "to", "source"] 4 j
  return {
    kind := ← required "kind" (variant RelationshipKind.variants) ms
    «from» := ← required "from" string ms
    «to» := ← required "to" string ms
    source := ← required "source" string ms }

def IdentitySnapshot.toJson (snap : IdentitySnapshot) : Json :=
  .obj [
    ("users", ofList CanonicalIdentity.toJson snap.users),
    ("groups", ofList Group.toJson snap.groups),
    ("relationships", ofList RelationshipEdge.toJson snap.relationships),
    ("synced_at", ofOption Json.str snap.syncedAt)]

def IdentitySnapshot.fromJson : Decoded IdentitySnapshot := do
  let ms ← fields ["users", "groups", "relationships", "synced_at"] 4 j
  return {
    users := ← required "users" (vec CanonicalIdentity.fromJson) ms
    groups := ← required "groups" (vec Group.fromJson) ms
    relationships := ← required "relationships" (vec RelationshipEdge.fromJson) ms
    syncedAt := ← optional "synced_at" string ms }

end

theorem CanonicalIdentity.fromJson_toJson (u : CanonicalIdentity) :
    CanonicalIdentity.fromJson u.toJson = .ok u := by
  calc CanonicalIdentity.fromJson u.toJson
      = (do
          let email ← option string (ofOption Json.str u.email)
          let roles ← vec string (ofList Json.str u.roles)
          let groups ← vec string (ofList Json.str u.groups)
          let attrs ← indexMap string (ofIndexMap Json.str u.attrs)
          return ⟨u.id, u.displayName, email, u.source, roles, groups, attrs⟩) := rfl
    _ = .ok u := by rw [option_string, vec_strings, vec_strings, indexMap_attrs]; rfl

theorem CanonicalIdentity.writable (u : CanonicalIdentity) : u.toJson.Writable :=
  ⟨by simp, trivial, trivial, writable_optString _, trivial, writable_strings _,
    writable_strings _, writable_attrs _, trivial⟩

theorem Group.fromJson_toJson (g : Group) : Group.fromJson g.toJson = .ok g := by
  calc Group.fromJson g.toJson
      = (do
          let members ← vec string (ofList Json.str g.members)
          return ⟨g.id, g.name, members, g.source⟩) := rfl
    _ = .ok g := by rw [vec_strings]; rfl

theorem Group.writable (g : Group) : g.toJson.Writable :=
  ⟨by simp, trivial, trivial, writable_strings _, trivial, trivial⟩

theorem RelationshipEdge.fromJson_toJson (e : RelationshipEdge) :
    RelationshipEdge.fromJson e.toJson = .ok e := by
  rcases e with ⟨kind, source, target, store⟩
  cases kind <;> rfl

theorem RelationshipEdge.writable (e : RelationshipEdge) : e.toJson.Writable := by
  have hkind : e.kind.toJson.Writable := by cases e.kind <;> trivial
  exact ⟨by simp, hkind, trivial, trivial, trivial, trivial⟩

/-- **A snapshot is read back from its encoding.** -/
theorem IdentitySnapshot.fromJson_toJson (snap : IdentitySnapshot) :
    IdentitySnapshot.fromJson snap.toJson = .ok snap := by
  calc IdentitySnapshot.fromJson snap.toJson
      = (do
          let users ← vec CanonicalIdentity.fromJson (ofList CanonicalIdentity.toJson snap.users)
          let groups ← vec Group.fromJson (ofList Group.toJson snap.groups)
          let relationships ←
            vec RelationshipEdge.fromJson (ofList RelationshipEdge.toJson snap.relationships)
          let syncedAt ← option string (ofOption Json.str snap.syncedAt)
          return ⟨users, groups, relationships, syncedAt⟩) := rfl
    _ = .ok snap := by
        rw [vec_ofList fun u _ => u.fromJson_toJson, vec_ofList fun g _ => g.fromJson_toJson,
          vec_ofList fun e _ => e.fromJson_toJson, option_string]
        rfl

theorem IdentitySnapshot.writable (snap : IdentitySnapshot) : snap.toJson.Writable :=
  ⟨by simp, writable_ofList CanonicalIdentity.writable _, writable_ofList Group.writable _,
    writable_ofList RelationshipEdge.writable _, writable_optString _, trivial⟩

/-- A snapshot is read back from its file. -/
theorem IdentitySnapshot.fromText_toPretty (snap : IdentitySnapshot) :
    fromText IdentitySnapshot.fromJson (toPretty IdentitySnapshot.toJson snap) = .ok snap :=
  Serde.fromText_toPretty IdentitySnapshot.writable IdentitySnapshot.fromJson_toJson snap

end Paac
