import Paac.Identity.Jwt
import Paac.Library.Dn

set_option autoImplicit false

/-!
# Snapshots of a directory

The adapter reads users and groups from an LDAP directory. A user is known by the `uid` attribute
and a group by `cn`, and both by their distinguished names where they have none; a reference to
either is read off the first component of a distinguished name. A snapshot is referentially sound
when every reference to an entry of the answer names it.

The directory is a parameter that may answer anything, or fail. The two ways to a name are compared
for every answer: an entry without `uid` is known by its whole name while a reference to it is cut
down to the first component, so the two can only meet where that component spells the name it is
known by (`Library/Dn.lean`).

## Main results

- `userOfDn_eq_iff`, `groupOfDn_eq_iff`: what a reference is read as.
- `syncLive_ok`: the snapshot of an answer.
- `userOfEntry_listed`, `groupOfEntry_listed`: when an entry is the one that a reference names.
- `syncLive_sound_iff`: so when the snapshot is sound, for every answer of the directory.
- `spelled_of_plain`: it is in the usual layout, with plain values.
- `groupMembersMap_get`: the members of a group are those of the last group of its id.
- `bob_not_member`: a user without `uid` is no member of the group that lists it.
-/

namespace Paac

open Text

structure Group where
  id : String
  name : String
  members : List String
  source : String
  deriving DecidableEq, Repr

structure RelationshipEdge where
  kind : RelationshipKind
  «from» : String
  «to» : String
  source : String
  deriving DecidableEq, Repr

structure IdentitySnapshot where
  users : List CanonicalIdentity
  groups : List Group
  relationships : List RelationshipEdge
  syncedAt : Option String

/-- What `sync_live` reads of the configuration. -/
structure LdapConfig where
  url : String
  bindDn : String
  bindPassword : String
  baseDn : String
  userFilter : String
  groupFilter : String
  deriving DecidableEq, Repr

/-- An entry as the LDAP library constructs it: its distinguished name, and values for attributes. -/
structure SearchEntry where
  dn : String
  attrs : IndexMap (List String)

/-- The directory as the LDAP library shows it: a call can fail, and so can the result of a call. -/
structure LdapServer where
  connect : String → Except String Unit
  simpleBind : String → String → Except String (Except String Unit)
  search : String → String → List String → Except String (Except String (List SearchEntry))
  now : String

namespace SearchEntry

/-- The first value of an attribute. -/
def first (entry : SearchEntry) (key : String) : Option String :=
  (entry.attrs.get key).bind List.head?

/-- The values of an attribute. -/
def values (entry : SearchEntry) (key : String) : List String := (entry.attrs.get key).getD []

/-- The first value of an attribute, or the distinguished name. -/
def nameBy (entry : SearchEntry) (key : String) : String := (entry.first key).getD entry.dn

end SearchEntry

/-! ## Reading the directory -/

/-- The group that a distinguished name refers to. -/
def groupOfDn (dn : String) : String :=
  trimStartMatches "cn=" (((split ',' dn).head?).getD dn)

/-- The user that a distinguished name refers to. -/
def userOfDn (dn : String) : String :=
  "user:" ++ trimStartMatches "cn=" (trimStartMatches "uid=" (((split ',' dn).head?).getD dn))

def userOfEntry (entry : SearchEntry) : CanonicalIdentity :=
  { id := "user:" ++ entry.nameBy "uid"
    displayName := (entry.first "cn").getD ""
    email := entry.first "mail"
    source := "ldap"
    roles := entry.values "employeeType"
    groups := (entry.values "memberOf").map groupOfDn
    attrs := .empty }

def groupOfEntry (entry : SearchEntry) : Group :=
  { id := entry.nameBy "cn"
    name := entry.nameBy "cn"
    members := (entry.values "member").map userOfDn
    source := "ldap" }

def userAttrs : List String := ["uid", "cn", "mail", "employeeType", "memberOf"]

def groupAttrs : List String := ["cn", "member"]

/-- An error of the library, under what was tried. -/
def ldapError {α : Type} (text : String) (r : Except String α) : Except IdentityError α :=
  r.mapError fun e => .msg (text ++ ": " ++ e)

/-- `sync_live`. -/
def syncLive (server : LdapServer) (config : LdapConfig) : Except IdentityError IdentitySnapshot := do
  ldapError "ldap connect" (server.connect config.url)
  let bound ← ldapError "ldap bind" (server.simpleBind config.bindDn config.bindPassword)
  ldapError "ldap bind failed" bound
  let rs ← ldapError "ldap user search" (server.search config.baseDn config.userFilter userAttrs)
  let users ← ldapError "ldap user search failed" rs
  let grs ← ldapError "ldap group search" (server.search config.baseDn config.groupFilter groupAttrs)
  let groups ← ldapError "ldap group search failed" grs
  return ⟨users.map userOfEntry, groups.map groupOfEntry, [], some server.now⟩

/-- `group_members_map`. -/
def groupMembersMap (snapshot : IdentitySnapshot) : IndexMap (List String) :=
  snapshot.groups.foldl (fun m g => m.insert g.id g.members) .empty

/-- The map has the members of the last group of each id. -/
theorem groupMembersMap_get (snapshot : IdentitySnapshot) (id : String) :
    (groupMembersMap snapshot).get id =
      ((snapshot.groups.reverse.find? (·.id == id)).map Group.members) := by
  have hfold : ∀ groups : List Group,
      (groups.foldl (fun m g => m.insert g.id g.members) (.empty : IndexMap (List String))).get id =
        (groups.reverse.find? (·.id == id)).map Group.members := by
    intro groups
    induction groups using List.reverseRecOn with
    | nil => rfl
    | append_singleton groups g ih =>
        rw [List.foldl_append, List.foldl_cons, List.foldl_nil, List.reverse_append,
          List.reverse_singleton, List.singleton_append, List.find?_cons]
        by_cases h : g.id = id
        · rw [h, IndexMap.get_insert_self, beq_self_eq_true]
          rfl
        · rw [IndexMap.get_insert_ne _ h, ih, beq_false_of_ne h]
  exact hfold snapshot.groups

/-! ## References -/

/-- Every reference of an entry to an entry of the answer names it in the snapshot. -/
structure ReferentiallySound (users groups : List SearchEntry) (snapshot : IdentitySnapshot) :
    Prop where
  members : ∀ (i j : ℕ) (g u : SearchEntry), groups[i]? = some g → users[j]? = some u →
    u.dn ∈ g.values "member" → ∃ group user, snapshot.groups[i]? = some group ∧
      snapshot.users[j]? = some user ∧ user.id ∈ group.members
  memberOf : ∀ (i j : ℕ) (g u : SearchEntry), groups[i]? = some g → users[j]? = some u →
    g.dn ∈ u.values "memberOf" → ∃ group user, snapshot.groups[i]? = some group ∧
      snapshot.users[j]? = some user ∧ group.id ∈ user.groups

/-- Where an entry lists another, a name on the list spells what the other is known by: a run of
`uid=` and a run of `cn=` before it for a user, a run of `cn=` for a group. -/
structure SpelledReferences (users groups : List SearchEntry) : Prop where
  members : ∀ g ∈ groups, ∀ u ∈ users, u.dn ∈ g.values "member" →
    ∃ dn ∈ g.values "member", Dn.FirstSpells ["uid=", "cn="] dn (u.nameBy "uid")
  memberOf : ∀ u ∈ users, ∀ g ∈ groups, g.dn ∈ u.values "memberOf" →
    ∃ dn ∈ u.values "memberOf", Dn.FirstSpells ["cn="] dn (g.nameBy "cn")

theorem userOfDn_eq_iff {dn value : String} :
    userOfDn dn = "user:" ++ value ↔ Dn.FirstSpells ["uid=", "cn="] dn value := by
  rw [← Dn.stripTypes_first_iff (by decide), userOfDn, String.append_right_inj]
  rfl

theorem groupOfDn_eq_iff {dn value : String} :
    groupOfDn dn = value ↔ Dn.FirstSpells ["cn="] dn value :=
  @Dn.stripTypes_first_iff ["cn="] (by decide) dn value

theorem ldapError_ok {α : Type} {text : String} {r : Except String α} {a : α} :
    ldapError text r = .ok a ↔ r = .ok a := by
  cases r <;> simp [ldapError, Except.mapError]

/-- What a snapshot of the directory is made of. -/
theorem syncLive_ok {server : LdapServer} {config : LdapConfig} {snapshot : IdentitySnapshot}
    (h : syncLive server config = .ok snapshot) :
    ∃ users groups, server.search config.baseDn config.userFilter userAttrs = .ok (.ok users) ∧
      server.search config.baseDn config.groupFilter groupAttrs = .ok (.ok groups) ∧
      snapshot = ⟨users.map userOfEntry, groups.map groupOfEntry, [], some server.now⟩ := by
  obtain ⟨-, -, h⟩ := bind_eq_ok.1 h
  obtain ⟨bound, -, h⟩ := bind_eq_ok.1 h
  obtain ⟨-, -, h⟩ := bind_eq_ok.1 h
  obtain ⟨rs, hrs, h⟩ := bind_eq_ok.1 h
  obtain ⟨users, husers, h⟩ := bind_eq_ok.1 h
  obtain ⟨grs, hgrs, h⟩ := bind_eq_ok.1 h
  obtain ⟨groups, hgroups, h⟩ := bind_eq_ok.1 h
  rw [ldapError_ok] at hrs husers hgrs hgroups
  exact ⟨users, groups, by rw [hrs, husers], by rw [hgrs, hgroups], (Except.ok.inj h).symm⟩

theorem userOfEntry_listed {dns : List String} {u : SearchEntry} :
    (userOfEntry u).id ∈ dns.map userOfDn ↔
      ∃ dn ∈ dns, Dn.FirstSpells ["uid=", "cn="] dn (u.nameBy "uid") := by
  rw [List.mem_map]
  exact exists_congr fun dn => and_congr_right fun _ => userOfDn_eq_iff

theorem groupOfEntry_listed {dns : List String} {g : SearchEntry} :
    (groupOfEntry g).id ∈ dns.map groupOfDn ↔
      ∃ dn ∈ dns, Dn.FirstSpells ["cn="] dn (g.nameBy "cn") := by
  rw [List.mem_map]
  exact exists_congr fun dn => and_congr_right fun _ => groupOfDn_eq_iff

/-- **When a snapshot is referentially sound.** -/
theorem syncLive_sound_iff (server : LdapServer) (config : LdapConfig) (snapshot : IdentitySnapshot)
    (users groups : List SearchEntry) (h : syncLive server config = .ok snapshot)
    (husers : server.search config.baseDn config.userFilter userAttrs = .ok (.ok users))
    (hgroups : server.search config.baseDn config.groupFilter groupAttrs = .ok (.ok groups)) :
    ReferentiallySound users groups snapshot ↔ SpelledReferences users groups := by
  obtain ⟨users', groups', husers', hgroups', rfl⟩ := syncLive_ok h
  obtain rfl := Except.ok.inj (Except.ok.inj (husers.symm.trans husers'))
  obtain rfl := Except.ok.inj (Except.ok.inj (hgroups.symm.trans hgroups'))
  -- an entry of the answer and its image stand at the same place
  have huser : ∀ {j : ℕ} {u : SearchEntry}, users[j]? = some u →
      (users.map userOfEntry)[j]? = some (userOfEntry u) := fun hu => by
    rw [List.getElem?_map, hu]
    rfl
  have hgroup : ∀ {i : ℕ} {g : SearchEntry}, groups[i]? = some g →
      (groups.map groupOfEntry)[i]? = some (groupOfEntry g) := fun hg => by
    rw [List.getElem?_map, hg]
    rfl
  constructor
  · intro hsound
    refine ⟨fun g hg u hu hlisted => ?_, fun u hu g hg hlisted => ?_⟩
    · obtain ⟨i, hi⟩ := List.mem_iff_getElem?.1 hg
      obtain ⟨j, hj⟩ := List.mem_iff_getElem?.1 hu
      obtain ⟨group, user, hgroup', huser', hmem⟩ := hsound.members i j g u hi hj hlisted
      obtain rfl := Option.some.inj ((hgroup hi).symm.trans hgroup')
      obtain rfl := Option.some.inj ((huser hj).symm.trans huser')
      exact userOfEntry_listed.1 hmem
    · obtain ⟨i, hi⟩ := List.mem_iff_getElem?.1 hg
      obtain ⟨j, hj⟩ := List.mem_iff_getElem?.1 hu
      obtain ⟨group, user, hgroup', huser', hmem⟩ := hsound.memberOf i j g u hi hj hlisted
      obtain rfl := Option.some.inj ((hgroup hi).symm.trans hgroup')
      obtain rfl := Option.some.inj ((huser hj).symm.trans huser')
      exact groupOfEntry_listed.1 hmem
  · intro hspelled
    refine ⟨fun i j g u hi hj hlisted => ?_, fun i j g u hi hj hlisted => ?_⟩
    · have hdn := hspelled.members g (List.mem_of_getElem? hi) u (List.mem_of_getElem? hj) hlisted
      exact ⟨_, _, hgroup hi, huser hj, userOfEntry_listed.2 hdn⟩
    · have hdn := hspelled.memberOf u (List.mem_of_getElem? hj) g (List.mem_of_getElem? hi) hlisted
      exact ⟨_, _, hgroup hi, huser hj, groupOfEntry_listed.2 hdn⟩

/-! ## Directories in the usual layout -/

/-- An entry is named by the attribute that it is known by. -/
def NamedBy (key : String) (entry : SearchEntry) : Prop :=
  ∃ value rest, entry.first key = some value ∧ entry.dn = Dn.print ([⟨key, value⟩] :: rest)

/-- The value is written as it is, and looks like none of the types. -/
def PlainName (types : List String) (value : String) : Prop :=
  Dn.escape value = value ∧ ∀ p ∈ types, ¬p.toList <+: value.toList

/-- An entry that is named by its attribute is found under its own name exactly when its value is
plain. -/
theorem spells_own_iff {key : String} (types : List String) {entry : SearchEntry}
    (hcomma : ',' ∉ key.toList) (hequals : '=' ∉ key.toList)
    (htypes : ∀ p ∈ types, p.toList.count '=' = 1) (h : NamedBy key entry) :
    Dn.FirstSpells ((key ++ "=") :: types) entry.dn (entry.nameBy key) ↔
      PlainName ((key ++ "=") :: types) (entry.nameBy key) := by
  obtain ⟨value, rest, hfirst, hdn⟩ := h
  rw [SearchEntry.nameBy, hfirst, Option.getD_some, hdn]
  exact Dn.firstSpells_print_iff hcomma hequals htypes rest

/-- **The usual layout is enough.** Where users are named by `uid` and groups by `cn`, and the values
are plain, the references are spelled. -/
theorem spelled_of_plain {users groups : List SearchEntry}
    (husers : ∀ u ∈ users, NamedBy "uid" u ∧ PlainName ["uid=", "cn="] (u.nameBy "uid"))
    (hgroups : ∀ g ∈ groups, NamedBy "cn" g ∧ PlainName ["cn="] (g.nameBy "cn")) :
    SpelledReferences users groups where
  members g _ u hu hlisted := by
    obtain ⟨hnamed, hplain⟩ := husers u hu
    refine ⟨u.dn, hlisted, ?_⟩
    exact (spells_own_iff ["cn="] (by decide) (by decide) (by decide) hnamed).2 hplain
  memberOf u _ g hg hlisted := by
    obtain ⟨hnamed, hplain⟩ := hgroups g hg
    refine ⟨g.dn, hlisted, ?_⟩
    exact (spells_own_iff [] (by decide) (by decide) (by decide) hnamed).2 hplain

/-! ## Two directories -/

namespace KnownDirectory

/-- A user with a `uid`, and the group of it. -/
def alice : SearchEntry :=
  { dn := "uid=alice,ou=People,dc=example"
    attrs := .ofList [("uid", ["alice"]), ("cn", ["Alice"]),
      ("memberOf", ["cn=engineering,ou=Groups,dc=example"])] }

/-- A user without a `uid`. -/
def bob : SearchEntry :=
  { dn := "cn=Bob,ou=People,dc=example"
    attrs := .ofList [("cn", ["Bob"])] }

def engineering (members : List String) : SearchEntry :=
  { dn := "cn=engineering,ou=Groups,dc=example"
    attrs := .ofList [("cn", ["engineering"]), ("member", members)] }

def config : LdapConfig :=
  { url := "ldap://localhost:389"
    bindDn := "cn=admin,dc=example,dc=com"
    bindPassword := "admin"
    baseDn := "dc=example,dc=com"
    userFilter := "(objectClass=inetOrgPerson)"
    groupFilter := "(objectClass=groupOfNames)" }

/-- A directory of these users and groups. -/
def server (users groups : List SearchEntry) : LdapServer where
  connect _ := .ok ()
  simpleBind _ _ := .ok (.ok ())
  search _ filter _ := if filter = config.userFilter then .ok (.ok users) else .ok (.ok groups)
  now := "2023-11-14T22:13:20+00:00"

def snapshot (users groups : List SearchEntry) : IdentitySnapshot :=
  ⟨users.map userOfEntry, groups.map groupOfEntry, [], some "2023-11-14T22:13:20+00:00"⟩

theorem syncLive_server (users groups : List SearchEntry) :
    syncLive (server users groups) config = .ok (snapshot users groups) := rfl

theorem alice_plain : NamedBy "uid" alice ∧ PlainName ["uid=", "cn="] (alice.nameBy "uid") :=
  ⟨⟨"alice", [[⟨"ou", "People"⟩], [⟨"dc", "example"⟩]], by decide +kernel, by decide +kernel⟩,
    by decide +kernel, by decide +kernel⟩

theorem engineering_plain (members : List String) :
    NamedBy "cn" (engineering members) ∧ PlainName ["cn="] ((engineering members).nameBy "cn") := by
  have hdn : "cn=engineering,ou=Groups,dc=example" =
      Dn.print ([⟨"cn", "engineering"⟩] :: [[⟨"ou", "Groups"⟩], [⟨"dc", "example"⟩]]) := by
    decide +kernel
  have hplain : PlainName ["cn="] "engineering" := ⟨by decide +kernel, by decide +kernel⟩
  exact ⟨⟨"engineering", _, rfl, hdn⟩, hplain⟩

end KnownDirectory

/-- The group of a user that is named by its `uid` contains it. -/
theorem alice_sound :
    ReferentiallySound [KnownDirectory.alice] [KnownDirectory.engineering [KnownDirectory.alice.dn]]
      (KnownDirectory.snapshot [KnownDirectory.alice]
        [KnownDirectory.engineering [KnownDirectory.alice.dn]]) := by
  apply (syncLive_sound_iff (KnownDirectory.server _ _) KnownDirectory.config _ _ _ rfl rfl rfl).2
  apply spelled_of_plain
  · intro u hu
    obtain rfl := List.mem_singleton.1 hu
    exact KnownDirectory.alice_plain
  · intro g hg
    obtain rfl := List.mem_singleton.1 hg
    exact KnownDirectory.engineering_plain _

/-- A user without a `uid` has the whole name as its id, and the group that lists it the first component:
the reference is lost. -/
theorem bob_not_member :
    syncLive (KnownDirectory.server [KnownDirectory.bob]
        [KnownDirectory.engineering [KnownDirectory.bob.dn]]) KnownDirectory.config =
      .ok (KnownDirectory.snapshot [KnownDirectory.bob]
        [KnownDirectory.engineering [KnownDirectory.bob.dn]]) ∧
      ¬ReferentiallySound [KnownDirectory.bob] [KnownDirectory.engineering [KnownDirectory.bob.dn]]
        (KnownDirectory.snapshot [KnownDirectory.bob]
          [KnownDirectory.engineering [KnownDirectory.bob.dn]]) := by
  refine ⟨rfl, fun h => ?_⟩
  obtain ⟨group, user, hgroup, huser, hmem⟩ := h.members 0 0 _ _ rfl rfl (by decide +kernel)
  obtain rfl := Option.some.inj hgroup
  obtain rfl := Option.some.inj huser
  exact absurd hmem (by decide +kernel)

end Paac
