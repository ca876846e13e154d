import Paac.Bridge.Padding
import Paac.Cli.Frame
import Paac.Cli.Live

set_option autoImplicit false

/-!
# What the command line promises

The commands of a user run one after the other, and any of them may be stopped before any access to
the disk. There is one signing key, whatever is deployed is signed with it, a check decides by what
is deployed, and no crash keeps a text from going live.

The four results are about every run from a directory that is empty but for, perhaps, an active
text. They combine what every state of a run satisfies (`Runs.lean`), what commands leave alone
(`Frame.lean`) and what they come to while the disk works (`Live.lean`). What is assumed is that
accesses do not fail on their own (`CrashOnly`), and of the libraries that encodings are read back
and that a signature verifies under its key.

## Main results

- `files_read_back`: every file the commands write is read as it was written.
- `one_signing_key`: what is deployed was edited, validated and signed with the key of the key file,
  which never changes.
- `check_follows_release`: a check evaluates its request by the policies compiled from the text of
  the deployed revision, with the groups of a synced snapshot.
- `text_goes_live`: after any crashes a valid text is deployed by four commands, and stays the one
  that checks decide by until the next deployment.
-/

namespace Paac

open Cedar (Engine)

open Serde

/-! ## Files -/

/-- **Every file reads back.** What the commands write and later parse again (revisions with their
bundles, the key pair, the snapshot of identities) is read as it was written, whatever its texts
hold. -/
theorem files_read_back :
    (∀ rev : PolicyRevision,
        fromText PolicyRevision.fromJson (toPretty PolicyRevision.toJson rev) = .ok rev) ∧
      (∀ pair : SigningKeyPair,
        fromText SigningKeyPair.fromJson (toPretty SigningKeyPair.toJson pair) = .ok pair) ∧
      ∀ snap : IdentitySnapshot,
        fromText IdentitySnapshot.fromJson (toPretty IdentitySnapshot.toJson snap) = .ok snap :=
  ⟨PolicyRevision.fromText_toPretty, SigningKeyPair.fromText_toPretty,
    IdentitySnapshot.fromText_toPretty⟩

/-! ## A release after a crash -/

namespace KnownCli

/-- The value of a hexadecimal digit. -/
def digitValue (c : Char) : Option Nat :=
  if '0' ≤ c ∧ c ≤ '9' then some (c.toNat - 48)
  else if 'a' ≤ c ∧ c ≤ 'f' then some (c.toNat - 87)
  else if 'A' ≤ c ∧ c ≤ 'F' then some (c.toNat - 55)
  else none

def decodeDigits : List Char → Except String Bytes
  | [] => .ok []
  | [_] => .error "Odd number of digits"
  | high :: low :: cs =>
      match digitValue high, digitValue low with
      | some h, some l => do
          let bs ← decodeDigits cs
          return UInt8.ofNat (16 * h + l) :: bs
      | _, _ => .error "Invalid character"

/-- The libraries of the known revision, which decode every hexadecimal text. -/
def lib : CryptoLib :=
  { KnownRevision.lib with hexDecode := fun text => decodeDigits text.toList }

theorem digitValue_digit : ∀ n < 16, digitValue (Hex.digit n) = some n := by decide

theorem decodeDigits_encode (bs : Bytes) : decodeDigits (Hex.encode bs).toList = .ok bs := by
  induction bs with
  | nil => rfl
  | cons b bs ih =>
      obtain ⟨hhigh, hlow⟩ := Hex.digits_lt b
      have hb : 16 * (b.toNat / 16) + b.toNat % 16 = b.toNat := Nat.div_add_mod _ _
      simp only [Hex.encode_cons, decodeDigits, digitValue_digit _ hhigh, digitValue_digit _ hlow,
        ih, bind_ok_eq, hb, UInt8.ofNat_toNat]
      rfl

theorem lib_sound : lib.Sound where
  base64 := KnownRevision.base64
  hex := decodeDigits_encode
  ed25519 sk message := by
    refine ⟨_, _, rfl, rfl, ?_⟩
    simp only [lib, KnownRevision.lib]
    by_cases h : sk = KnownRevision.secret ∧
        message = signedMessage KnownRevision.revision (Hex.encode KnownRevision.digest.1)
    · rw [if_pos h, if_pos rfl, if_pos h.1, h.2]
      decide
    · rw [if_neg h, if_neg (by decide)]

/-- The first command is stopped before its only access. -/
def env : CliEnv Engine.reference where
  crypto := lib
  describe _ := "expected value at line 1 column 1"
  captures _ _ := none
  now _ := ⟨1700000000, "2023-11-14T22:13:20+00:00"⟩
  secret _ := KnownRevision.secret
  fresh n := ⟨toString n, "2023-11-14T22:13:20+00:00"⟩
  fault n := if n = 0 then some .stopped else none

theorem crashOnly : env.CrashOnly := by
  intro n e h
  simp only [env] at h
  split at h
  · cases h
  · cases h

/-- The edit is stopped, and made again before the release. -/
def commands : List CliCommand :=
  [.edit KnownRevision.dsl] ++ [.edit KnownRevision.dsl, .commit "first", .sign, .deploy]

theorem worksFrom : env.storeEnv.WorksFrom 1 := by
  intro n hn
  have hne : n ≠ 0 := by omega
  exact if_neg hne

def args : CheckArgs := ⟨"user:ada", "READ", "GENERAL_CHAT", none, [], [], [], none⟩

def request : AuthzRequest :=
  { principal := Principal.withRoles "user:ada" []
    action := ⟨"READ"⟩
    resource := ⟨"GENERAL_CHAT", none, .empty⟩
    subject := none
    context := ⟨.empty⟩
    relationships := []
    actingAs := none
    onBehalfOf := none }

theorem request_args : args.request env.captures = .ok request := rfl

def policies : List DslPolicy :=
  match parseDsl KnownRevision.dsl with
  | .ok ps => ps
  | .error _ => []

theorem validate_dsl : validateDsl Engine.reference KnownRevision.dsl = .ok policies := by
  decide +kernel

/-- The text goes live. -/
theorem live : ∃ rev b secret disk, (rev.message = "first" ∧ rev.dsl = KnownRevision.dsl ∧
      rev.cedar = dslToCedar policies ∧ rev.bundle = some b) ∧
    disk .deployed = some (env.storeEnv.toJson rev) ∧
    FilesFrom 1 disk (some (keyText env.crypto secret)) none
      (runCommands env commands (CliWorld.initial none 0)) := by
  have hstart : FilesFrom 1 (CliWorld.initial none 0).store.disk none none
      (runCommands env [.edit KnownRevision.dsl] (CliWorld.initial none 0)) :=
    ⟨⟨rfl, le_refl 1⟩, rfl, rfl⟩
  obtain ⟨rev, b, secret, disk, hrev, -, hdeployed, hlive⟩ := filesFrom_goLive worksFrom lib_sound
    KeyFile.missing validate_dsl "first" hstart
  rw [commands, runCommands, List.foldl_append]
  exact ⟨rev, b, secret, disk, hrev, hdeployed, hlive⟩

/-- A check is decided. -/
theorem checked : ∃ d code,
    (checkCmd env args (runCommands env commands (CliWorld.initial none 0))).result =
      .ok (d, code) := by
  obtain ⟨rev, b, secret, disk, ⟨-, -, hcedar, -⟩, hdeployed, hlive⟩ := live
  obtain ⟨-, -, set, hset, -⟩ := validateDsl_ok validate_dsl
  rw [← hcedar] at hset
  have hvalid : request.validate = .ok () ∧ isSimpleRequest request = true := by decide +kernel
  have hnone : ∀ text : String, none = some text → ∃ snap ∈ (∅ : Set IdentitySnapshot),
      text = toPretty IdentitySnapshot.toJson snap := fun _ h => by cases h
  obtain ⟨members, fresh, -, hresult⟩ :=
    checkCmd_deployed worksFrom hnone hdeployed hset request_args hlive
  obtain ⟨d, hd⟩ := evaluate_reference hvalid.1 hvalid.2 fresh
    ⟨set, rev.revision, rev.bundle.map (·.keyId), members⟩
  rw [hd] at hresult
  exact ⟨d, exitCode d, hresult⟩

end KnownCli

section

variable {E : Engine}

/-! ## The key -/

/-- The bundle verifies under the public half of the pair. -/
def SignedBundle.VerifiesUnder (crypto : CryptoLib) (pair : SigningKeyPair) (b : SignedBundle) :
    Prop :=
  ∃ key, crypto.hexDecode pair.publicHex = .ok key ∧ verifyBundle crypto b key = .ok true

/-- The file in which a revision is deployed: it was compiled from one of these texts, which passed
validation, and its bundle is one for its own texts that the key of the key file signed. -/
def DeployedSigned (env : CliEnv E) (texts : Set String) (w : CliWorld) (rev : PolicyRevision) :
    Prop :=
  ∃ text b keyFile pair, w.store.disk .deployed = some text ∧
    fromText PolicyRevision.fromJson text = .ok rev ∧ rev.Authored E texts ∧
      rev.bundle = some b ∧ b.revision = rev.revision ∧ b.cedar = rev.cedar ∧ b.dsl = rev.dsl ∧
        w.key = some keyFile ∧ fromText SigningKeyPair.fromJson keyFile = .ok pair ∧
          b.VerifiesUnder env.crypto pair

/-- Whatever is deployed in a state that runs reach is signed. -/
theorem CliSound.deployed {env : CliEnv E} (hcrypto : env.crypto.Sound) {texts : Set String}
    {snaps : Set IdentitySnapshot} {known : Option String} {w : CliWorld}
    (h : CliSound env texts snaps known w) {text : String}
    (htext : w.store.disk .deployed = some text) : ∃ rev, DeployedSigned env texts w rev := by
  obtain ⟨key, signers, ⟨hkey, -⟩, hw⟩ := h
  obtain ⟨rev, b, hrev, hb, hrevision, hcedar, hdsl, signer, hsigner, hverify⟩ :=
    hw.store.sound.deployed text htext
  have hauthored := hw.store.deployed text rev htext hrev
  cases hkey with
  | missing => exact absurd hsigner (Set.notMem_empty signer)
  | made secret =>
      obtain rfl := Set.mem_singleton_iff.1 hsigner
      exact ⟨rev, text, b, _, _, htext, (mapErr_eq_ok _ _ _).1 hrev, hauthored, hb, hrevision,
        hcedar, hdsl, hw.key, SigningKeyPair.fromText_toPretty _, _, hcrypto.hex _, hverify⟩

/-- **There is one signing key.** In every state that commands reach, the deployed revision was
compiled from an edited text that passed validation, and its bundle is one for its texts that
verifies under the public key of the key file. Once made, the key file stays as it is. -/
theorem one_signing_key (env : CliEnv E) (hcrash : env.CrashOnly) (hcrypto : env.crypto.Sound)
    (seed : Option String) (start : Nat) (commands : List CliCommand) :
    let w := runCommands env commands (CliWorld.initial seed start)
    (∀ text, w.store.disk .deployed = some text → ∃ rev b keyFile pair,
      fromText PolicyRevision.fromJson text = .ok rev ∧
        rev.Authored E (editedTexts seed commands) ∧ rev.bundle = some b ∧
        b.revision = rev.revision ∧ b.cedar = rev.cedar ∧ b.dsl = rev.dsl ∧
        w.key = some keyFile ∧ fromText SigningKeyPair.fromJson keyFile = .ok pair ∧
        b.VerifiesUnder env.crypto pair) ∧
      ∀ keyFile more, w.key = some keyFile → (runCommands env more w).key = some keyFile := by
  intro w
  constructor
  · intro text htext
    obtain ⟨rev, text', b, keyFile, pair, htext', hrest⟩ :=
      (sound_runCommands hcrash hcrypto seed start commands).deployed hcrypto htext
    obtain rfl : text = text' := Option.some.inj (htext.symm.trans htext')
    exact ⟨rev, b, keyFile, pair, hrest⟩
  · intro keyFile more hfile
    -- which texts and snapshots come in is of no matter here
    obtain ⟨key, signers, ⟨hkey, -⟩, hw⟩ : CliSound env Set.univ Set.univ none w := by
      refine CliSound.commands hcrash hcrypto (fun _ _ => Set.subset_univ _)
        (fun _ _ => Set.subset_univ _) ?_
      exact ⟨none, ∅, ⟨.missing, fun _ h => by cases h⟩, governed_seed fun _ _ => trivial, rfl,
        fun _ h => by cases h⟩
    have hknown : CliSound env Set.univ Set.univ (some keyFile) w :=
      ⟨key, signers, ⟨hkey, fun _ h => by rw [← h, ← hfile, hw.key]⟩, hw⟩
    obtain ⟨key', signers', ⟨-, hkey'⟩, hw'⟩ : CliSound env Set.univ Set.univ (some keyFile)
        (runCommands env more w) :=
      hknown.commands hcrash hcrypto (fun _ _ => Set.subset_univ _) fun _ _ => Set.subset_univ _
    rw [hw'.key, hkey' keyFile rfl]

/-- The key that signed the release is in the key file, and stays there. -/
theorem one_signing_key_live : ∃ (text keyFile : String) (rev : PolicyRevision)
    (pair : SigningKeyPair) (b : SignedBundle),
    (runCommands KnownCli.env KnownCli.commands (CliWorld.initial none 0)).store.disk .deployed =
        some text ∧
      fromText PolicyRevision.fromJson text = .ok rev ∧ rev.bundle = some b ∧
      (runCommands KnownCli.env KnownCli.commands (CliWorld.initial none 0)).key = some keyFile ∧
      fromText SigningKeyPair.fromJson keyFile = .ok pair ∧ b.VerifiesUnder KnownCli.lib pair ∧
      (runCommands KnownCli.env [.sign] (runCommands KnownCli.env KnownCli.commands
        (CliWorld.initial none 0))).key = some keyFile := by
  obtain ⟨rev, b, secret, disk, -, hdeployed, hlive⟩ := KnownCli.live
  obtain ⟨hsigned, hkept⟩ := one_signing_key KnownCli.env KnownCli.crashOnly KnownCli.lib_sound none
    0 KnownCli.commands
  have htext := (congrFun hlive.store.1 .deployed).trans hdeployed
  obtain ⟨rev, b, keyFile, pair, hrev, -, hb, -, -, -, hkey, hpair, hverify⟩ := hsigned _ htext
  exact ⟨_, keyFile, rev, pair, b, htext, hrev, hb, hkey, hpair, hverify, hkept keyFile [.sign] hkey⟩

/-! ## Checks -/

/-- The names of the phrases are plain. -/
theorem Phrase.plain : ∀ p ∈ Phrase.all,
    Cedar.isPlain (Text.trim (p.extraction "" none).action) = true ∧
      Cedar.isPlain (Text.trim (p.extraction "" none).resourceKind) = true := by
  decide +kernel

/-- No request of a check sets a built-in attribute, and the names of an utterance are plain. -/
theorem request_plain {captures : String → String → Option String} {args : CheckArgs}
    {req : AuthzRequest} (h : args.request captures = .ok req)
    (hflags : args.nl = none →
      Cedar.isPlain args.action = true ∧ Cedar.isPlain args.resource = true) :
    AvoidsBuiltins req ∧ Cedar.isPlain req.action.name = true ∧
      Cedar.isPlain req.resource.kind = true := by
  unfold CheckArgs.request at h
  cases hnl : args.nl with
  | none =>
      rw [hnl] at h
      obtain rfl := Except.ok.inj h
      exact ⟨fun k hk => absurd hk List.not_mem_nil, hflags hnl⟩
  | some utterance =>
      rw [hnl] at h
      obtain ⟨extraction, hextraction, hbind⟩ := bind_eq_ok.1 h
      obtain ⟨⟨p, id⟩, -, rfl⟩ := reading_of_extracted hextraction
      obtain rfl := bindExtraction_eq hbind
      have havoid : ∀ k ∈ ["nl_utterance", "extraction_confidence", "proposal_only"],
          k ∉ builtinNames := by
        decide
      have hp : p ∈ Phrase.all := by cases p <;> decide
      -- action and kind are the same for every utterance of the phrase
      have hnames : (p.extraction utterance id).action = (p.extraction "" none).action ∧
          (p.extraction utterance id).resourceKind = (p.extraction "" none).resourceKind := by
        cases p <;> exact ⟨rfl, rfl⟩
      obtain ⟨haction, hkind⟩ := p.plain hp
      rw [← hnames.1] at haction
      rw [← hnames.2] at hkind
      exact ⟨havoid, haction, hkind⟩

/-- **A check follows the release.** Its decision is the evaluation of its own request by the
policies of the revision that is deployed when it runs, which was edited, validated and signed with
the key of the key file, with the groups of a synced snapshot if with any. It allows exactly when the
policies of that text grant the facts of the request, and the exit code tells a denial. -/
theorem check_follows_release (hE : E.Lawful) (env : CliEnv E) (hcrash : env.CrashOnly)
    (hcrypto : env.crypto.Sound) (seed : Option String) (start : Nat) (commands : List CliCommand)
    (args : CheckArgs) {d : AuthzDecision} {code : Nat}
    (hcheck : (checkCmd env args
      (runCommands env commands (CliWorld.initial seed start))).result = .ok (d, code)) :
    ∃ req rev policies set members fresh, args.request env.captures = .ok req ∧
      DeployedSigned env (editedTexts seed commands)
        (runCommands env commands (CliWorld.initial seed start)) rev ∧
      validateDsl E rev.dsl = .ok policies ∧ cedarPolicySetFromDsl E policies = .ok set ∧
      MembersOf (syncedSnapshots commands) members ∧
      evaluate E fresh req ⟨set, rev.revision, rev.bundle.map (·.keyId), members⟩ = .ok d ∧
      (code = 2 ↔ d.effect = .deny) ∧
      (policies.all DslPolicy.plainNames = true →
        (args.nl = none → Cedar.isPlain args.action = true ∧ Cedar.isPlain args.resource = true) →
        (d.effect = .allow ↔ Grants policies (Facts.of req))) := by
  have hsound := sound_runCommands hcrash hcrypto seed start commands
  obtain ⟨⟨req, hreq, hchecked, hcode⟩, -⟩ := (hsound.checkCmd hcrash args).1 _ hcheck
  obtain ⟨text, rev, set, members, fresh, htext, hrev, hset, hmembers, hd⟩ := hchecked
  -- the deployed file is the one whose signature is known
  obtain ⟨rev', hdeployed⟩ := hsound.deployed hcrypto htext
  obtain ⟨text', b, keyFile, pair, htext', hrev', hauthored, -⟩ := id hdeployed
  obtain rfl : text = text' := Option.some.inj (htext.symm.trans htext')
  obtain rfl : rev = rev' := Except.ok.inj (hrev.symm.trans hrev')
  obtain ⟨-, policies, hvalid, hcedar⟩ := hauthored
  have hcompiled : cedarPolicySetFromDsl E policies = .ok set := by
    rw [cedarPolicySetFromDsl, ← hcedar, hset]
  refine ⟨req, rev, policies, set, members, fresh, hreq, hdeployed, hvalid, hcompiled, hmembers, hd,
    ?_, ?_⟩
  · obtain rfl : code = exitCode d := hcode
    cases heffect : d.effect <;> simp [exitCode, heffect]
  · intro hplain hflags
    obtain ⟨havoid, haction, hkind⟩ := request_plain hreq hflags
    exact evaluate_compiled hE hplain (cedarPolicySetFromDsl_ok hcompiled) havoid haction hkind hd

/-- The check after the release allows, with exit code 0. -/
theorem check_follows_release_live : ∃ (d : AuthzDecision) (code : Nat) (rev : PolicyRevision)
    (policies : List DslPolicy) (set : Engine.reference.PolicySet),
    (checkCmd KnownCli.env KnownCli.args
      (runCommands KnownCli.env KnownCli.commands (CliWorld.initial none 0))).result =
        .ok (d, code) ∧
      DeployedSigned KnownCli.env (editedTexts none KnownCli.commands)
        (runCommands KnownCli.env KnownCli.commands (CliWorld.initial none 0)) rev ∧
      validateDsl Engine.reference rev.dsl = .ok policies ∧
      cedarPolicySetFromDsl Engine.reference policies = .ok set ∧
      (code = 2 ↔ d.effect = .deny) ∧
      (policies.all DslPolicy.plainNames = true →
        (d.effect = .allow ↔ Grants policies (Facts.of KnownCli.request))) := by
  obtain ⟨d, code, hcheck⟩ := KnownCli.checked
  obtain ⟨req, rev, policies, set, members, fresh, hreq, hdeployed, hvalid, hset, -, -, hcode,
    hgrants⟩ := check_follows_release Cedar.Engine.reference_lawful KnownCli.env KnownCli.crashOnly
      KnownCli.lib_sound none 0 KnownCli.commands KnownCli.args hcheck
  obtain rfl : KnownCli.request = req := Except.ok.inj hreq
  exact ⟨d, code, rev, policies, set, hcheck, hdeployed, hvalid, hset, hcode,
    fun hplain => hgrants hplain fun _ => by decide⟩

/-! ## Going live -/

/-- **No crash keeps a text from going live.** After any commands, stopped wherever they were, once
the disk works again: a text that passes validation is deployed by four commands, signed with the
key of the key file, and until the next deployment every check has the outcome of its policies,
whatever other commands come in between. -/
theorem text_goes_live (env : CliEnv E) (hcrash : env.CrashOnly) (hcrypto : env.crypto.Sound)
    (seed : Option String) (start : Nat) (commands : List CliCommand)
    (hworks : env.storeEnv.WorksFrom
      (runCommands env commands (CliWorld.initial seed start)).store.tick)
    {dsl : String} {policies : List DslPolicy} (hvalid : validateDsl E dsl = .ok policies)
    (message : String) :
    let w := runCommands env (commands ++ [.edit dsl, .commit message, .sign, .deploy])
      (CliWorld.initial seed start)
    ∃ rev set b keyFile pair, rev.message = message ∧ rev.dsl = dsl ∧ rev.bundle = some b ∧
      w.store.disk .deployed = some (toPretty PolicyRevision.toJson rev) ∧
      w.key = some keyFile ∧ fromText SigningKeyPair.fromJson keyFile = .ok pair ∧
      b.VerifiesUnder env.crypto pair ∧ cedarPolicySetFromDsl E policies = .ok set ∧
      ∀ more, (∀ c ∈ more, c ≠ .deploy) → ∀ args req, args.request env.captures = .ok req →
        DecidedBy E (syncedSnapshots (commands ++ more)) rev set req
          (checkCmd env args (runCommands env more w)).result := by
  obtain ⟨key, signers, ⟨hkey, -⟩, hw⟩ := sound_runCommands hcrash hcrypto seed start commands
  obtain ⟨rev, b, secret, disk, ⟨hmessage, hdsl, hcedar, hbundle⟩, ⟨signedAt, hb⟩, hdeployed,
    hlive⟩ := filesFrom_goLive hworks hcrypto hkey hvalid message
      (w := runCommands env commands (CliWorld.initial seed start)) ⟨⟨rfl, le_refl _⟩, hw.key, rfl⟩
  obtain ⟨-, -, set, hset, -⟩ := validateDsl_ok hvalid
  have hgenuine := LocalEd25519Signer.genuine hcrypto.ed25519 (localSigner env.crypto secret)
  have hverify := verifyBundle_signBundle hgenuine hcrypto.base64 hb
  have hrun : runCommands env (commands ++ [.edit dsl, .commit message, .sign, .deploy])
      (CliWorld.initial seed start) = runCommands env [.edit dsl, .commit message, .sign, .deploy]
        (runCommands env commands (CliWorld.initial seed start)) := by
    rw [runCommands, List.foldl_append]
    rfl
  have hfile := (congrFun hlive.store.1 .deployed).trans hdeployed
  rw [← hrun] at hlive hfile
  refine ⟨rev, set, b, _, _, hmessage, hdsl, hbundle, hfile, hlive.key,
    SigningKeyPair.fromText_toPretty _, ⟨_, hcrypto.hex _, hverify⟩, ?_, ?_⟩
  · rw [cedarPolicySetFromDsl, hset]
  · intro more hmore args req hreq
    -- the file stays, and the snapshot is still one that was synced
    obtain ⟨hkept, htick⟩ := deployed_runCommands env hmore (runCommands env
      (commands ++ [.edit dsl, .commit message, .sign, .deploy]) (CliWorld.initial seed start))
    obtain ⟨key', signers', -, hstate⟩ := sound_runCommands hcrash hcrypto seed start
      ((commands ++ [.edit dsl, .commit message, .sign, .deploy]) ++ more)
    have hsnapshot := hstate.snapshot
    rw [runCommands, List.foldl_append] at hsnapshot
    have hsynced : syncedSnapshots ((commands ++ [.edit dsl, .commit message, .sign, .deploy]) ++
        more) = syncedSnapshots (commands ++ more) := by
      ext snap
      simp [syncedSnapshots]
    rw [hsynced] at hsnapshot
    rw [← hcedar] at hset
    exact checkCmd_deployed hworks hsnapshot (hkept.trans hfile) hset hreq
      ⟨⟨rfl, hlive.store.2.trans htick⟩, rfl, rfl⟩

end

/-- The text that was lost in the crash goes live, and stays live while another one is edited. -/
theorem text_goes_live_known : ∃ (rev : PolicyRevision) (set : Engine.reference.PolicySet),
    rev.dsl = KnownRevision.dsl ∧
      (runCommands KnownCli.env KnownCli.commands (CliWorld.initial none 0)).store.disk .deployed =
        some (toPretty PolicyRevision.toJson rev) ∧
      DecidedBy Engine.reference (syncedSnapshots [.edit KnownRevision.dsl, .edit "", .sign]) rev set
        KnownCli.request (checkCmd KnownCli.env KnownCli.args (runCommands KnownCli.env
          [.edit "", .sign] (runCommands KnownCli.env KnownCli.commands
            (CliWorld.initial none 0)))).result := by
  obtain ⟨rev, set, b, keyFile, pair, -, hdsl, -, hdeployed, -, -, -, -, hdecided⟩ :=
    text_goes_live KnownCli.env KnownCli.crashOnly KnownCli.lib_sound none 0
      [.edit KnownRevision.dsl] KnownCli.worksFrom KnownCli.validate_dsl "first"
  have hcheck := hdecided [.edit "", .sign] (by simp) KnownCli.args KnownCli.request
    KnownCli.request_args
  rw [KnownCli.commands]
  exact ⟨rev, set, hdsl, hdeployed, hcheck⟩

end Paac
