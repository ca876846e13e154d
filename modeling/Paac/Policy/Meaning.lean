import Paac.Library.Words
import Paac.Policy.Compiled

set_option autoImplicit false

/-!
# What a policy text says

The documented meaning of the policy language, on the clause lines of a text and without the
parser's records: a text is a list of blocks, a block a name and its clauses, and a block matches a
request when its rule line, its role lines, its subject lines and its exempt lines do. The rule for
the text is that an allow block matches, and no deny or review block does.

This is the abstract side of the parser. Clauses are read line by line, without error paths: a text
with a line that is no clause has no blocks. The records of the parser are then shown to list what
the blocks say: `Partial.Lists` and `DslPolicy.Lists` relate a record with a block field by field,
with the subjects in the two lists that the parser sorts them into.

## Main results

- `parseWhen_iff`, `parseUnless_iff`, `parseWhere_iff`, `parseActionResource_iff`: the parser of
  each keyword adds the clause that the line is read as, and fails exactly where there is none.
- `Partial.Lists.add`: a clause added to a record lists what is added to the block.
- `parseLine_reads`, `parseLines_reads`: a line and, by induction, all the lines of a text.
- `parseDsl_reads`: the records of an accepted text list what its blocks say.
-/

namespace Paac

/-! ## Clauses -/

/-- What a `where` or `or` line asks of the subject. -/
inductive SubjectLine where
  | self
  | directReports
  | group (g : String)
  | id (x : String)
  deriving DecidableEq, Repr

/-- The clauses of the language. -/
inductive Clause where
  /-- `policy "name"` -/
  | header (name : String)
  /-- `when role == R`, `when role in [R, ...]` -/
  | roles (rs : List String)
  /-- `allow A K`, `deny A K`, `review A K` -/
  | rule (e : DslEffect) (action resource : String)
  /-- `where subject ...`, `or subject ...` -/
  | subject (l : SubjectLine)
  /-- `unless role == R`, `unless role in [R, ...]` -/
  | exempt (rs : List String)
  deriving DecidableEq, Repr

/-- The roles named behind `when` or `unless`. -/
def readRoles (rest : String) : Option (List String) :=
  match Text.stripPrefix "role ==" (Text.trim rest) with
  | some r => some [Text.trim r]
  | none => (Text.stripPrefix "role in " (Text.trim rest)).map parseList

/-- A group may be written with the suffix `_GROUP`. -/
def groupName (name : String) : String :=
  if Text.endsWith "_GROUP" name || name = "EXECUTIVE_GROUP" || Text.contains "GROUP" name then
    Text.trimEndMatches "_GROUP" name
  else name

/-- The keywords for subjects, or an id. -/
def subjectNamed (x : String) : SubjectLine :=
  if x = "SELF" then .self else if x = "DIRECT_REPORTS" then .directReports else .id x

/-- What is asked behind `where` or `or`. -/
def readSubject (rest : String) : Option SubjectLine :=
  let rest := Text.trim rest
  if rest = "subject == SELF" ∨ rest = "subject==SELF" then some .self
  else
    match Text.stripPrefix "subject in " rest with
    | some r =>
        some (if Text.trim r = "DIRECT_REPORTS" then .directReports else .group (groupName (Text.trim r)))
    | none => (Text.stripPrefix "subject == " rest).map fun r => subjectNamed (Text.trim r)

/-- Action and resource kind behind the effect. -/
def readRule (e : DslEffect) (rest : String) : Option Clause :=
  match Text.splitWhitespace rest with
  | action :: resource :: _ =>
      some (.rule e (Text.toAsciiUppercase action) (Text.toAsciiUppercase resource))
  | _ => none

/-- The clause on a line, told by its first word. -/
def readClause (line : String) : Option Clause :=
  match Text.stripPrefix "policy " line with
  | some rest => (parseQuotedName rest).map .header
  | none =>
  match Text.stripPrefix "when " line with
  | some rest => (readRoles rest).map .roles
  | none =>
  match Text.stripPrefix "allow " line with
  | some rest => readRule .allow rest
  | none =>
  match Text.stripPrefix "deny " line with
  | some rest => readRule .deny rest
  | none =>
  match Text.stripPrefix "review " line with
  | some rest => readRule .review rest
  | none =>
  match Text.stripPrefix "where " line with
  | some rest => (readSubject rest).map .subject
  | none =>
  match Text.stripPrefix "or " line with
  | some rest => (readSubject rest).map .subject
  | none => (Text.stripPrefix "unless " line).bind fun rest => (readRoles rest).map .exempt

/-- The ways to read a clause on a line. -/
inductive ReadsClause (line : String) : Clause → Prop where
  | header {rest name : String} (hrest : Text.stripPrefix "policy " line = some rest)
      (hname : parseQuotedName rest = some name) : ReadsClause line (.header name)
  | roles {rest : String} {rs : List String} (hrest : Text.stripPrefix "when " line = some rest)
      (hrs : readRoles rest = some rs) : ReadsClause line (.roles rs)
  | rule {keyword rest : String} {e : DslEffect} {c : Clause}
      (hrest : Text.stripPrefix keyword line = some rest) (hrule : readRule e rest = some c) :
      ReadsClause line c
  | subject {keyword rest : String} {l : SubjectLine}
      (hrest : Text.stripPrefix keyword line = some rest) (hl : readSubject rest = some l) :
      ReadsClause line (.subject l)
  | exempt {rest : String} {rs : List String}
      (hrest : Text.stripPrefix "unless " line = some rest) (hrs : readRoles rest = some rs) :
      ReadsClause line (.exempt rs)

/-- A line is read by the keyword that it starts with. -/
theorem readClause_cases {line : String} {c : Clause} (h : readClause line = some c) :
    ReadsClause line c := by
  unfold readClause at h
  cases h₀ : Text.stripPrefix "policy " line with
  | some rest =>
      rw [h₀] at h
      obtain ⟨name, hname, rfl⟩ := Option.map_eq_some_iff.1 h
      exact .header h₀ hname
  | none =>
  rw [h₀] at h
  cases h₁ : Text.stripPrefix "when " line with
  | some rest =>
      rw [h₁] at h
      obtain ⟨rs, hrs, rfl⟩ := Option.map_eq_some_iff.1 h
      exact .roles h₁ hrs
  | none =>
  rw [h₁] at h
  cases h₂ : Text.stripPrefix "allow " line with
  | some rest =>
      rw [h₂] at h
      exact .rule h₂ h
  | none =>
  rw [h₂] at h
  cases h₃ : Text.stripPrefix "deny " line with
  | some rest =>
      rw [h₃] at h
      exact .rule h₃ h
  | none =>
  rw [h₃] at h
  cases h₄ : Text.stripPrefix "review " line with
  | some rest =>
      rw [h₄] at h
      exact .rule h₄ h
  | none =>
  rw [h₄] at h
  cases h₅ : Text.stripPrefix "where " line with
  | some rest =>
      rw [h₅] at h
      obtain ⟨l, hl, rfl⟩ := Option.map_eq_some_iff.1 h
      exact .subject h₅ hl
  | none =>
  rw [h₅] at h
  cases h₆ : Text.stripPrefix "or " line with
  | some rest =>
      rw [h₆] at h
      obtain ⟨l, hl, rfl⟩ := Option.map_eq_some_iff.1 h
      exact .subject h₆ hl
  | none =>
      rw [h₆] at h
      obtain ⟨rest, h₇, h⟩ := Option.bind_eq_some_iff.1 h
      obtain ⟨rs, hrs, rfl⟩ := Option.map_eq_some_iff.1 h
      exact .exempt h₇ hrs

theorem readRule_eq {e : DslEffect} {rest : String} {c : Clause} (h : readRule e rest = some c) :
    ∃ a k, c = .rule e a k := by
  unfold readRule at h
  split at h
  · exact ⟨_, _, (Option.some.inj h).symm⟩
  · cases h

/-- Only a line with the keyword is a header. -/
theorem readClause_ne_header {line : String} (hline : Text.stripPrefix "policy " line = none)
    (name : String) : readClause line ≠ some (.header name) := by
  intro h
  cases readClause_cases h with
  | header hrest => cases hline.symm.trans hrest
  | rule hrest hrule =>
      obtain ⟨a, k, hc⟩ := readRule_eq hrule
      cases hc

/-! ## Blocks -/

/-- A policy as it is written: its name and its clauses in order. -/
structure Block where
  name : String
  clauses : List Clause
  deriving DecidableEq, Repr

/-- Blocks read so far, the last one open. -/
structure Blocks where
  done : List Block
  current : Option Block
  deriving DecidableEq, Repr

/-- All blocks read so far. -/
def Blocks.all (s : Blocks) : List Block := s.done ++ s.current.toList

/-- A header opens a block; any other clause belongs to the open one. -/
def Blocks.push (s : Blocks) : Clause → Option Blocks
  | .header name => some ⟨s.all, some ⟨name, []⟩⟩
  | c => s.current.map fun b => { s with current := some ⟨b.name, b.clauses ++ [c]⟩ }

theorem Blocks.push_eq {c : Clause} (hc : ∀ n, c ≠ .header n) (s : Blocks) :
    s.push c = s.current.map fun b => { s with current := some ⟨b.name, b.clauses ++ [c]⟩ } := by
  cases c with
  | header n => exact absurd rfl (hc n)
  | roles _ | rule _ _ _ | subject _ | exempt _ => rfl

/-- One line; an empty line or a comment says nothing. -/
def Blocks.readLine (s : Blocks) (rawLine : String) : Option Blocks :=
  let line := Text.trim (stripComment rawLine)
  if line.isEmpty then some s else (readClause line).bind s.push

/-- The blocks of a text. -/
def readBlocks (input : String) : Option (List Block) :=
  ((Text.lines input).foldlM Blocks.readLine ⟨[], none⟩).map Blocks.all

/-- Effect, action and resource kind of a rule line. -/
def Clause.rule? : Clause → Option (DslEffect × String × String)
  | .rule e a k => some (e, a, k)
  | _ => none

/-- The last rule line of the block, which fixes its effect, action and resource kind. -/
def lastRule : List Clause → Option (DslEffect × String × String)
  | [] => none
  | c :: cs => (lastRule cs).or c.rule?

/-- The roles of each `when` line. -/
def roleLists (cs : List Clause) : List (List String) :=
  cs.filterMap fun
    | .roles rs => some rs
    | _ => none

/-- The subject lines. -/
def subjectLines (cs : List Clause) : List SubjectLine :=
  cs.filterMap fun
    | .subject l => some l
    | _ => none

/-- The roles of all `unless` lines. -/
def exemptRoles (cs : List Clause) : List String :=
  (cs.filterMap fun
    | .exempt rs => some rs
    | _ => none).flatten

/-! ## Matching -/

/-- The subject line holds of the request. -/
def SubjectLine.holds (req : AuthzRequest) : SubjectLine → Bool
  | .self => subjectIsSelf req
  | .directReports => subjectInDirectReports req
  | .group g =>
      match req.subject with
      | some s => s.groups.contains g
      | none => false
  | .id x =>
      match req.subject with
      | some s => s.id = x
      | none => false

/-- The principal holds one of the roles. -/
def holdsRole (req : AuthzRequest) (rs : List String) : Bool := rs.any req.principal.roles.contains

/-- The rule line is about the action and the kind of the request. -/
def ruleApplies (req : AuthzRequest) (cs : List Clause) : Bool :=
  match lastRule cs with
  | some (_, a, k) =>
      Text.toAsciiUppercase req.action.name = a && Text.toAsciiUppercase req.resource.kind = k
  | none => false

/-- There is no `when` line, or the principal holds a role that one of them names. -/
def rolesHold (req : AuthzRequest) (cs : List Clause) : Bool :=
  (roleLists cs).isEmpty || (roleLists cs).any (holdsRole req)

/-- There is no subject line, or one of them holds. -/
def subjectHolds (req : AuthzRequest) (cs : List Clause) : Bool :=
  (subjectLines cs).isEmpty || (subjectLines cs).any (SubjectLine.holds req)

/-- **The documented match**: the rule applies, a `when` line and a subject line hold if there are
any, and the principal holds no exempt role. -/
def Block.matches (req : AuthzRequest) (b : Block) : Bool :=
  ruleApplies req b.clauses && rolesHold req b.clauses && subjectHolds req b.clauses &&
    !holdsRole req (exemptRoles b.clauses)

/-- The block is an allow policy. -/
def Block.allows (b : Block) : Bool :=
  match lastRule b.clauses with
  | some (.allow, _, _) => true
  | _ => false

/-- **The documented rule** for blocks of which `m` tells the matching ones: some allow block
matches, and no other block does. -/
def ruleAnswer (bs : List Block) (m : Block → Bool) : Bool :=
  bs.any (fun b => b.allows && m b) && !bs.any fun b => !b.allows && m b

/-! ## Records and blocks -/

/-- The entry of a subject line among the parser's subject constraints. -/
def SubjectLine.constraint? : SubjectLine → Option String
  | .self => some "SELF"
  | .directReports => some "DIRECT_REPORTS"
  | .group _ => none
  | .id x => some x

/-- The entry of a subject line among the parser's subject groups. -/
def SubjectLine.group? : SubjectLine → Option String
  | .group g => some g
  | _ => none

/-- The id on a subject line is not empty and is no keyword. -/
def SubjectLine.Proper (l : SubjectLine) : Prop :=
  ∀ x, l = .id x → x ≠ "" ∧ x ≠ "SELF" ∧ x ≠ "DIRECT_REPORTS"

/-- The open record lists what the clauses of the open block say. -/
structure Partial.Lists (p : Partial) (b : Block) : Prop where
  id : p.id = b.name
  effect : p.effect = (lastRule b.clauses).map (·.1)
  action : p.action = (lastRule b.clauses).map (·.2.1)
  resource : p.resource = (lastRule b.clauses).map (·.2.2)
  whenRoles : p.whenRoles = (roleLists b.clauses).flatten
  whereSubjects : p.whereSubjects = (subjectLines b.clauses).filterMap SubjectLine.constraint?
  whereSubjectGroups : p.whereSubjectGroups = (subjectLines b.clauses).filterMap SubjectLine.group?
  unlessRoles : p.unlessRoles = exemptRoles b.clauses
  proper : ∀ l ∈ subjectLines b.clauses, l.Proper

/-- The record lists what the block says. -/
structure DslPolicy.Lists (p : DslPolicy) (b : Block) : Prop where
  id : p.id = b.name
  rule : lastRule b.clauses = some (p.effect, p.action, p.resource)
  whenRoles : p.whenRoles = (roleLists b.clauses).flatten
  whereSubjects : p.whereSubjects = (subjectLines b.clauses).filterMap SubjectLine.constraint?
  whereSubjectGroups : p.whereSubjectGroups = (subjectLines b.clauses).filterMap SubjectLine.group?
  unlessRoles : p.unlessRoles = exemptRoles b.clauses
  proper : ∀ l ∈ subjectLines b.clauses, l.Proper

/-- A finished record lists what its block says. -/
theorem Partial.Lists.finish {p : Partial} {b : Block} (h : p.Lists b) {d : DslPolicy}
    (hd : p.finish = .ok d) : d.Lists b := by
  unfold Partial.finish at hd
  obtain ⟨e, he, hd⟩ := bind_eq_ok.1 hd
  obtain ⟨a, ha, hd⟩ := bind_eq_ok.1 hd
  obtain ⟨k, hk, hd⟩ := bind_eq_ok.1 hd
  obtain rfl := Except.ok.inj hd
  -- a part that is required is there
  have hrequired : ∀ {α : Type} {part : Option α} {what : String} {v : α},
      p.required part what = .ok v → part = some v := by
    intro α part what v hv
    unfold Partial.required at hv
    split at hv
    · rw [Except.ok.inj hv]
    · cases hv
  have he' := hrequired he
  have ha' := hrequired ha
  have hk' := hrequired hk
  rw [h.effect] at he'
  rw [h.action] at ha'
  rw [h.resource] at hk'
  refine ⟨h.id, ?_, h.whenRoles, h.whereSubjects, h.whereSubjectGroups,
    h.unlessRoles, h.proper⟩
  cases hr : lastRule b.clauses with
  | none => rw [hr] at he'; cases he'
  | some r =>
      rw [hr] at he' ha' hk'
      rw [← Option.some.inj he', ← Option.some.inj ha', ← Option.some.inj hk']

/-! ## One line -/

theorem lastRule_append (cs : List Clause) (c : Clause) :
    lastRule (cs ++ [c]) = c.rule?.or (lastRule cs) := by
  induction cs with
  | nil => simp [lastRule]
  | cons c' cs ih => rw [List.cons_append, lastRule, ih, lastRule, Option.or_assoc]

theorem roleLists_append (cs : List Clause) (c : Clause) :
    roleLists (cs ++ [c]) = roleLists cs ++ roleLists [c] := List.filterMap_append

theorem subjectLines_append (cs : List Clause) (c : Clause) :
    subjectLines (cs ++ [c]) = subjectLines cs ++ subjectLines [c] := List.filterMap_append

theorem exemptRoles_append (cs : List Clause) (c : Clause) :
    exemptRoles (cs ++ [c]) = exemptRoles cs ++ exemptRoles [c] := by
  simp only [exemptRoles, List.filterMap_append, List.flatten_append]

/-- The record with one more clause. -/
def Partial.add (p : Partial) : Clause → Partial
  | .header _ => p
  | .roles rs => { p with whenRoles := p.whenRoles ++ rs }
  | .rule e a k => { p with effect := some e, action := some a, resource := some k }
  | .subject l =>
      { p with
        whereSubjects := p.whereSubjects ++ l.constraint?.toList
        whereSubjectGroups := p.whereSubjectGroups ++ l.group?.toList }
  | .exempt rs => { p with unlessRoles := p.unlessRoles ++ rs }

section

variable {rest : String} {p p' : Partial} {loc : Nat}

theorem parseWhen_iff : parseWhen rest p loc = .ok p' ↔
    ∃ c, (readRoles rest).map .roles = some c ∧ p' = p.add c := by
  simp only [parseWhen]
  unfold readRoles
  cases Text.stripPrefix "role ==" (Text.trim rest) with
  | some r => simp [Partial.add, eq_comm]
  | none =>
      cases Text.stripPrefix "role in " (Text.trim rest) with
      | some r => simp [Partial.add, eq_comm]
      | none => simp [errorAt]

theorem parseUnless_iff : parseUnless rest p loc = .ok p' ↔
    ∃ c, (readRoles rest).map .exempt = some c ∧ p' = p.add c := by
  simp only [parseUnless]
  unfold readRoles
  cases Text.stripPrefix "role ==" (Text.trim rest) with
  | some r => simp [Partial.add, eq_comm]
  | none =>
      cases Text.stripPrefix "role in " (Text.trim rest) with
      | some r => simp [Partial.add, eq_comm]
      | none => simp [errorAt]

theorem parseActionResource_iff (e : DslEffect) :
    parseActionResource rest { p with effect := some e } loc = .ok p' ↔
      ∃ c, readRule e rest = some c ∧ p' = p.add c := by
  unfold parseActionResource readRule
  cases Text.splitWhitespace rest with
  | nil => simp [errorAt]
  | cons action words =>
      cases words with
      | nil => simp [errorAt]
      | cons resource tail => simp [Partial.add, eq_comm]

end

theorem constraint_subjectNamed (x : String) : (subjectNamed x).constraint? = some x := by
  unfold subjectNamed
  split
  · rename_i h
    rw [h]
    rfl
  · split
    · rename_i h
      rw [h]
      rfl
    · rfl

theorem group_subjectNamed (x : String) : (subjectNamed x).group? = none := by
  unfold subjectNamed
  split
  · rfl
  · split
    · rfl
    · rfl

/-- An id that is read on a subject line is proper. -/
theorem readSubject_proper {rest : String} {l : SubjectLine} (h : readSubject rest = some l) :
    l.Proper := by
  intro x hx
  subst hx
  simp only [readSubject] at h
  split at h
  · cases h
  · cases h₁ : Text.stripPrefix "subject in " (Text.trim rest) with
    | some r =>
        rw [h₁] at h
        simp only [Option.some.injEq] at h
        split at h
        · cases h
        · cases h
    | none =>
        rw [h₁] at h
        cases h₂ : Text.stripPrefix "subject == " (Text.trim rest) with
        | none => rw [h₂] at h; cases h
        | some r =>
            rw [h₂, Option.map_some, Option.some.injEq] at h
            unfold subjectNamed at h
            split at h
            · cases h
            · rename_i hself
              split at h
              · cases h
              · rename_i hreports
                injection h with h
                subst h
                refine ⟨fun hempty => ?_, hself, hreports⟩
                -- a line that ends behind `==` would have been trimmed
                have hline := Text.stripPrefix_eq_some h₂
                rw [Text.eq_empty_of_trim_append hline hempty] at hline
                have hend : (Text.trim rest).toList.getLast? = some ' ' := by
                  rw [hline]
                  rfl
                exact absurd (Text.trim_getLast hend) (by decide)

/-- The parser of `where` adds the subject that the line names. -/
theorem parseWhere_iff {rest : String} {p p' : Partial} {loc : Nat} :
    parseWhere rest p loc = .ok p' ↔
      ∃ c, (readSubject rest).map .subject = some c ∧ p' = p.add c := by
  simp only [parseWhere, readSubject]
  -- the forms in the order of the source: self, group, named subject
  by_cases hself : Text.trim rest = "subject == SELF" ∨ Text.trim rest = "subject==SELF"
  · rw [if_pos hself, if_pos hself]
    simp [Partial.add, SubjectLine.constraint?, SubjectLine.group?, eq_comm]
  · rw [if_neg hself, if_neg hself]
    cases Text.stripPrefix "subject in " (Text.trim rest) with
    | some r =>
        dsimp only
        by_cases hreports : Text.trim r = "DIRECT_REPORTS"
        · rw [if_pos hreports, if_pos hreports]
          simp [Partial.add, SubjectLine.constraint?, SubjectLine.group?, eq_comm]
        · rw [if_neg hreports, if_neg hreports]
          unfold groupName
          split
          · simp [Partial.add, SubjectLine.constraint?, SubjectLine.group?, eq_comm]
          · simp [Partial.add, SubjectLine.constraint?, SubjectLine.group?, eq_comm]
    | none =>
        cases Text.stripPrefix "subject == " (Text.trim rest) with
        | some r => simp [Partial.add, constraint_subjectNamed, group_subjectNamed, eq_comm]
        | none => simp [errorAt]

/-- The open block with one more clause. -/
def Block.add (b : Block) (c : Clause) : Block := ⟨b.name, b.clauses ++ [c]⟩

/-- **A clause is added to the record as to the block.** -/
theorem Partial.Lists.add {p : Partial} {b : Block} (h : p.Lists b) {c : Clause}
    (hproper : ∀ l, c = .subject l → l.Proper) : (p.add c).Lists (b.add c) where
  id := by
    cases c with
    | header _ | roles _ | rule _ _ _ | subject _ | exempt _ => exact h.id
  effect := by
    rw [Block.add, lastRule_append]
    cases c with
    | rule e a k => rfl
    | header _ | roles _ | subject _ | exempt _ => exact h.effect
  action := by
    rw [Block.add, lastRule_append]
    cases c with
    | rule e a k => rfl
    | header _ | roles _ | subject _ | exempt _ => exact h.action
  resource := by
    rw [Block.add, lastRule_append]
    cases c with
    | rule e a k => rfl
    | header _ | roles _ | subject _ | exempt _ => exact h.resource
  whenRoles := by
    rw [Block.add, roleLists_append, List.flatten_append, ← h.whenRoles]
    cases c <;> simp [Partial.add, roleLists]
  whereSubjects := by
    rw [Block.add, subjectLines_append, List.filterMap_append, ← h.whereSubjects]
    cases c with
    | subject l => cases l <;> simp [Partial.add, subjectLines, SubjectLine.constraint?]
    | header _ | roles _ | rule _ _ _ | exempt _ => simp [Partial.add, subjectLines]
  whereSubjectGroups := by
    rw [Block.add, subjectLines_append, List.filterMap_append, ← h.whereSubjectGroups]
    cases c with
    | subject l => cases l <;> simp [Partial.add, subjectLines, SubjectLine.group?]
    | header _ | roles _ | rule _ _ _ | exempt _ => simp [Partial.add, subjectLines]
  unlessRoles := by
    rw [Block.add, exemptRoles_append, ← h.unlessRoles]
    cases c <;> simp [Partial.add, exemptRoles]
  proper := by
    rw [Block.add, subjectLines_append]
    intro l hl
    rcases List.mem_append.1 hl with hl | hl
    · exact h.proper l hl
    · apply hproper
      cases c with
      | subject l' => simpa [subjectLines, eq_comm] using hl
      | header _ | roles _ | rule _ _ _ | exempt _ => cases hl

theorem readClause_proper {line : String} {l : SubjectLine}
    (h : readClause line = some (.subject l)) : l.Proper := by
  cases readClause_cases h with
  | subject hrest hl => exact readSubject_proper hl
  | rule hrest hrule =>
      obtain ⟨a, k, hc⟩ := readRule_eq hrule
      cases hc

/-- A statement line is accepted when a clause is read on it, and adds this clause. -/
theorem parseStatement_iff {line : String} {p p' : Partial} {loc : Nat}
    (hline : Text.stripPrefix "policy " line = none) :
    parseStatement line p loc = .ok p' ↔ ∃ c, readClause line = some c ∧ p' = p.add c := by
  unfold parseStatement readClause
  rw [hline]
  -- both readers try the keywords in the same order
  cases Text.stripPrefix "when " line with
  | some rest => exact parseWhen_iff
  | none =>
  cases Text.stripPrefix "allow " line with
  | some rest => exact parseActionResource_iff .allow
  | none =>
  cases Text.stripPrefix "deny " line with
  | some rest => exact parseActionResource_iff .deny
  | none =>
  cases Text.stripPrefix "review " line with
  | some rest => exact parseActionResource_iff .review
  | none =>
  cases Text.stripPrefix "where " line with
  | some rest => exact parseWhere_iff
  | none =>
  cases Text.stripPrefix "or " line with
  | some rest => exact parseWhere_iff
  | none =>
  cases Text.stripPrefix "unless " line with
  | some rest => exact parseUnless_iff
  | none => simp [errorAt]

/-- The parser of a clause line follows the reader. -/
theorem parseStatement_reads {line : String} {p p' : Partial} {loc : Nat} {b : Block}
    (hline : Text.stripPrefix "policy " line = none) (hp : p.Lists b)
    (h : parseStatement line p loc = .ok p') :
    ∃ c, readClause line = some c ∧ (∀ n, c ≠ .header n) ∧ p'.Lists (b.add c) := by
  obtain ⟨c, hc, rfl⟩ := (parseStatement_iff hline).1 h
  refine ⟨c, hc, ?_, hp.add ?_⟩
  · rintro n rfl
    exact readClause_ne_header hline n hc
  · rintro l rfl
    exact readClause_proper hc

/-! ## The whole text -/

/-- The parser's state lists what the blocks read so far say. -/
def ParseState.Lists (s : ParseState) (bs : Blocks) : Prop :=
  List.Forall₂ DslPolicy.Lists s.policies bs.done ∧
    match s.current, bs.current with
    | none, none => True
    | some p, some b => p.Lists b
    | _, _ => False

/-- The records of a closed state list its blocks. -/
theorem ParseState.Lists.close {s : ParseState} {bs : Blocks} (h : s.Lists bs)
    {ps : List DslPolicy} (hps : s.close = .ok ps) : List.Forall₂ DslPolicy.Lists ps bs.all := by
  obtain ⟨hdone, hcurrent⟩ := h
  rcases s with ⟨policies, current⟩
  rcases bs with ⟨done, open?⟩
  cases current with
  | none =>
      cases open? with
      | none =>
          obtain rfl := Except.ok.inj hps
          rw [Blocks.all, Option.toList_none, List.append_nil]
          exact hdone
      | some b => exact hcurrent.elim
  | some p =>
      cases open? with
      | none => exact hcurrent.elim
      | some b =>
          obtain ⟨d, hd, hps⟩ := bind_eq_ok.1 hps
          obtain rfl := Except.ok.inj hps
          exact List.rel_append hdone (List.Forall₂.cons (Partial.Lists.finish hcurrent hd) .nil)

/-- **One line in step**: what the parser accepts the reader reads, and the state keeps listing
the blocks. -/
theorem parseLine_reads {s s' : ParseState} {bs : Blocks} {loc : Nat} {rawLine : String}
    (hs : s.Lists bs) (h : parseLine s loc rawLine = .ok s') :
    ∃ bs', bs.readLine rawLine = some bs' ∧ s'.Lists bs' := by
  simp only [parseLine] at h
  simp only [Blocks.readLine]
  split at h
  · rename_i hempty
    obtain rfl := Except.ok.inj h
    exact ⟨bs, if_pos hempty, hs⟩
  · rename_i hempty
    rw [if_neg hempty]
    cases hpolicy : Text.stripPrefix "policy " (Text.trim (stripComment rawLine)) with
    | some rest =>
        rw [hpolicy] at h
        obtain ⟨policies, hclose, h⟩ := bind_eq_ok.1 h
        cases hname : parseQuotedName rest with
        | none => rw [hname] at h; cases h
        | some name =>
            rw [hname] at h
            obtain rfl := Except.ok.inj h
            refine ⟨⟨bs.all, some ⟨name, []⟩⟩, ?_, hs.close hclose, ?_⟩
            · simp [readClause, hpolicy, hname, Blocks.push]
            · exact ⟨rfl, rfl, rfl, rfl, rfl, rfl, rfl, rfl, fun l hl => absurd hl List.not_mem_nil⟩
    | none =>
        rw [hpolicy] at h
        obtain ⟨hdone, hcurrent⟩ := hs
        rcases s with ⟨policies, current⟩
        rcases bs with ⟨done, open?⟩
        cases current with
        | none => cases h
        | some p =>
            cases open? with
            | none => exact hcurrent.elim
            | some b =>
                obtain ⟨p', hp', h⟩ := bind_eq_ok.1 h
                obtain rfl := Except.ok.inj h
                -- the raw text is the one field that no clause determines
                have hraw : Partial.Lists { p with raw := p.raw ++ "\n" ++ rawLine } b :=
                  ⟨hcurrent.id, hcurrent.effect, hcurrent.action, hcurrent.resource,
                    hcurrent.whenRoles, hcurrent.whereSubjects, hcurrent.whereSubjectGroups,
                    hcurrent.unlessRoles, hcurrent.proper⟩
                obtain ⟨c, hc, hheader, hlists⟩ := parseStatement_reads hpolicy hraw hp'
                refine ⟨⟨done, some (b.add c)⟩, ?_, hdone, hlists⟩
                rw [hc, Option.bind_some, Blocks.push_eq hheader]
                rfl

/-- The fold over the lines follows the reader, by induction on the lines. -/
theorem parseLines_reads (ls : List String) :
    ∀ {s s' : ParseState} {bs : Blocks} {loc : Nat}, s.Lists bs →
      parseLines s loc ls = .ok s' →
      ∃ bs', ls.foldlM Blocks.readLine bs = some bs' ∧ s'.Lists bs' := by
  induction ls with
  | nil =>
      intro s s' bs loc hs h
      obtain rfl := Except.ok.inj h
      exact ⟨bs, rfl, hs⟩
  | cons l ls ih =>
      intro s s' bs loc hs h
      obtain ⟨s₁, h₁, h⟩ := bind_eq_ok.1 h
      obtain ⟨bs₁, hb₁, hs₁⟩ := parseLine_reads hs h₁
      obtain ⟨bs₂, hb₂, hs₂⟩ := ih hs₁ h
      exact ⟨bs₂, by rw [List.foldlM_cons, hb₁]; exact hb₂, hs₂⟩

/-- **The parser reads the text.** The records of an accepted text list, one by one, what its
blocks say. -/
theorem parseDsl_reads {input : String} {ps : List DslPolicy} (h : parseDsl input = .ok ps) :
    ∃ bs, readBlocks input = some bs ∧ List.Forall₂ DslPolicy.Lists ps bs := by
  unfold parseDsl at h
  obtain ⟨s, hs, hclose⟩ := bind_eq_ok.1 h
  obtain ⟨bs, hbs, hlists⟩ := @parseLines_reads (Text.lines input) _ _ ⟨[], none⟩ _
    ⟨List.Forall₂.nil, trivial⟩ hs
  exact ⟨bs.all, by rw [readBlocks, hbs]; rfl, hlists.close hclose⟩

end Paac
