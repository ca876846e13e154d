import Paac.Library.Tokens
import Paac.Policy.Accept

set_option autoImplicit false

/-!
# What the parser keeps

Three things get lost between a text and its policies: words behind a rule line's two, rule lines
before the last one of a block, and words behind an unquoted policy name. Everything else a text
says is in the records.

A text is read twice here: into the blocks of `Meaning.lean`, and into sections that keep every
token of every line. White space, commas and brackets stand between tokens, and a group is kept up
to its suffix. `Section.Kept` compares a section with a record as a whole: the name with the header,
the rule with the only rule line, and the tokens of each kind of clause, in order, with the names in
the record.

## Main results

- `readRoles_kept`, `readSubject_kept`: no token of these lines is lost.
- `Sections.Yields.readLine`, `readSections_yields`: the sections of a text yield its blocks, one
  line and then by induction on the lines.
- `kept_iff`: a record keeps its section exactly when header and rule line are exact.
- `kept_iff_exact`: nothing is lost from a text exactly when each policy has a quoted or one-word
  name and one rule line, with two words.
- `condition_dropped`: a condition on the rule line is lost.
-/

namespace Paac

/-! ## Statements -/

/-- A line of the text, told by its keyword, with everything behind the keyword. -/
inductive Statement where
  | header (rest : String)
  | roles (rest : String)
  | rule (e : DslEffect) (rest : String)
  | subject (rest : String)
  | exempt (rest : String)
  deriving DecidableEq, Repr

def readStatement (line : String) : Option Statement :=
  match Text.stripPrefix "policy " line with
  | some rest => some (.header rest)
  | none =>
  match Text.stripPrefix "when " line with
  | some rest => some (.roles rest)
  | none =>
  match Text.stripPrefix "allow " line with
  | some rest => some (.rule .allow rest)
  | none =>
  match Text.stripPrefix "deny " line with
  | some rest => some (.rule .deny rest)
  | none =>
  match Text.stripPrefix "review " line with
  | some rest => some (.rule .review rest)
  | none =>
  match Text.stripPrefix "where " line with
  | some rest => some (.subject rest)
  | none =>
  match Text.stripPrefix "or " line with
  | some rest => some (.subject rest)
  | none => (Text.stripPrefix "unless " line).map .exempt

/-- The clause that is read on the statement. -/
def Statement.clause? : Statement → Option Clause
  | .header rest => (parseQuotedName rest).map .header
  | .roles rest => (readRoles rest).map .roles
  | .rule e rest => readRule e rest
  | .subject rest => (readSubject rest).map .subject
  | .exempt rest => (readRoles rest).map .exempt

/-- A clause is what its statement says. -/
theorem readClause_eq (line : String) : readClause line = (readStatement line).bind Statement.clause? := by
  unfold readClause readStatement
  cases Text.stripPrefix "policy " line with
  | some rest => rfl
  | none =>
  cases Text.stripPrefix "when " line with
  | some rest => rfl
  | none =>
  cases Text.stripPrefix "allow " line with
  | some rest => rfl
  | none =>
  cases Text.stripPrefix "deny " line with
  | some rest => rfl
  | none =>
  cases Text.stripPrefix "review " line with
  | some rest => rfl
  | none =>
  cases Text.stripPrefix "where " line with
  | some rest => rfl
  | none =>
  cases Text.stripPrefix "or " line with
  | some rest => rfl
  | none =>
  cases Text.stripPrefix "unless " line with
  | some rest => rfl
  | none => rfl

/-! ## Sections -/

/-- A policy as it stands in the text: what is behind the keyword of its header, and its lines. -/
structure Section where
  header : String
  statements : List Statement
  deriving DecidableEq, Repr

/-- Sections read so far, the last one open. -/
structure Sections where
  done : List Section
  current : Option Section
  deriving DecidableEq, Repr

def Sections.all (ss : Sections) : List Section := ss.done ++ ss.current.toList

def Sections.push (ss : Sections) : Statement → Option Sections
  | .header rest => some ⟨ss.all, some ⟨rest, []⟩⟩
  | st => ss.current.map fun s => { ss with current := some ⟨s.header, s.statements ++ [st]⟩ }

def Sections.readLine (ss : Sections) (rawLine : String) : Option Sections :=
  let line := Text.trim (stripComment rawLine)
  if line.isEmpty then some ss else (readStatement line).bind ss.push

/-- The sections of a text. -/
def readSections (input : String) : Option (List Section) :=
  ((Text.lines input).foldlM Sections.readLine ⟨[], none⟩).map Sections.all

/-- The statements of all rule lines: effect, and everything behind it. -/
def Section.rules (s : Section) : List (DslEffect × String) :=
  s.statements.filterMap fun
    | .rule e rest => some (e, rest)
    | _ => none

def Section.whenTexts (s : Section) : List String :=
  s.statements.filterMap fun
    | .roles rest => some rest
    | _ => none

def Section.subjectTexts (s : Section) : List String :=
  s.statements.filterMap fun
    | .subject rest => some rest
    | _ => none

def Section.unlessTexts (s : Section) : List String :=
  s.statements.filterMap fun
    | .exempt rest => some rest
    | _ => none

/-! ## Keeping tokens -/

/-- Whitespace, commas and brackets stand between tokens. -/
def isBreak (c : Char) : Bool := Text.isWhitespace c || c == ',' || c == '[' || c == ']'

def tokensOf (s : String) : List (List Char) := Text.tokens isBreak s.toList

/-- The tokens behind the keywords are those of the names, in order. -/
def KeptBehind (keywords rest : String) (names : List String) : Prop :=
  ∃ r, Text.trim rest = keywords ++ r ∧ tokensOf r = names.flatMap tokensOf

def RolesKept (rest : String) (rs : List String) : Prop :=
  KeptBehind "role ==" rest rs ∨ KeptBehind "role in " rest rs

/-- A group is kept up to its suffix. -/
def SubjectKept (rest : String) : SubjectLine → Prop
  | .self => KeptBehind "subject == " rest ["SELF"] ∨ KeptBehind "subject==" rest ["SELF"]
  | .directReports =>
      KeptBehind "subject in " rest ["DIRECT_REPORTS"] ∨
        KeptBehind "subject == " rest ["DIRECT_REPORTS"]
  | .group g => ∃ n, KeptBehind "subject in " rest [g ++ Text.repeated n "_GROUP"]
  | .id x => KeptBehind "subject == " rest [x]

/-- Everything the section says is in the record: the name is the whole header, there is one rule
line and its words are the record's action and resource, and every token of the other lines is in
one of the lists. -/
structure Section.Kept (s : Section) (p : DslPolicy) : Prop where
  header : Text.trim s.header = p.id ∨ Text.trim s.header = "\"" ++ p.id ++ "\""
  rule : ∃ rest action resource, s.rules = [(p.effect, rest)] ∧
    Text.splitWhitespace rest = [action, resource] ∧
    Text.toAsciiUppercase action = p.action ∧ Text.toAsciiUppercase resource = p.resource
  whenRoles : ∃ names, List.Forall₂ RolesKept s.whenTexts names ∧ names.flatten = p.whenRoles
  subjects : ∃ ls, List.Forall₂ SubjectKept s.subjectTexts ls ∧
    ls.filterMap SubjectLine.constraint? = p.whereSubjects ∧
    ls.filterMap SubjectLine.group? = p.whereSubjectGroups
  unlessRoles : ∃ names, List.Forall₂ RolesKept s.unlessTexts names ∧ names.flatten = p.unlessRoles

/-- The records keep everything the text says. -/
def Kept (input : String) (ps : List DslPolicy) : Prop :=
  ∃ ss, readSections input = some ss ∧ List.Forall₂ Section.Kept ss ps

/-- The header is a quoted name or a single word, and there is a single rule line, of two words. -/
def Section.isExact (s : Section) : Bool :=
  ((unquote (Text.trim s.header)).isSome ||
      (Text.splitWhitespace (Text.trim s.header)).length == 1) &&
    match s.rules with
    | [(_, rest)] => (Text.splitWhitespace rest).length == 2
    | _ => false

def isExact (input : String) : Bool :=
  match readSections input with
  | some ss => ss.all Section.isExact
  | none => false

/-! ## One line -/

section

/-- A rule line is read from its first two words, in upper case. -/
theorem readRule_eq_some {rest : String} {e : DslEffect} {c : Clause}
    (h : readRule e rest = some c) : ∃ action resource words,
      Text.splitWhitespace rest = action :: resource :: words ∧
        c = .rule e (Text.toAsciiUppercase action) (Text.toAsciiUppercase resource) := by
  unfold readRule at h
  split at h
  · rename_i action resource words hwords
    exact ⟨action, resource, words, hwords, (Option.some.inj h).symm⟩
  · cases h

variable {rest : String}

theorem isBreak_whitespace (c : Char) (h : Text.isWhitespace c = true) : isBreak c = true := by
  rw [isBreak, h]
  rfl

theorem tokensOf_trim (s : String) : tokensOf (Text.trim s) = tokensOf s :=
  Text.tokens_trim isBreak_whitespace s

/-- Only separators and empty items go when a list is read. -/
theorem tokensOf_parseList (s : String) : (parseList s).flatMap tokensOf = tokensOf s := by
  have hitems : ∀ xs : List String,
      (xs.filter fun x => !x.isEmpty).flatMap tokensOf = xs.flatMap tokensOf := by
    intro xs
    induction xs with
    | nil => rfl
    | cons x xs ih =>
        cases hx : x.isEmpty with
        | true =>
            rw [List.filter_cons_of_neg (by simp [hx]), ih, List.flatMap_cons,
              String.isEmpty_iff.1 hx]
            rfl
        | false =>
            rw [List.filter_cons_of_pos (by simp [hx]), List.flatMap_cons, List.flatMap_cons, ih]
  have htrim : ∀ xs : List String, (xs.map Text.trim).flatMap tokensOf = xs.flatMap tokensOf := by
    intro xs
    rw [List.flatMap_map]
    exact List.flatMap_congr fun x _ => tokensOf_trim x
  rw [parseList, hitems, htrim]
  have hsplit := fun t : String => @Text.tokens_split isBreak ',' rfl t
  rw [← tokensOf_trim s]
  exact (hsplit _).trans ((Text.tokens_trimEndMatchesChar rfl _).trans
    (Text.tokens_trimStartMatchesChar rfl _))

/-- **A role line keeps its tokens.** -/
theorem readRoles_kept {rs : List String} (h : readRoles rest = some rs) : RolesKept rest rs := by
  unfold readRoles at h
  cases h₁ : Text.stripPrefix "role ==" (Text.trim rest) with
  | some r =>
      rw [h₁] at h
      obtain rfl := Option.some.inj h
      refine Or.inl ⟨r, Text.stripPrefix_eq_some h₁, ?_⟩
      rw [List.flatMap_singleton, tokensOf_trim]
  | none =>
      rw [h₁] at h
      obtain ⟨r, h₂, rfl⟩ := Option.map_eq_some_iff.1 h
      exact Or.inr ⟨r, Text.stripPrefix_eq_some h₂, (tokensOf_parseList r).symm⟩

theorem groupName_repeated (name : String) :
    ∃ n, name = groupName name ++ Text.repeated n "_GROUP" := by
  unfold groupName
  split
  · exact Text.trimEndMatches_repeated "_GROUP" name
  · exact ⟨0, String.append_empty.symm⟩

/-- **A subject line keeps its tokens**, up to the suffix of a group. -/
theorem readSubject_kept {l : SubjectLine} (h : readSubject rest = some l) :
    SubjectKept rest l := by
  simp only [readSubject] at h
  split at h
  · rename_i hself
    obtain rfl := Option.some.inj h
    rcases hself with hself | hself
    · exact Or.inl ⟨"SELF", hself, by rw [List.flatMap_singleton]⟩
    · exact Or.inr ⟨"SELF", hself, by rw [List.flatMap_singleton]⟩
  · -- what is kept of the line are the words behind the keywords
    have hkept : ∀ {keywords r : String}, Text.stripPrefix keywords (Text.trim rest) = some r →
        KeptBehind keywords rest [Text.trim r] := by
      intro keywords r hr
      refine ⟨r, Text.stripPrefix_eq_some hr, ?_⟩
      rw [List.flatMap_singleton, tokensOf_trim]
    -- behind `subject in` a name that is no keyword is a group
    cases h₁ : Text.stripPrefix "subject in " (Text.trim rest) with
    | some r =>
        rw [h₁] at h
        obtain rfl := Option.some.inj h
        split
        · rename_i hreports
          have hr := hkept h₁
          rw [hreports] at hr
          exact Or.inl hr
        · obtain ⟨n, hn⟩ := groupName_repeated (Text.trim r)
          refine ⟨n, ?_⟩
          rw [← hn]
          exact hkept h₁
    | none =>
        rw [h₁] at h
        obtain ⟨r, h₂, rfl⟩ := Option.map_eq_some_iff.1 h
        have hr := hkept h₂
        unfold subjectNamed
        split
        · rename_i hself
          rw [hself] at hr
          exact Or.inl hr
        · split
          · rename_i hreports
            rw [hreports] at hr
            exact Or.inr hr
          · exact hr

end

/-- What the clause on a statement says, and what of the statement it keeps. -/
inductive Statement.Says : Statement → Clause → Prop where
  | header {rest name : String} (h : parseQuotedName rest = some name) :
      Says (.header rest) (.header name)
  | roles {rest : String} {rs : List String} (h : RolesKept rest rs) : Says (.roles rest) (.roles rs)
  | rule {e : DslEffect} {rest action resource : String} {words : List String}
      (h : Text.splitWhitespace rest = action :: resource :: words) :
      Says (.rule e rest)
        (.rule e (Text.toAsciiUppercase action) (Text.toAsciiUppercase resource))
  | subject {rest : String} {l : SubjectLine} (h : SubjectKept rest l) :
      Says (.subject rest) (.subject l)
  | exempt {rest : String} {rs : List String} (h : RolesKept rest rs) :
      Says (.exempt rest) (.exempt rs)

/-- A statement that is a clause says what the clause says. -/
theorem Statement.says_of_clause? {st : Statement} {c : Clause} (h : st.clause? = some c) :
    st.Says c := by
  cases st with
  | header rest =>
      obtain ⟨name, hname, rfl⟩ := Option.map_eq_some_iff.1 h
      exact .header hname
  | roles rest =>
      obtain ⟨rs, hrs, rfl⟩ := Option.map_eq_some_iff.1 h
      exact .roles (readRoles_kept hrs)
  | rule e rest =>
      obtain ⟨action, resource, words, hwords, rfl⟩ := readRule_eq_some h
      exact .rule hwords
  | subject rest =>
      obtain ⟨l, hl, rfl⟩ := Option.map_eq_some_iff.1 h
      exact .subject (readSubject_kept hl)
  | exempt rest =>
      obtain ⟨rs, hrs, rfl⟩ := Option.map_eq_some_iff.1 h
      exact .exempt (readRoles_kept hrs)

/-! ## Sections and blocks -/

/-- The block is read clause by clause on the section. -/
structure Section.Yields (s : Section) (b : Block) : Prop where
  name : parseQuotedName s.header = some b.name
  clauses : List.Forall₂ (fun st c => Statement.clause? st = some c) s.statements b.clauses

/-- The block is what is read in the section. -/
structure Section.Reads (s : Section) (b : Block) : Prop where
  name : parseQuotedName s.header = some b.name
  clauses : List.Forall₂ Statement.Says s.statements b.clauses

theorem Section.Yields.reads {s : Section} {b : Block} (h : s.Yields b) : s.Reads b :=
  ⟨h.name, h.clauses.imp fun _ _ => Statement.says_of_clause?⟩

def Sections.Yields (ss : Sections) (bs : Blocks) : Prop :=
  List.Forall₂ Section.Yields ss.done bs.done ∧ Option.Rel Section.Yields ss.current bs.current

theorem Sections.Yields.all {ss : Sections} {bs : Blocks} (h : ss.Yields bs) :
    List.Forall₂ Section.Yields ss.all bs.all := by
  rcases ss with ⟨sections, current⟩
  rcases bs with ⟨blocks, open?⟩
  obtain ⟨hdone, hcurrent⟩ := h
  refine List.rel_append hdone ?_
  cases hcurrent with
  | none => exact .nil
  | some hs => exact .cons hs .nil

/-- A line that is no header goes to the open section and to the open block. -/
theorem Sections.Yields.add {ss : Sections} {bs bs' : Blocks} (h : ss.Yields bs) {st : Statement}
    {c : Clause} (hst : st.clause? = some c)
    (hpush : (bs.current.map fun b =>
      ({ bs with current := some ⟨b.name, b.clauses ++ [c]⟩ } : Blocks)) = some bs') :
    ∃ ss', (ss.current.map fun s =>
        ({ ss with current := some ⟨s.header, s.statements ++ [st]⟩ } : Sections)) = some ss' ∧
      ss'.Yields bs' := by
  obtain ⟨b, hb, rfl⟩ := Option.map_eq_some_iff.1 hpush
  obtain ⟨hdone, hcurrent⟩ := h
  rw [hb] at hcurrent
  generalize ss.current = current at hcurrent
  cases hcurrent with
  | some hyields =>
      exact ⟨_, rfl, hdone,
        .some ⟨hyields.name, List.rel_append hyields.clauses (.cons hst .nil)⟩⟩

/-- **One line in step**: sections and blocks grow together. -/
theorem Sections.Yields.readLine {ss : Sections} {bs bs' : Blocks} {rawLine : String}
    (h : ss.Yields bs) (hread : bs.readLine rawLine = some bs') :
    ∃ ss', ss.readLine rawLine = some ss' ∧ ss'.Yields bs' := by
  simp only [Blocks.readLine] at hread
  simp only [Sections.readLine]
  split at hread
  · rename_i hempty
    obtain rfl := Option.some.inj hread
    exact ⟨ss, if_pos hempty, h⟩
  · rename_i hempty
    rw [if_neg hempty]
    obtain ⟨c, hc, hpush⟩ := Option.bind_eq_some_iff.1 hread
    rw [readClause_eq] at hc
    obtain ⟨st, hst, hclause⟩ := Option.bind_eq_some_iff.1 hc
    rw [hst, Option.bind_some]
    have hread := hclause
    -- a header opens a block, and any other statement goes into the open one
    cases st with
    | header rest =>
        obtain ⟨name, hname, rfl⟩ := Option.map_eq_some_iff.1 hclause
        obtain rfl := Option.some.inj hpush
        exact ⟨_, rfl, h.all, .some ⟨hname, .nil⟩⟩
    | roles rest =>
        obtain ⟨rs, -, rfl⟩ := Option.map_eq_some_iff.1 hclause
        exact h.add hread hpush
    | rule e rest =>
        obtain ⟨action, resource, words, -, rfl⟩ := readRule_eq_some hclause
        exact h.add hread hpush
    | subject rest =>
        obtain ⟨l, -, rfl⟩ := Option.map_eq_some_iff.1 hclause
        exact h.add hread hpush
    | exempt rest =>
        obtain ⟨rs, -, rfl⟩ := Option.map_eq_some_iff.1 hclause
        exact h.add hread hpush

/-- The fold over the lines keeps the correspondence, by induction. -/
theorem foldlM_readSections (ls : List String) : ∀ {ss : Sections} {bs bs' : Blocks}, ss.Yields bs →
    ls.foldlM Blocks.readLine bs = some bs' →
      ∃ ss', ls.foldlM Sections.readLine ss = some ss' ∧ ss'.Yields bs' := by
  induction ls with
  | nil =>
      intro ss bs bs' h hread
      obtain rfl := Option.some.inj hread
      exact ⟨ss, rfl, h⟩
  | cons l ls ih =>
      intro ss bs bs' h hread
      rw [List.foldlM_cons] at hread
      obtain ⟨bs₁, hbs₁, hread⟩ := Option.bind_eq_some_iff.1 hread
      obtain ⟨ss₁, hss₁, h₁⟩ := h.readLine hbs₁
      obtain ⟨ss', hss', h'⟩ := ih h₁ hread
      exact ⟨ss', by rw [List.foldlM_cons, hss₁]; exact hss', h'⟩

/-- A text that can be read has its sections, and the blocks are read on them. -/
theorem readSections_yields {input : String} {bs : List Block} (h : readBlocks input = some bs) :
    ∃ ss, readSections input = some ss ∧ List.Forall₂ Section.Yields ss bs := by
  obtain ⟨bs', hread, rfl⟩ := Option.map_eq_some_iff.1 h
  obtain ⟨ss, hss, hyields⟩ := @foldlM_readSections _ ⟨[], none⟩ ⟨[], none⟩ _
    ⟨.nil, .none⟩ hread
  exact ⟨ss.all, by rw [readSections, hss]; rfl, hyields.all⟩

theorem readSections_reads {input : String} {bs : List Block} (h : readBlocks input = some bs) :
    ∃ ss, readSections input = some ss ∧ List.Forall₂ Section.Reads ss bs := by
  obtain ⟨ss, hss, hyields⟩ := readSections_yields h
  exact ⟨ss, hss, hyields.imp fun _ _ => Section.Yields.reads⟩

/-! ## Records and sections -/

namespace Section.Reads

variable {s : Section} {b : Block} {p : DslPolicy}

theorem whenRoles (h : s.Reads b) :
    List.Forall₂ RolesKept s.whenTexts (roleLists b.clauses) := by
  refine List.rel_filterMap (fun st c hst => ?_) h.clauses
  cases hst with
  | roles hkept => exact .some hkept
  | _ => exact .none

theorem subjects (h : s.Reads b) :
    List.Forall₂ SubjectKept s.subjectTexts (subjectLines b.clauses) := by
  refine List.rel_filterMap (fun st c hst => ?_) h.clauses
  cases hst with
  | subject hkept => exact .some hkept
  | _ => exact .none

theorem unlessRoles (h : s.Reads b) : ∃ names, List.Forall₂ RolesKept s.unlessTexts names ∧
    names.flatten = exemptRoles b.clauses := by
  refine ⟨_, List.rel_filterMap (fun st c hst => ?_) h.clauses, rfl⟩
  cases hst with
  | exempt hkept => exact .some hkept
  | _ => exact .none

/-- A rule line and what is read on it. -/
def RuleRead (r : DslEffect × String) (r' : DslEffect × String × String) : Prop :=
  r.1 = r'.1 ∧ ∃ action resource words,
    Text.splitWhitespace r.2 = action :: resource :: words ∧
      r'.2 = (Text.toAsciiUppercase action, Text.toAsciiUppercase resource)

theorem rules (h : s.Reads b) :
    List.Forall₂ RuleRead s.rules (b.clauses.filterMap Clause.rule?) := by
  refine List.rel_filterMap (fun st c hst => ?_) h.clauses
  cases hst with
  | rule hwords => exact .some ⟨rfl, _, _, _, hwords, rfl⟩
  | _ => exact .none

/-- The name is the whole header when it stands in quotes or alone, and only then. -/
theorem header_iff (h : s.Reads b) :
    (Text.trim s.header = b.name ∨ Text.trim s.header = "\"" ++ b.name ++ "\"") ↔
      (unquote (Text.trim s.header)).isSome ∨
        (Text.splitWhitespace (Text.trim s.header)).length = 1 := by
  have hname := h.name
  simp only [parseQuotedName] at hname
  -- without both quotes the name is the first word of the header
  cases hquoted : unquote (Text.trim s.header) with
  | some name =>
      rw [hquoted, Option.some_or, Option.some.injEq] at hname
      obtain ⟨t, ht, hend⟩ := Option.bind_eq_some_iff.1 hquoted
      have hheader : Text.trim s.header = "\"" ++ b.name ++ "\"" := by
        rw [Text.stripPrefix_eq_some ht, Text.stripSuffix_eq_some hend, hname,
          String.append_assoc]
      exact ⟨fun _ => Or.inl rfl, fun _ => Or.inr hheader⟩
  | none =>
      rw [hquoted, Option.none_or] at hname
      constructor
      · rintro (hheader | hheader)
        · rw [← hheader] at hname
          rw [Text.splitWhitespace_eq_of_head hname]
          exact Or.inr rfl
        · rw [hheader, unquote, String.append_assoc, Text.stripPrefix_append, Option.bind_some,
            Text.stripSuffix_append] at hquoted
          cases hquoted
      · rintro (hsome | hlength)
        · cases hsome
        · obtain ⟨w, hw⟩ := List.length_eq_one_iff.1 hlength
          rw [hw, List.head?_cons, Option.some.injEq] at hname
          rw [Text.trim_eq_of_splitWhitespace hw, hname]
          exact Or.inl rfl

/-- **A record keeps its section exactly when header and rule line are exact.** -/
theorem kept_iff (h : s.Reads b) (hp : p.Lists b) : s.Kept p ↔ s.isExact = true := by
  have hheader := h.header_iff
  rw [← hp.id] at hheader
  rw [Section.isExact, Bool.and_eq_true, Bool.or_eq_true, beq_iff_eq, ← hheader]
  have hrule := hp.rule
  rw [lastRule_eq_getLast?] at hrule
  have hrules := h.rules
  constructor
  · intro hkept
    obtain ⟨rest, action, resource, hone, hwords, -, -⟩ := hkept.rule
    refine ⟨hkept.header, ?_⟩
    rw [hone]
    dsimp only
    rw [hwords]
    rfl
  · rintro ⟨hexact, hlength⟩
    refine ⟨hexact, ?_, ⟨_, h.whenRoles, hp.whenRoles.symm⟩,
      ⟨_, h.subjects, hp.whereSubjects.symm, hp.whereSubjectGroups.symm⟩, ?_⟩
    · split at hlength
      · rename_i e rest hone
        rw [hone] at hrules
        -- the one rule of the section is the last rule of the block
        obtain ⟨read, others, ⟨heffect, action, resource, words, hwords, htargets⟩, hnone, hreads⟩ :=
          List.forall₂_cons_left_iff.1 hrules
        rw [hreads, List.forall₂_nil_left_iff.1 hnone, List.getLast?_singleton,
          Option.some.injEq] at hrule
        rw [hrule] at heffect htargets
        rw [Prod.mk.injEq] at htargets
        rw [hwords, beq_iff_eq, List.length_cons, List.length_cons, Nat.add_right_cancel_iff,
          Nat.add_eq_right, List.length_eq_zero_iff] at hlength
        rw [hlength] at hwords
        obtain rfl : e = p.effect := heffect
        exact ⟨rest, action, resource, hone, hwords, htargets.1.symm, htargets.2.symm⟩
      · cases hlength
    · obtain ⟨names, hnames, hflatten⟩ := h.unlessRoles
      exact ⟨names, hnames, hflatten.trans hp.unlessRoles.symm⟩

end Section.Reads

/-! ## The whole text -/

/-- **What the parser keeps.** The records of an accepted text keep everything it says exactly when
each policy has a quoted or one-word name and one rule line, with two words. -/
theorem kept_iff_exact {input : String} {ps : List DslPolicy} (h : parseDsl input = .ok ps) :
    Kept input ps ↔ isExact input = true := by
  obtain ⟨bs, hbs, hlists⟩ := parseDsl_reads h
  obtain ⟨ss, hss, hreads⟩ := readSections_reads hbs
  have hall : List.Forall₂ Section.Kept ss ps ↔ ss.all Section.isExact = true := by
    clear h hbs hss
    induction hreads generalizing ps with
    | nil =>
        cases hlists
        exact ⟨fun _ => rfl, fun _ => .nil⟩
    | cons hs _ ih =>
        cases hlists with
        | cons hp hrest =>
            rw [List.forall₂_cons, List.all_cons, Bool.and_eq_true, hs.kept_iff hp, ih hrest]
  rw [isExact, hss, ← hall]
  constructor
  · rintro ⟨ss', hss', hkept⟩
    rwa [← Option.some.inj (hss'.symm.trans hss)]
  · exact fun hkept => ⟨ss, hss, hkept⟩

/-- A condition on the rule line. -/
def conditionOnRule : String := "policy \"pay\"\nallow READ SALARY when role == HR"

/-- Everybody may read. -/
def conditionOnRulePolicies : List DslPolicy :=
  [⟨"pay", .allow, "READ", "SALARY", [], [], [], [], conditionOnRule⟩]

theorem parseDsl_conditionOnRule :
    parseDsl conditionOnRule = .ok conditionOnRulePolicies := by decide +kernel

/-- A condition on the rule line is accepted and dropped. -/
theorem condition_dropped :
    ¬∀ (input : String) (ps : List DslPolicy), parseDsl input = .ok ps → Kept input ps := by
  intro hkeeps
  obtain ⟨ss, hss, hkept⟩ := hkeeps _ _ parseDsl_conditionOnRule
  have hsections : readSections conditionOnRule =
      some [⟨"\"pay\"", [.rule .allow "READ SALARY when role == HR"]⟩] := by decide +kernel
  obtain rfl := Option.some.inj (hsections.symm.trans hss)
  cases hkept with
  | cons hsection _ =>
      obtain ⟨rest, action, resource, hrules, hwords, -⟩ := hsection.rule
      have hrest : "READ SALARY when role == HR" = rest := by
        have hrules' : [(DslEffect.allow, "READ SALARY when role == HR")] =
            [(DslEffect.allow, rest)] := hrules
        rw [List.singleton_inj, Prod.mk.injEq] at hrules'
        exact hrules'.2
      have hsix : (Text.splitWhitespace "READ SALARY when role == HR").length = 6 := by decide
      rw [hrest, hwords] at hsix
      cases hsix

/-- The condition on a line of its own. -/
def conditionOnLine : String := "policy \"pay\"\nallow READ SALARY\nwhen role == HR"

/-- A condition on a line of its own is kept. -/
theorem kept_iff_exact_conditionOnLine :
    Kept conditionOnLine [⟨"pay", .allow, "READ", "SALARY", ["HR"], [], [], [], conditionOnLine⟩] ↔
      isExact conditionOnLine = true :=
  kept_iff_exact (by decide +kernel)

end Paac
