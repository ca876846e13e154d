import Paac.Library.Words
import Paac.Policy.Accept

set_option autoImplicit false

/-!
# Policies written out

A policy can be written in many ways: its clause lines in any order, roles one by one or in a list,
groups with or without their suffix, blank lines and comments anywhere. `WrittenText` is a text with
all these choices made, and `WrittenText.Writes` says which policies it writes: one rule line for
each, and lines for each of its lists, in the order of the list.

The text is made of lines and a line of a margin, a statement and a margin, where a margin is white
space and perhaps a comment. The proof follows the same structure: names are words, a part of a
clause is read as what it stands for, a line as its clause, a block's lines as its clauses, and the
text as its blocks; the parser's records are then those of the blocks by `Meaning.lean`.

## Main results

- `readRoles_text`, `readSubject_text`, `readRule_text`: every way of writing the part of a clause
  is read as what it stands for.
- `readClause_text`: and so is every clause line.
- `statementOf_wrap`: margins, comments and carriage returns do not change the statement of a line.
- `foldlM_block`, `foldlM_blocks`: the reader's fold over the lines of a block and of a text.
- `readBlocks_text`: a written text reads as its blocks.
- `parse_written`: every text that writes policies over plain names parses back to them.
-/

namespace Paac

/-! ## Lines -/

/-- A word without a quote, a hash, a comma or a bracket. -/
def isPlainName (s : String) : Bool :=
  Text.isWord s && s.toList.all fun c => c ≠ '"' && c ≠ '#' && c ≠ ',' && c ≠ '[' && c ≠ ']'

/-- A plain name without lower-case letters. -/
def isUpperName (s : String) : Bool := isPlainName s && Text.toAsciiUppercase s == s

/-- A plain name that reads as a group, with or without the suffix behind it. -/
def isGroupName (s : String) : Bool :=
  isPlainName s && s ≠ "DIRECT_REPORTS" && !Text.endsWith "_GROUP" s

/-- Roles as a line writes them. -/
inductive WrittenRoles where
  | one (r : String)
  | list (rs : List String)
  deriving DecidableEq, Repr

def WrittenRoles.text : WrittenRoles → String
  | .one r => "role == " ++ r
  | .list rs => "role in [" ++ Text.join ", " rs ++ "]"

def WrittenRoles.names : WrittenRoles → List String
  | .one r => [r]
  | .list rs => rs

/-- A subject as a line writes it; an id may be one of the keywords. -/
inductive WrittenSubject where
  | id (x : String)
  | directReports
  | group (g : String) (suffix : Bool)
  deriving DecidableEq, Repr

def WrittenSubject.text : WrittenSubject → String
  | .id x => "subject == " ++ x
  | .directReports => "subject in DIRECT_REPORTS"
  | .group g suffix => "subject in " ++ g ++ if suffix then "_GROUP" else ""

/-- What is asked of the subject. -/
def WrittenSubject.line : WrittenSubject → SubjectLine
  | .id x => subjectNamed x
  | .directReports => .directReports
  | .group g _ => .group g

/-- A clause line; subject lines begin with `where` or with `or`. -/
inductive WrittenLine where
  | rule (e : DslEffect) (action resource : String)
  | roles (rs : WrittenRoles)
  | subject (isFirst : Bool) (s : WrittenSubject)
  | exempt (rs : WrittenRoles)
  deriving DecidableEq, Repr

/-- The keyword of an effect. -/
def DslEffect.word : DslEffect → String
  | .allow => "allow"
  | .deny => "deny"
  | .review => "review"

def WrittenLine.text : WrittenLine → String
  | .rule e action resource => e.word ++ " " ++ (action ++ " " ++ resource)
  | .roles rs => "when " ++ rs.text
  | .subject isFirst s => (if isFirst then "where " else "or ") ++ s.text
  | .exempt rs => "unless " ++ rs.text

/-- The clause on the line. -/
def WrittenLine.clause : WrittenLine → Clause
  | .rule e action resource => .rule e action resource
  | .roles rs => .roles rs.names
  | .subject _ s => .subject s.line
  | .exempt rs => .exempt rs.names

def WrittenSubject.isPlain : WrittenSubject → Bool
  | .id x => isPlainName x
  | .directReports => true
  | .group g _ => isGroupName g

/-- All names on the line are plain. -/
def WrittenLine.isPlain : WrittenLine → Bool
  | .rule _ action resource => isUpperName action && isUpperName resource
  | .roles rs => rs.names.all isPlainName
  | .subject _ s => s.isPlain
  | .exempt rs => rs.names.all isPlainName

/-! ## Reading a line -/

section

variable {s : String}

theorem isWord_of_isPlainName (h : isPlainName s = true) : Text.isWord s = true := by
  rw [isPlainName, Bool.and_eq_true] at h
  exact h.1

theorem not_mem_of_isPlainName (h : isPlainName s = true) {c : Char}
    (hc : c = '"' ∨ c = '#' ∨ c = ',' ∨ c = '[' ∨ c = ']') : c ∉ s.toList := by
  rw [isPlainName, Bool.and_eq_true, List.all_eq_true] at h
  intro hmem
  have hplain := h.2 c hmem
  simp only [Bool.and_eq_true, decide_eq_true_eq] at hplain
  tauto

/-- The text ends, and not in whitespace. -/
def EndsVisibly (s : String) : Prop := ∃ c, s.toList.getLast? = some c ∧ Text.isWhitespace c = false

theorem EndsVisibly.append {b : String} (h : EndsVisibly b) (a : String) : EndsVisibly (a ++ b) := by
  obtain ⟨c, hlast, hc⟩ := h
  refine ⟨c, ?_, hc⟩
  rw [String.toList_append, List.getLast?_append, hlast]
  rfl

theorem endsVisibly_word (h : Text.isWord s = true) : EndsVisibly s := by
  have hne := Text.isWord_ne_nil h
  exact ⟨s.toList.getLast hne, List.getLast?_eq_some_getLast hne,
    Text.isWhitespace_of_mem_isWord h (List.getLast_mem hne)⟩

/-- A text that starts with `a` and ends visibly has nothing to trim. -/
theorem trim_start_end {a b : String} {c : Char} {cs : List Char} (ha : a.toList = c :: cs)
    (hc : Text.isWhitespace c = false) (hb : EndsVisibly b) : Text.trim (a ++ b) = a ++ b := by
  refine Text.trim_of_ends (fun d hd => ?_) fun d hd => ?_
  · rw [String.toList_append, ha, List.cons_append, List.head?_cons, Option.some.injEq] at hd
    rwa [← hd]
  · obtain ⟨e, hlast, he⟩ := hb.append a
    rw [hlast, Option.some.injEq] at hd
    rwa [← hd]

theorem endsVisibly_bracket : EndsVisibly "]" := ⟨']', rfl, rfl⟩

/-- A bracketed list of plain names is read item by item. -/
theorem parseList_text {rs : List String} (h : rs.all isPlainName = true) :
    parseList ("[" ++ Text.join ", " rs ++ "]") = rs := by
  rw [List.all_eq_true] at h
  have hbracket : ∀ c, c = '[' ∨ c = ']' → c ∉ (Text.join ", " rs).toList := by
    intro c hc hmem
    rcases Text.mem_join hmem with hsep | ⟨r, hr, hmem⟩
    · rcases hc with rfl | rfl
      · exact absurd hsep (by decide)
      · exact absurd hsep (by decide)
    · exact not_mem_of_isPlainName (h r hr) (by tauto) hmem
  have htrim : Text.trim ("[" ++ Text.join ", " rs ++ "]") =
      "[" ++ (Text.join ", " rs ++ "]") := by
    rw [String.append_assoc, trim_start_end rfl rfl (endsVisibly_bracket.append _)]
  have hinner : Text.trimEndMatchesChar ']' (Text.trimStartMatchesChar '['
      ("[" ++ (Text.join ", " rs ++ "]"))) = Text.join ", " rs :=
    Text.trim_brackets (by decide) (hbracket '[' (Or.inl rfl)) (hbracket ']' (Or.inr rfl))
  rw [parseList, htrim, hinner]
  cases rs with
  | nil => rfl
  | cons r rs =>
      have hitem : ∀ x ∈ r :: rs, Text.trim x = x := fun x hx =>
        Text.trim_word (isWord_of_isPlainName (h x hx))
      have hspace : ∀ x ∈ rs, Text.trim (String.ofList (' ' :: x.toList)) = x := by
        intro x hx
        have hcons : String.ofList (' ' :: x.toList) = " " ++ x := by
          rw [← String.toList_inj, String.toList_ofList, String.toList_append]
          rfl
        rw [hcons, Text.trim_append_left rfl, hitem x (List.mem_cons_of_mem _ hx)]
      -- the items split at the commas, each with the space in front of it
      have hsplit : (Text.split ',' (Text.join ", " (r :: rs))).map Text.trim = r :: rs := by
        rw [Text.split, @Text.splitChars_join _ _ [' '] rfl (by decide) rs r
          fun x hx => not_mem_of_isPlainName (h x hx) (by tauto)]
        rw [List.map_cons, List.map_cons, String.ofList_toList, hitem r List.mem_cons_self,
          List.map_map, List.map_map]
        congr 1
        exact (List.map_congr_left (g := id) hspace).trans (List.map_id rs)
      rw [hsplit, List.filter_eq_self]
      intro x hx
      have hne := Text.isWord_ne_nil (isWord_of_isPlainName (h x hx))
      rw [Bool.not_eq_true', Bool.eq_false_iff]
      exact fun hempty => hne (by rw [String.isEmpty_iff.1 hempty]; rfl)

/-- Roles are read as they are written, one alone or in a list. -/
theorem readRoles_text {roles : WrittenRoles} (h : roles.names.all isPlainName = true) :
    readRoles roles.text = some roles.names := by
  cases roles with
  | one r =>
      have hr : isPlainName r = true := by simpa [WrittenRoles.names] using h
      have hword := isWord_of_isPlainName hr
      have htrim : Text.trim ("role == " ++ r) = "role ==" ++ (" " ++ r) := by
        rw [trim_start_end rfl rfl (endsVisibly_word hword), ← String.append_assoc]
        rfl
      rw [WrittenRoles.text, readRoles, htrim, Text.stripPrefix_append]
      dsimp only
      rw [Text.trim_append_left rfl, Text.trim_word hword]
      rfl
  | list rs =>
      have hlist := @parseList_text rs h
      have htrim : Text.trim ("role in [" ++ Text.join ", " rs ++ "]") =
          "role in " ++ ("[" ++ Text.join ", " rs ++ "]") := by
        rw [String.append_assoc, trim_start_end rfl rfl (endsVisibly_bracket.append _),
          ← String.append_assoc, ← String.append_assoc, ← String.append_assoc]
        rfl
      -- the form with one role is tried first
      have hne : Text.stripPrefix "role ==" ("role in " ++ ("[" ++ Text.join ", " rs ++ "]")) =
          none := by
        rw [Text.stripPrefix, String.toList_append]
        rfl
      rw [WrittenRoles.text, readRoles, htrim, hne, Text.stripPrefix_append, Option.map_some,
        hlist]
      rfl

/-- A comparison with a name is read as the subject of that name. -/
theorem readSubject_id {x : String} (h : isPlainName x = true) :
    readSubject ("subject == " ++ x) = some (subjectNamed x) := by
  have hword := isWord_of_isPlainName h
  have htrim : Text.trim ("subject == " ++ x) = "subject == " ++ x :=
    trim_start_end rfl rfl (endsVisibly_word hword)
  have hsame : "subject == " ++ x ≠ "subject==SELF" := by
    intro heq
    rw [← String.toList_inj, String.toList_append] at heq
    cases heq
  have hin : Text.stripPrefix "subject in " ("subject == " ++ x) = none := by
    rw [Text.stripPrefix, String.toList_append]
    rfl
  simp only [readSubject, htrim, hsame, or_false, hin, Text.stripPrefix_append, Option.map_some,
    Text.trim_word hword]
  by_cases hself : x = "SELF"
  · subst hself
    rfl
  · rw [if_neg]
    intro heq
    have hself' : "subject == " ++ x = "subject == " ++ "SELF" := heq
    rw [String.append_right_inj] at hself'
    exact hself hself'

/-- A membership is read as the group, its suffix dropped. -/
theorem readSubject_group {name : String} (hname : Text.isWord name = true)
    (hne : name ≠ "DIRECT_REPORTS") :
    readSubject ("subject in " ++ name) = some (.group (groupName name)) := by
  have htrim : Text.trim ("subject in " ++ name) = "subject in " ++ name :=
    trim_start_end rfl rfl (endsVisibly_word hname)
  have hself : ¬("subject in " ++ name = "subject == SELF" ∨
      "subject in " ++ name = "subject==SELF") := by
    rintro (heq | heq)
    · rw [← String.toList_inj, String.toList_append] at heq
      cases heq
    · rw [← String.toList_inj, String.toList_append] at heq
      cases heq
  simp only [readSubject, htrim, if_neg hself, Text.stripPrefix_append, Text.trim_word hname,
    if_neg hne]

/-- Every way of writing a subject is read as the line it stands for. -/
theorem readSubject_text {subject : WrittenSubject} (h : subject.isPlain = true) :
    readSubject subject.text = some subject.line := by
  cases subject with
  | id x =>
      rw [WrittenSubject.text, readSubject_id h]
      rfl
  | directReports => decide +kernel
  | group g suffix =>
      rw [WrittenSubject.isPlain, isGroupName, Bool.and_eq_true, Bool.and_eq_true] at h
      obtain ⟨⟨hplain, hreports⟩, hsuffix⟩ := h
      have hword := isWord_of_isPlainName hplain
      rw [Bool.not_eq_true'] at hsuffix
      cases suffix with
      | false =>
          have hname : groupName g = g := by
            rw [groupName, Text.trimEndMatches_of_not_endsWith hsuffix, ite_self]
          have htext : (WrittenSubject.group g false).text = "subject in " ++ g :=
            String.append_empty
          rw [htext, readSubject_group hword (of_decide_eq_true hreports), hname]
          rfl
      | true =>
          have hlong : Text.isWord (g ++ "_GROUP") = true := by
            rw [Text.isWord, Bool.and_eq_true, Bool.not_eq_true', List.isEmpty_eq_false_iff,
              String.toList_append, List.all_append, Bool.and_eq_true]
            rw [Text.isWord, Bool.and_eq_true] at hword
            exact ⟨by simp, hword.2, by decide⟩
          have hne : g ++ "_GROUP" ≠ "DIRECT_REPORTS" := by
            intro heq
            have hends := Text.endsWith_append g "_GROUP"
            rw [heq] at hends
            revert hends
            decide
          have hname : groupName (g ++ "_GROUP") = g := by
            rw [groupName, Text.endsWith_append, Bool.true_or, Bool.true_or, if_pos rfl,
              Text.trimEndMatches_append (by decide) hsuffix]
          have htext : (WrittenSubject.group g true).text = "subject in " ++ (g ++ "_GROUP") :=
            String.append_assoc
          rw [htext, readSubject_group hlong hne, hname]
          rfl

/-- A rule is read from its two upper-case words. -/
theorem readRule_text {e : DslEffect} {action resource : String}
    (ha : isUpperName action = true) (hk : isUpperName resource = true) :
    readRule e (action ++ " " ++ resource) = some (.rule e action resource) := by
  rw [isUpperName, Bool.and_eq_true, beq_iff_eq] at ha hk
  rw [readRule, Text.splitWhitespace_two (isWord_of_isPlainName ha.1) (isWord_of_isPlainName hk.1)]
  dsimp only
  rw [ha.2, hk.2]

/-- A prefix that differs from the start of the text is not stripped. -/
theorem stripPrefix_none {p a : String}
    (h : ∀ cs, Text.dropPrefix? p.toList (a.toList ++ cs) = none) (b : String) :
    Text.stripPrefix p (a ++ b) = none := by
  rw [Text.stripPrefix, String.toList_append, h]
  rfl

/-- **A written line reads as its clause.** -/
theorem readClause_text {line : WrittenLine} (h : line.isPlain = true) :
    readClause line.text = some line.clause := by
  cases line with
  | rule e action resource =>
      rw [WrittenLine.isPlain, Bool.and_eq_true] at h
      have hrule := readRule_text (e := e) h.1 h.2
      have htext : (WrittenLine.rule e action resource).text =
          (e.word ++ " ") ++ (action ++ " " ++ resource) := rfl
      rw [htext]
      -- each keyword is the first of the list that the line begins with
      cases e with
      | allow =>
          have hword : DslEffect.allow.word ++ " " = "allow " := rfl
          rw [hword, readClause, stripPrefix_none (fun _ => rfl), stripPrefix_none (fun _ => rfl),
            Text.stripPrefix_append]
          exact hrule
      | deny =>
          have hword : DslEffect.deny.word ++ " " = "deny " := rfl
          rw [hword, readClause, stripPrefix_none (fun _ => rfl), stripPrefix_none (fun _ => rfl),
            stripPrefix_none (fun _ => rfl), Text.stripPrefix_append]
          exact hrule
      | review =>
          have hword : DslEffect.review.word ++ " " = "review " := rfl
          rw [hword, readClause, stripPrefix_none (fun _ => rfl), stripPrefix_none (fun _ => rfl),
            stripPrefix_none (fun _ => rfl), stripPrefix_none (fun _ => rfl),
            Text.stripPrefix_append]
          exact hrule
  | roles rs =>
      rw [WrittenLine.text, readClause, stripPrefix_none (fun _ => rfl), Text.stripPrefix_append]
      dsimp only
      rw [readRoles_text h]
      rfl
  | subject isFirst s =>
      cases isFirst with
      | true =>
          have htext : (WrittenLine.subject true s).text = "where " ++ s.text := rfl
          rw [htext, readClause, stripPrefix_none (fun _ => rfl), stripPrefix_none (fun _ => rfl),
            stripPrefix_none (fun _ => rfl), stripPrefix_none (fun _ => rfl),
            stripPrefix_none (fun _ => rfl), Text.stripPrefix_append]
          dsimp only
          rw [readSubject_text h]
          rfl
      | false =>
          have htext : (WrittenLine.subject false s).text = "or " ++ s.text := rfl
          rw [htext, readClause, stripPrefix_none (fun _ => rfl), stripPrefix_none (fun _ => rfl),
            stripPrefix_none (fun _ => rfl), stripPrefix_none (fun _ => rfl),
            stripPrefix_none (fun _ => rfl), stripPrefix_none (fun _ => rfl),
            Text.stripPrefix_append]
          dsimp only
          rw [readSubject_text h]
          rfl
  | exempt rs =>
      rw [WrittenLine.text, readClause, stripPrefix_none (fun _ => rfl),
        stripPrefix_none (fun _ => rfl), stripPrefix_none (fun _ => rfl),
        stripPrefix_none (fun _ => rfl), stripPrefix_none (fun _ => rfl),
        stripPrefix_none (fun _ => rfl), stripPrefix_none (fun _ => rfl), Text.stripPrefix_append]
      dsimp only
      rw [Option.bind_some, readRoles_text h]
      rfl

/-- A header line reads as its name. -/
theorem readClause_header (name : String) :
    readClause ("policy \"" ++ name ++ "\"") = some (.header name) := by
  have htext : "policy \"" ++ name ++ "\"" = "policy " ++ ("\"" ++ (name ++ "\"")) := by
    have hsplit : "policy \"" = "policy " ++ "\"" := rfl
    rw [hsplit, String.append_assoc, String.append_assoc]
  have hends : EndsVisibly "\"" := ⟨'"', rfl, rfl⟩
  have htrim : Text.trim ("\"" ++ (name ++ "\"")) = "\"" ++ (name ++ "\"") :=
    trim_start_end rfl rfl (hends.append name)
  rw [htext, readClause, Text.stripPrefix_append]
  simp only [parseQuotedName, htrim, unquote, Text.stripPrefix_append, Option.bind_some,
    Text.stripSuffix_append, Option.some_or, Option.map_some]

end

/-! ## Texts -/

/-- What stands around the statement on a line. -/
structure Margin where
  before : String
  after : String
  comment : Option String
  deriving DecidableEq, Repr

/-- Whitespace and a comment, all on one line. -/
def Margin.fits (m : Margin) : Bool :=
  Text.isBlank m.before && Text.isBlank m.after &&
    !(m.before ++ m.after ++ m.comment.getD "").toList.contains '\n'

/-- The line with the statement; a blank line has the empty statement. -/
def Margin.wrap (m : Margin) (statement : String) : String :=
  m.before ++ statement ++ m.after ++ (m.comment.map ("#" ++ ·)).getD ""

/-- A policy as it is written: the header, then clause lines and blank lines. -/
structure WrittenBlock where
  name : String
  margin : Margin
  body : List (Margin × Option WrittenLine)
  deriving DecidableEq, Repr

/-- The clause lines. -/
def WrittenBlock.clauseLines (b : WrittenBlock) : List WrittenLine := b.body.filterMap Prod.snd

def WrittenBlock.lines (b : WrittenBlock) : List String :=
  b.margin.wrap ("policy \"" ++ b.name ++ "\"") ::
    b.body.map fun l => l.1.wrap ((l.2.map WrittenLine.text).getD "")

/-- A text: blank lines, then the policies. -/
structure WrittenText where
  preamble : List Margin
  blocks : List WrittenBlock
  deriving DecidableEq, Repr

def WrittenText.lines (t : WrittenText) : List String :=
  t.preamble.map (·.wrap "") ++ t.blocks.flatMap WrittenBlock.lines

def WrittenText.text (t : WrittenText) : String := Text.join "\n" t.lines

/-- All margins fit on their lines. -/
def WrittenText.fits (t : WrittenText) : Bool :=
  t.preamble.all Margin.fits &&
    t.blocks.all fun b => b.margin.fits && b.body.all fun l => l.1.fits

/-! ## Writing policies -/

def WrittenLine.rule? : WrittenLine → Option (DslEffect × String × String)
  | .rule e action resource => some (e, action, resource)
  | _ => none

def WrittenLine.whenRoles : WrittenLine → List String
  | .roles rs => rs.names
  | _ => []

def WrittenLine.unlessRoles : WrittenLine → List String
  | .exempt rs => rs.names
  | _ => []

/-- The subject on the line, unless it is a group. -/
def WrittenLine.subject? : WrittenLine → Option String
  | .subject _ (.id x) => some x
  | .subject _ .directReports => some "DIRECT_REPORTS"
  | _ => none

def WrittenLine.group? : WrittenLine → Option String
  | .subject _ (.group g _) => some g
  | _ => none

/-- The block writes the policy: one rule line, and lines for each list in its order. -/
structure WrittenBlock.Writes (b : WrittenBlock) (p : DslPolicy) : Prop where
  name : b.name = p.id
  rule : b.clauseLines.filterMap WrittenLine.rule? = [(p.effect, p.action, p.resource)]
  whenRoles : b.clauseLines.flatMap WrittenLine.whenRoles = p.whenRoles
  subjects : b.clauseLines.filterMap WrittenLine.subject? = p.whereSubjects
  groups : b.clauseLines.filterMap WrittenLine.group? = p.whereSubjectGroups
  unlessRoles : b.clauseLines.flatMap WrittenLine.unlessRoles = p.unlessRoles

/-- All names of the policy are plain. -/
def DslPolicy.overPlainNames (p : DslPolicy) : Bool :=
  isPlainName p.id && isUpperName p.action && isUpperName p.resource &&
    p.whenRoles.all isPlainName && p.whereSubjects.all isPlainName &&
    p.whereSubjectGroups.all isGroupName && p.unlessRoles.all isPlainName

/-- The policy without its raw text. -/
def DslPolicy.withoutRaw (p : DslPolicy) : DslPolicy := { p with raw := "" }

/-- The clauses the block writes. -/
def WrittenBlock.block (b : WrittenBlock) : Block :=
  ⟨b.name, b.clauseLines.map WrittenLine.clause⟩

/-! ## Lines of a text -/

/-- The text contains neither a hash nor a line feed. -/
def noMark (s : String) : Bool := s.toList.all fun c => c ≠ '#' && c ≠ '\n'

theorem noMark_append (a b : String) : noMark (a ++ b) = (noMark a && noMark b) := by
  rw [noMark, String.toList_append, List.all_append]
  rfl

theorem noMark_name {s : String} (h : isPlainName s = true) : noMark s = true := by
  rw [noMark, List.all_eq_true]
  intro c hc
  have hhash : c ≠ '#' := fun heq => not_mem_of_isPlainName h (by tauto) (heq ▸ hc)
  have hline : c ≠ '\n' := by
    rintro rfl
    have hspace := Text.isWhitespace_of_mem_isWord (isWord_of_isPlainName h) hc
    revert hspace
    decide
  simp [hhash, hline]

theorem noMark_join {rs : List String} (h : rs.all isPlainName = true) :
    noMark (Text.join ", " rs) = true := by
  rw [List.all_eq_true] at h
  rw [noMark, List.all_eq_true]
  intro c hc
  rcases Text.mem_join hc with hsep | ⟨r, hr, hc⟩
  · have hall : ", ".toList.all (fun c => c ≠ '#' && c ≠ '\n') = true := by decide
    exact List.all_eq_true.1 hall c hsep
  · have hname := noMark_name (h r hr)
    rw [noMark, List.all_eq_true] at hname
    exact hname c hc

/-- A statement: a text on one line without a comment and with nothing to trim. -/
structure IsStatement (s : String) : Prop where
  noMark : noMark s = true
  trimmed : Text.trim s = s

theorem isStatement_empty : IsStatement "" := ⟨rfl, rfl⟩

/-- Written roles end visibly and have no mark. -/
theorem WrittenRoles.endsVisibly {rs : WrittenRoles} (h : rs.names.all isPlainName = true) :
    EndsVisibly rs.text ∧ Paac.noMark rs.text = true := by
  cases rs with
  | one r =>
      have hr : isPlainName r = true := by simpa [WrittenRoles.names] using h
      refine ⟨(endsVisibly_word (isWord_of_isPlainName hr)).append _, ?_⟩
      rw [WrittenRoles.text, noMark_append, noMark_name hr]
      rfl
  | list rs =>
      have hjoin := @noMark_join rs h
      refine ⟨endsVisibly_bracket.append _, ?_⟩
      rw [WrittenRoles.text, noMark_append, noMark_append, hjoin]
      rfl

/-- A written subject ends visibly and has no mark. -/
theorem WrittenSubject.endsVisibly {s : WrittenSubject} (h : s.isPlain = true) :
    EndsVisibly s.text ∧ Paac.noMark s.text = true := by
  cases s with
  | id x =>
      refine ⟨(endsVisibly_word (isWord_of_isPlainName h)).append _, ?_⟩
      rw [WrittenSubject.text, noMark_append, noMark_name h]
      rfl
  | directReports => exact ⟨⟨'S', rfl, rfl⟩, rfl⟩
  | group g suffix =>
      rw [WrittenSubject.isPlain, isGroupName, Bool.and_eq_true, Bool.and_eq_true] at h
      have hplain := h.1.1
      cases suffix with
      | false =>
          have htext : (WrittenSubject.group g false).text = "subject in " ++ g :=
            String.append_empty
          rw [htext, noMark_append, noMark_name hplain]
          exact ⟨(endsVisibly_word (isWord_of_isPlainName hplain)).append _, rfl⟩
      | true =>
          refine ⟨EndsVisibly.append ⟨'P', rfl, rfl⟩ _, ?_⟩
          rw [WrittenSubject.text, noMark_append, noMark_append, noMark_name hplain]
          rfl

/-- The text of a clause line is a statement. -/
theorem WrittenLine.isStatement {line : WrittenLine} (h : line.isPlain = true) :
    IsStatement line.text := by
  cases line with
  | rule e action resource =>
      rw [WrittenLine.isPlain, Bool.and_eq_true, isUpperName, isUpperName, Bool.and_eq_true,
        Bool.and_eq_true] at h
      -- the line ends with the name of the resource
      have hend := (endsVisibly_word (isWord_of_isPlainName h.2.1)).append (action ++ " ")
      refine ⟨?_, ?_⟩
      · rw [WrittenLine.text, noMark_append, noMark_append, noMark_append, noMark_append,
          noMark_name h.1.1, noMark_name h.2.1]
        cases e <;> rfl
      · cases e with
        | allow => exact trim_start_end (a := "allow ") rfl rfl hend
        | deny => exact trim_start_end (a := "deny ") rfl rfl hend
        | review => exact trim_start_end (a := "review ") rfl rfl hend
  | roles rs =>
      obtain ⟨hend, hmark⟩ := WrittenRoles.endsVisibly h
      exact ⟨by rw [WrittenLine.text, noMark_append, hmark]; rfl, trim_start_end rfl rfl hend⟩
  | subject isFirst s =>
      obtain ⟨hend, hmark⟩ := WrittenSubject.endsVisibly h
      cases isFirst with
      | true =>
          exact ⟨by rw [WrittenLine.text, noMark_append, hmark]; rfl,
            trim_start_end (a := "where ") rfl rfl hend⟩
      | false =>
          exact ⟨by rw [WrittenLine.text, noMark_append, hmark]; rfl,
            trim_start_end (a := "or ") rfl rfl hend⟩
  | exempt rs =>
      obtain ⟨hend, hmark⟩ := WrittenRoles.endsVisibly h
      exact ⟨by rw [WrittenLine.text, noMark_append, hmark]; rfl, trim_start_end rfl rfl hend⟩

theorem isStatement_header {name : String} (h : isPlainName name = true) :
    IsStatement ("policy \"" ++ name ++ "\"") := by
  refine ⟨by rw [noMark_append, noMark_append, noMark_name h]; rfl, ?_⟩
  rw [String.append_assoc]
  exact trim_start_end rfl rfl (EndsVisibly.append ⟨'"', rfl, rfl⟩ name)

/-- What the parser sees of a line. -/
def statementOf (rawLine : String) : String := Text.trim (stripComment rawLine)

theorem noHash_of_isBlank {s : String} (h : Text.isBlank s = true) : '#' ∉ s.toList := by
  intro hmem
  have hspace := List.all_eq_true.1 h '#' hmem
  revert hspace
  decide

theorem noHash_of_noMark {s : String} (h : noMark s = true) : '#' ∉ s.toList := by
  intro hmem
  have hmark := List.all_eq_true.1 h '#' hmem
  revert hmark
  decide

/-- **The margins of a statement are not seen.** -/
theorem statementOf_wrap {m : Margin} (hm : m.fits = true) {s : String} (hs : IsStatement s) :
    statementOf (m.wrap s) = s := by
  rw [Margin.fits, Bool.and_eq_true, Bool.and_eq_true] at hm
  obtain ⟨⟨hbefore, hafter⟩, -⟩ := hm
  -- the first hash is the one of the comment
  have hhash : '#' ∉ (m.before ++ s ++ m.after).toList := by
    rw [String.toList_append, String.toList_append, List.mem_append, List.mem_append, not_or,
      not_or]
    exact ⟨⟨noHash_of_isBlank hbefore, noHash_of_noMark hs.noMark⟩, noHash_of_isBlank hafter⟩
  have hstrip : stripComment (m.wrap s) = m.before ++ s ++ m.after := by
    rw [Margin.wrap]
    cases m.comment with
    | none =>
        have hnone : m.before ++ s ++ m.after ++ (Option.map ("#" ++ ·) none).getD "" =
            m.before ++ s ++ m.after := String.append_empty
        rw [hnone, stripComment, Text.splitOnce, Text.splitOnceChars_of_not_mem hhash]
        rfl
    | some c =>
        have hsome : (m.before ++ s ++ m.after ++ (Option.map ("#" ++ ·) (some c)).getD "").toList =
            (m.before ++ s ++ m.after).toList ++ '#' :: c.toList := by
          have hcons : ("#" ++ c).toList = '#' :: c.toList := by
            rw [String.toList_append]
            rfl
          rw [Option.map_some, Option.getD_some, String.toList_append, hcons]
        rw [stripComment, Text.splitOnce, hsome, Text.splitOnceChars_append hhash]
        exact String.ofList_toList
  rw [statementOf, hstrip, Text.trim_append_right _ hafter, Text.trim_append_left hbefore,
    hs.trimmed]

/-- A `\r` at the end of a line is not seen. -/
theorem statementOf_dropCarriageReturn (cs : List Char) :
    statementOf (String.ofList (Text.dropCarriageReturn cs)) = statementOf (String.ofList cs) := by
  unfold Text.dropCarriageReturn
  split
  · rename_i rest hrest
    have hcs : cs = rest.reverse ++ ['\r'] := by
      rw [← List.reverse_cons, ← hrest, List.reverse_reverse]
    have hreturn : Text.isBlank "\r" = true := by decide
    rw [hcs, statementOf, statementOf, stripComment, stripComment, Text.splitOnce,
      Text.splitOnce, String.toList_ofList, String.toList_ofList]
    -- in a comment the return is cut off with the rest; otherwise trimming drops it
    cases hsplit : Text.splitOnceChars '#' rest.reverse with
    | some r =>
        rw [Text.splitOnceChars_append_of_some hsplit]
        rfl
    | none =>
        have hnone : Text.splitOnceChars '#' (rest.reverse ++ ['\r']) = none := by
          refine Text.splitOnceChars_of_not_mem ?_
          rw [List.mem_append, not_or]
          exact ⟨Text.not_mem_of_splitOnceChars hsplit, by decide⟩
        rw [hnone]
        dsimp only [Option.map_none]
        have happ : String.ofList (rest.reverse ++ ['\r']) = String.ofList rest.reverse ++ "\r" := by
          rw [← String.toList_inj, String.toList_append, String.toList_ofList,
            String.toList_ofList]
          rfl
        rw [happ, Text.trim_append_right _ hreturn]
  · rfl

/-! ## Reading a text -/

/-- The reader on what it sees of a line. -/
def Blocks.readStatement (bs : Blocks) (statement : String) : Option Blocks :=
  if statement.isEmpty then some bs else (readClause statement).bind bs.push

/-- A statement on which a clause is read is not empty. -/
theorem Blocks.readStatement_of_clause {statement : String} {c : Clause}
    (h : readClause statement = some c) (bs : Blocks) : bs.readStatement statement = bs.push c := by
  have hne : ¬statement.isEmpty = true := by
    intro hempty
    have hnone : readClause "" = none := by decide +kernel
    rw [String.isEmpty_iff.1 hempty, hnone] at h
    cases h
  rw [Blocks.readStatement, if_neg hne, h, Option.bind_some]

theorem Blocks.readStatement_header (bs : Blocks) (name : String) :
    bs.readStatement ("policy \"" ++ name ++ "\"") = some ⟨bs.all, some ⟨name, []⟩⟩ :=
  Blocks.readStatement_of_clause (readClause_header name) bs

theorem Blocks.readLine_eq (bs : Blocks) (rawLine : String) :
    bs.readLine rawLine = bs.readStatement (statementOf rawLine) := rfl

/-- Reading the lines of a text is reading the statements on its lines. -/
theorem foldlM_closeLines (ls : List String) : ∀ bs : Blocks,
    ((Text.closeLines (ls.map String.toList)).map String.ofList).foldlM Blocks.readLine bs =
      (ls.map statementOf).foldlM Blocks.readStatement bs := by
  induction ls with
  | nil =>
      intro bs
      simp only [List.map_nil, Text.closeLines, List.foldlM_nil]
  | cons l ls ih =>
      intro bs
      -- only the last line may be empty, and then it is no line at all
      cases ls with
      | nil =>
          rw [List.map_singleton, Text.closeLines]
          split
          · rename_i hempty
            have hl : l = "" := String.toList_inj.1 (List.isEmpty_iff.1 hempty)
            have hblank : bs.readStatement (statementOf "") = some bs := by
              have hempty : statementOf "" = "" := by decide
              rw [hempty]
              exact if_pos rfl
            rw [hl, List.map_singleton, List.map_nil, List.foldlM_cons, hblank]
            rfl
          · simp only [List.map_singleton, List.foldlM_cons, List.foldlM_nil,
              Blocks.readLine_eq, String.ofList_toList]
      | cons l' ls =>
          have hlines : Text.closeLines ((l :: l' :: ls).map String.toList) =
              Text.dropCarriageReturn l.toList ::
                Text.closeLines ((l' :: ls).map String.toList) := rfl
          have hfirst : bs.readLine (String.ofList (Text.dropCarriageReturn l.toList)) =
              bs.readStatement (statementOf l) := by
            rw [Blocks.readLine_eq, statementOf_dropCarriageReturn, String.ofList_toList]
          rw [hlines, List.map_cons, List.foldlM_cons, hfirst, funext ih]
          exact List.foldlM_cons.symm

/-- Joined lines are read line by line. -/
theorem foldlM_lines_join (ls : List String) (hbreaks : ∀ l ∈ ls, '\n' ∉ l.toList) (bs : Blocks) :
    (Text.lines (Text.join "\n" ls)).foldlM Blocks.readLine bs =
      (ls.map statementOf).foldlM Blocks.readStatement bs := by
  cases ls with
  | nil =>
      have hlines : Text.lines (Text.join "\n" []) = [] := by decide
      rw [hlines, List.map_nil]
      simp only [List.foldlM_nil]
  | cons l ls => rw [Text.lines_join l ls hbreaks, foldlM_closeLines]

/-- The name and the clause lines of the block are plain. -/
def WrittenBlock.isPlain (b : WrittenBlock) : Bool :=
  isPlainName b.name && b.clauseLines.all WrittenLine.isPlain

theorem WrittenLine.clause_ne_header (line : WrittenLine) (n : String) :
    line.clause ≠ .header n := by
  cases line <;> exact Clause.noConfusion

/-- The lines behind a header add their clauses to its block, one after the other. -/
theorem foldlM_body (done : List Block) (name : String) (body : List (Margin × Option WrittenLine))
    (hfits : ∀ l ∈ body, l.1.fits = true)
    (hplain : ∀ line ∈ body.filterMap Prod.snd, line.isPlain = true) : ∀ cs : List Clause,
    ((body.map fun l => l.1.wrap ((l.2.map WrittenLine.text).getD "")).map statementOf).foldlM
        Blocks.readStatement ⟨done, some ⟨name, cs⟩⟩ =
      some ⟨done, some ⟨name, cs ++ (body.filterMap Prod.snd).map WrittenLine.clause⟩⟩ := by
  induction body with
  | nil =>
      intro cs
      simp only [List.filterMap_nil, List.map_nil, List.append_nil, List.foldlM_nil]
      rfl
  | cons l body ih =>
      intro cs
      rw [List.forall_mem_cons] at hfits
      obtain ⟨m, line?⟩ := l
      cases line? with
      | none =>
          have hline : statementOf (m.wrap "") = "" := statementOf_wrap hfits.1 isStatement_empty
          rw [List.map_cons, List.map_cons, List.foldlM_cons, Option.map_none, Option.getD_none,
            hline]
          exact ih hfits.2 hplain cs
      | some line =>
          have hbody : List.filterMap Prod.snd ((m, some line) :: body) =
              line :: List.filterMap Prod.snd body := rfl
          rw [hbody, List.forall_mem_cons] at hplain
          have hline : statementOf (m.wrap line.text) = line.text :=
            statementOf_wrap hfits.1 (WrittenLine.isStatement hplain.1)
          -- no body line is a header, so it is added to the open block
          have hpush : Blocks.readStatement ⟨done, some ⟨name, cs⟩⟩ line.text =
              some ⟨done, some ⟨name, cs ++ [line.clause]⟩⟩ := by
            rw [Blocks.readStatement_of_clause (readClause_text hplain.1),
              Blocks.push_eq line.clause_ne_header]
            rfl
          rw [List.map_cons, List.map_cons, List.foldlM_cons, Option.map_some, Option.getD_some,
            hline, hpush, hbody, List.map_cons]
          have hrest := ih hfits.2 hplain.2 (cs ++ [line.clause])
          rw [List.append_assoc, List.singleton_append] at hrest
          exact hrest

/-- A header closes the open block, and its lines fill the next one. -/
theorem foldlM_block (bs : Blocks) (b : WrittenBlock) (hplain : b.isPlain = true)
    (hmargin : b.margin.fits = true) (hbody : ∀ l ∈ b.body, l.1.fits = true) :
    (b.lines.map statementOf).foldlM Blocks.readStatement bs = some ⟨bs.all, some b.block⟩ := by
  rw [WrittenBlock.isPlain, Bool.and_eq_true, List.all_eq_true] at hplain
  have hheader : statementOf (b.margin.wrap ("policy \"" ++ b.name ++ "\"")) =
      "policy \"" ++ b.name ++ "\"" := statementOf_wrap hmargin (isStatement_header hplain.1)
  rw [WrittenBlock.lines, List.map_cons, List.foldlM_cons, hheader, Blocks.readStatement_header]
  exact foldlM_body bs.all b.name b.body hbody hplain.2 []

/-- Blank lines and comments before the first header are passed over. -/
theorem foldlM_preamble (ms : List Margin) (hfits : ∀ m ∈ ms, m.fits = true) (bs : Blocks) :
    ((ms.map (·.wrap "")).map statementOf).foldlM Blocks.readStatement bs = some bs := by
  induction ms with
  | nil => rfl
  | cons m ms ih =>
      rw [List.forall_mem_cons] at hfits
      rw [List.map_cons, List.map_cons, List.foldlM_cons,
        statementOf_wrap hfits.1 isStatement_empty]
      exact ih hfits.2

/-- Block after block. -/
theorem foldlM_blocks (blocks : List WrittenBlock)
    (hplain : ∀ b ∈ blocks, b.isPlain = true)
    (hfits : ∀ b ∈ blocks, b.margin.fits = true ∧ ∀ l ∈ b.body, l.1.fits = true) :
    ∀ bs : Blocks, (((blocks.flatMap WrittenBlock.lines).map statementOf).foldlM
      Blocks.readStatement bs).map Blocks.all = some (bs.all ++ blocks.map WrittenBlock.block) := by
  induction blocks with
  | nil =>
      intro bs
      rw [List.map_nil, List.append_nil]
      rfl
  | cons b blocks ih =>
      intro bs
      rw [List.forall_mem_cons] at hplain hfits
      rw [List.flatMap_cons, List.map_append, List.foldlM_append,
        foldlM_block bs b hplain.1 hfits.1.1 hfits.1.2]
      have hrest := ih hplain.2 hfits.2 ⟨bs.all, some b.block⟩
      have hall : Blocks.all ⟨bs.all, some b.block⟩ = bs.all ++ [b.block] := rfl
      rw [hall, List.append_assoc, List.singleton_append] at hrest
      rw [List.map_cons]
      exact hrest

/-- A statement within its margin is one line. -/
theorem noLineFeed_wrap {m : Margin} (hm : m.fits = true) {s : String} (hs : IsStatement s) :
    '\n' ∉ (m.wrap s).toList := by
  rw [Margin.fits, Bool.and_eq_true, Bool.not_eq_true', Bool.eq_false_iff, Ne,
    List.contains_iff_mem, String.toList_append, String.toList_append, List.mem_append,
    List.mem_append, not_or, not_or] at hm
  obtain ⟨-, ⟨hbefore, hafter⟩, hcomment⟩ := hm
  have hstatement : '\n' ∉ s.toList := by
    intro hmem
    have hmark := List.all_eq_true.1 hs.noMark '\n' hmem
    revert hmark
    decide
  rw [Margin.wrap, String.toList_append, String.toList_append, String.toList_append,
    List.mem_append, List.mem_append, List.mem_append, not_or, not_or, not_or]
  refine ⟨⟨⟨hbefore, hstatement⟩, hafter⟩, ?_⟩
  cases hc : m.comment with
  | none => exact List.not_mem_nil
  | some c =>
      rw [hc] at hcomment
      rw [Option.map_some, Option.getD_some, String.toList_append, List.mem_append, not_or]
      exact ⟨by decide, hcomment⟩

/-- The margins of a text are those of its preamble, its headers and its clauses. -/
theorem WrittenText.fits_blocks {t : WrittenText} (hfits : t.fits = true) :
    (∀ m ∈ t.preamble, m.fits = true) ∧
      ∀ b ∈ t.blocks, b.margin.fits = true ∧ ∀ l ∈ b.body, l.1.fits = true := by
  rw [WrittenText.fits, Bool.and_eq_true, List.all_eq_true, List.all_eq_true] at hfits
  refine ⟨hfits.1, fun b hb => ?_⟩
  have hblock := hfits.2 b hb
  rw [Bool.and_eq_true, List.all_eq_true] at hblock
  exact hblock

/-- No line of the text breaks. -/
theorem WrittenText.noLineFeed {t : WrittenText} (hfits : t.fits = true)
    (hplain : ∀ b ∈ t.blocks, b.isPlain = true) : ∀ l ∈ t.lines, '\n' ∉ l.toList := by
  obtain ⟨hpreamble, hblocks⟩ := WrittenText.fits_blocks hfits
  intro l hl
  rw [WrittenText.lines, List.mem_append, List.mem_map, List.mem_flatMap] at hl
  rcases hl with ⟨m, hm, rfl⟩ | ⟨b, hb, hl⟩
  · exact noLineFeed_wrap (hpreamble m hm) isStatement_empty
  · have hnames := hplain b hb
    rw [WrittenBlock.isPlain, Bool.and_eq_true, List.all_eq_true] at hnames
    rw [WrittenBlock.lines, List.mem_cons, List.mem_map] at hl
    rcases hl with rfl | ⟨⟨m, line?⟩, hline, rfl⟩
    · exact noLineFeed_wrap (hblocks b hb).1 (isStatement_header hnames.1)
    · have hm := (hblocks b hb).2 _ hline
      cases line? with
      | none => exact noLineFeed_wrap hm isStatement_empty
      | some line =>
          have hmem : line ∈ b.clauseLines := List.mem_filterMap.2 ⟨_, hline, rfl⟩
          exact noLineFeed_wrap hm (WrittenLine.isStatement (hnames.2 line hmem))

/-- **A written text reads as its blocks.** -/
theorem readBlocks_text {t : WrittenText} (hfits : t.fits = true)
    (hplain : ∀ b ∈ t.blocks, b.isPlain = true) :
    readBlocks t.text = some (t.blocks.map WrittenBlock.block) := by
  obtain ⟨hpreamble, hblocks⟩ := WrittenText.fits_blocks hfits
  have hread : ((t.lines.map statementOf).foldlM Blocks.readStatement ⟨[], none⟩).map Blocks.all =
      some (t.blocks.map WrittenBlock.block) := by
    rw [WrittenText.lines, List.map_append, List.foldlM_append, foldlM_preamble _ hpreamble]
    exact foldlM_blocks t.blocks hplain hblocks ⟨[], none⟩
  rw [readBlocks, WrittenText.text, foldlM_lines_join _ (WrittenText.noLineFeed hfits hplain),
    hread]

/-! ## The policies of a text -/

section

variable (lines : List WrittenLine)

theorem rules_clause :
    (lines.map WrittenLine.clause).filterMap Clause.rule? = lines.filterMap WrittenLine.rule? := by
  rw [List.filterMap_map]
  refine List.filterMap_congr fun line _ => ?_
  cases line <;> rfl

theorem roleLists_clause :
    (roleLists (lines.map WrittenLine.clause)).flatten = lines.flatMap WrittenLine.whenRoles := by
  induction lines with
  | nil => rfl
  | cons line lines ih =>
      rw [List.flatMap_cons, ← ih]
      cases line <;> rfl

theorem exemptRoles_clause :
    exemptRoles (lines.map WrittenLine.clause) = lines.flatMap WrittenLine.unlessRoles := by
  induction lines with
  | nil => rfl
  | cons line lines ih =>
      rw [List.flatMap_cons, ← ih]
      cases line <;> rfl

/-- The subject constraints of the clauses are the subjects written. -/
theorem subjects_clause :
    (subjectLines (lines.map WrittenLine.clause)).filterMap SubjectLine.constraint? =
      lines.filterMap WrittenLine.subject? := by
  rw [subjectLines, List.filterMap_map, List.filterMap_filterMap]
  refine List.filterMap_congr fun line _ => ?_
  cases line with
  | subject isFirst s =>
      cases s with
      | id x => exact constraint_subjectNamed x
      | directReports => rfl
      | group g suffix => rfl
  | rule e action resource => rfl
  | roles rs => rfl
  | exempt rs => rfl

/-- The groups of the clauses are the groups written. -/
theorem groups_clause :
    (subjectLines (lines.map WrittenLine.clause)).filterMap SubjectLine.group? =
      lines.filterMap WrittenLine.group? := by
  rw [subjectLines, List.filterMap_map, List.filterMap_filterMap]
  refine List.filterMap_congr fun line _ => ?_
  cases line with
  | subject isFirst s =>
      cases s with
      | id x => exact group_subjectNamed x
      | directReports => rfl
      | group g suffix => rfl
  | rule e action resource => rfl
  | roles rs => rfl
  | exempt rs => rfl

end

namespace WrittenBlock.Writes

variable {b : WrittenBlock} {p : DslPolicy}

/-- A record of the block agrees with the policy it writes. -/
theorem withoutRaw_eq (h : b.Writes p) {p' : DslPolicy} (hlists : p'.Lists b.block) :
    p'.withoutRaw = p.withoutRaw := by
  have hid := hlists.id.trans h.name
  have hrule := hlists.rule
  rw [block, lastRule_eq_getLast?, rules_clause, h.rule, List.getLast?_singleton,
    Option.some.injEq, Prod.mk.injEq, Prod.mk.injEq] at hrule
  have hwhen := hlists.whenRoles.trans ((roleLists_clause _).trans h.whenRoles)
  have hsubjects := hlists.whereSubjects.trans ((subjects_clause _).trans h.subjects)
  have hgroups := hlists.whereSubjectGroups.trans ((groups_clause _).trans h.groups)
  have hunless := hlists.unlessRoles.trans ((exemptRoles_clause _).trans h.unlessRoles)
  rw [DslPolicy.withoutRaw, DslPolicy.withoutRaw, hid, hrule.1, hrule.2.1, hrule.2.2, hwhen,
    hsubjects, hgroups, hunless]

theorem hasRule (h : b.Writes p) : b.block.hasRule = true := by
  rw [Block.hasRule, block, lastRule_eq_getLast?, rules_clause, h.rule]
  rfl

/-- The lines of a policy over plain names are plain. -/
theorem isPlain (h : b.Writes p) (hplain : p.overPlainNames = true) : b.isPlain = true := by
  simp only [DslPolicy.overPlainNames, Bool.and_eq_true, List.all_eq_true] at hplain
  obtain ⟨⟨⟨⟨⟨⟨hid, haction⟩, hresource⟩, hwhen⟩, hsubjects⟩, hgroups⟩, hunless⟩ := hplain
  rw [WrittenBlock.isPlain, Bool.and_eq_true, List.all_eq_true, h.name]
  refine ⟨hid, fun line hline => ?_⟩
  -- each line writes names of the record
  cases line with
  | rule e action resource =>
      have hmem : (e, action, resource) ∈ b.clauseLines.filterMap WrittenLine.rule? :=
        List.mem_filterMap.2 ⟨_, hline, rfl⟩
      rw [h.rule, List.mem_singleton, Prod.mk.injEq, Prod.mk.injEq] at hmem
      rw [WrittenLine.isPlain, hmem.2.1, hmem.2.2, haction, hresource]
      rfl
  | roles rs =>
      rw [WrittenLine.isPlain, List.all_eq_true]
      intro r hr
      refine hwhen r ?_
      rw [← h.whenRoles]
      exact List.mem_flatMap.2 ⟨_, hline, hr⟩
  | subject isFirst s =>
      cases s with
      | id x =>
          refine hsubjects x ?_
          rw [← h.subjects]
          exact List.mem_filterMap.2 ⟨_, hline, rfl⟩
      | directReports => rfl
      | group g suffix =>
          refine hgroups g ?_
          rw [← h.groups]
          exact List.mem_filterMap.2 ⟨_, hline, rfl⟩
  | exempt rs =>
      rw [WrittenLine.isPlain, List.all_eq_true]
      intro r hr
      refine hunless r ?_
      rw [← h.unlessRoles]
      exact List.mem_flatMap.2 ⟨_, hline, hr⟩

/-- Blocks that write policies over plain names can be read. -/
theorem forall₂_readable {bs : List WrittenBlock} {ps : List DslPolicy}
    (h : List.Forall₂ WrittenBlock.Writes bs ps)
    (hplain : ∀ p ∈ ps, p.overPlainNames = true) :
    ∀ b ∈ bs, b.isPlain = true ∧ b.block.hasRule = true := by
  induction h with
  | nil => exact fun b hb => absurd hb List.not_mem_nil
  | cons hw _ ih =>
      rw [List.forall_mem_cons] at hplain
      rw [List.forall_mem_cons]
      exact ⟨⟨hw.isPlain hplain.1, hw.hasRule⟩, ih hplain.2⟩

/-- What is read from the blocks is the policies, their raw texts apart. -/
theorem forall₂_withoutRaw {bs : List WrittenBlock} {ps : List DslPolicy}
    (h : List.Forall₂ WrittenBlock.Writes bs ps) : ∀ {ps' : List DslPolicy},
    List.Forall₂ DslPolicy.Lists ps' (bs.map WrittenBlock.block) →
      ps'.map DslPolicy.withoutRaw = ps.map DslPolicy.withoutRaw := by
  induction h with
  | nil =>
      intro ps' hlists
      cases hlists
      rfl
  | cons hw _ ih =>
      intro ps' hlists
      cases hlists with
      | cons hp hrest => rw [List.map_cons, List.map_cons, hw.withoutRaw_eq hp, ih hrest]

end WrittenBlock.Writes

/-- **Writing, then parsing**: a text that writes policies over plain names is accepted, and the
parser returns the policies, up to their raw texts. -/
theorem parse_written {t : WrittenText} {ps : List DslPolicy} (hfits : t.fits = true)
    (hplain : ps.all DslPolicy.overPlainNames = true)
    (hwrites : List.Forall₂ WrittenBlock.Writes t.blocks ps) :
    ∃ ps', parseDsl t.text = .ok ps' ∧
      ps'.map DslPolicy.withoutRaw = ps.map DslPolicy.withoutRaw := by
  rw [List.all_eq_true] at hplain
  have hblocks := WrittenBlock.Writes.forall₂_readable hwrites hplain
  have hread := readBlocks_text hfits fun b hb => (hblocks b hb).1
  obtain ⟨ps', hps'⟩ := parseDsl_accepts_iff.2 ⟨_, hread, by
    rw [List.forall_mem_map]
    exact fun b hb => (hblocks b hb).2⟩
  refine ⟨ps', hps', ?_⟩
  obtain ⟨bs, hbs, hlists⟩ := parseDsl_reads hps'
  obtain rfl := Option.some.inj (hread.symm.trans hbs)
  exact WrittenBlock.Writes.forall₂_withoutRaw hwrites hlists

/-- A text with a preamble, two blocks and every kind of line. -/
def WrittenText.sample : WrittenText where
  preamble := [⟨"", "", some " pay"⟩, ⟨"  ", "", none⟩]
  blocks := [
    { name := "pay"
      margin := ⟨"", " ", some " who sees pay"⟩
      body := [
        (⟨"  ", "", none⟩, some (.roles (.list ["HR", "MANAGER"]))),
        (⟨"", "", some "subjects"⟩, none),
        (⟨"  ", "\r", none⟩, some (.subject true .directReports)),
        (⟨"  ", "", none⟩, some (.rule .allow "READ" "SALARY")),
        (⟨"  ", "", none⟩, some (.subject false (.group "STAFF" true))),
        (⟨"  ", "", none⟩, some (.exempt (.one "INTERN"))),
        (⟨"  ", "", none⟩, some (.roles (.one "CEO")))] },
    { name := "mail"
      margin := ⟨"", "", none⟩
      body := [
        (⟨"", "", none⟩, some (.rule .deny "SEND" "EMAIL")),
        (⟨"", "", none⟩, some (.subject true (.id "SELF"))),
        (⟨"", "", none⟩, none)] }]

def WrittenText.samplePolicies : List DslPolicy :=
  [⟨"pay", .allow, "READ", "SALARY", ["HR", "MANAGER", "CEO"], ["DIRECT_REPORTS"], ["INTERN"],
      ["STAFF"], ""⟩,
    ⟨"mail", .deny, "SEND", "EMAIL", [], ["SELF"], [], [], ""⟩]

/-- Two policies written with comments, lists and clauses in another order are read as they are
meant. -/
theorem parse_written_sample :
    ∃ ps', parseDsl WrittenText.sample.text = .ok ps' ∧
      ps'.map DslPolicy.withoutRaw = WrittenText.samplePolicies.map DslPolicy.withoutRaw :=
  parse_written (by decide +kernel) (by decide +kernel)
    (.cons ⟨rfl, rfl, rfl, rfl, rfl, rfl⟩ (.cons ⟨rfl, rfl, rfl, rfl, rfl, rfl⟩ .nil))

end Paac
