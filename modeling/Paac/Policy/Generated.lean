import Paac.Library.JsonLines
import Paac.Library.Parts
import Paac.Policy.Compose

set_option autoImplicit false

/-!
# Generated texts

A text means a list of policies when the parser accepts it and returns these policies, up to the raw
text they keep. What a generator writes line by line is compared with the policies it means to write
on the level of blocks: `Opens` says that some lines are one block, and the blocks of a whole text
are those of its parts.

A line is changed by a comment mark in it, and a text by a line feed in a name, so generators are
correct for names that hold neither. The names of a parsed policy are of this kind, since they have
been cut out of a line behind which no comment was left.

## Main results

- `means_iff`: what a text means is told by the blocks of its lines.
- `Adds.cons`, `Adds.opens`, `foldlM_opens`: how lines that are generated one by one make up blocks.
- `readBlocks_logText`: the blocks of a text of generated lines.
- `readClause_markFree`, `Blocks.MarkFree.foldlM`: what is read from texts without comment marks has
  none.
- `parsed_words`: the roles and rule words of a parsed policy hold neither a comment mark nor a line
  feed.
-/

namespace Paac

/-- The parser accepts the text as these policies. -/
def Means (text : String) (ps : List DslPolicy) : Prop :=
  ∃ parsed, parseDsl text = .ok parsed ∧ parsed.map DslPolicy.withoutRaw = ps

/-! ## From blocks to policies -/

/-- A parsed policy lists a block of the text. -/
theorem exists_block {ps : List DslPolicy} {bs : List Block}
    (h : List.Forall₂ DslPolicy.Lists ps bs) {p : DslPolicy} (hp : p ∈ ps) :
    ∃ b ∈ bs, p.Lists b := by
  induction h with
  | nil => cases hp
  | cons hlists _ ih =>
      rcases List.mem_cons.1 hp with rfl | hp
      · exact ⟨_, List.mem_cons_self, hlists⟩
      · obtain ⟨b, hb, hlists'⟩ := ih hp
        exact ⟨b, List.mem_cons_of_mem _ hb, hlists'⟩

theorem hasRule_of_lists {ps : List DslPolicy} {bs : List Block}
    (h : List.Forall₂ DslPolicy.Lists ps bs) : ∀ b ∈ bs, b.hasRule = true := by
  induction h with
  | nil => exact fun b hb => absurd hb List.not_mem_nil
  | cons hlists _ ih =>
      rw [List.forall_mem_cons]
      exact ⟨by rw [Block.hasRule, hlists.rule]; rfl, ih⟩

/-- A text whose blocks list some policies means these and no others. -/
theorem means_iff {text : String} {bs : List Block} {qs ps : List DslPolicy}
    (hread : readBlocks text = some bs) (hlists : List.Forall₂ DslPolicy.Lists qs bs) :
    Means text ps ↔ qs.map DslPolicy.withoutRaw = ps := by
  obtain ⟨parsed, hparsed⟩ := parseDsl_accepts_iff.2 ⟨bs, hread, hasRule_of_lists hlists⟩
  obtain ⟨bs', hread', hlists'⟩ := parseDsl_reads hparsed
  obtain rfl := Option.some.inj (hread.symm.trans hread')
  have hsame := map_withoutRaw_eq hlists' hlists
  constructor
  · rintro ⟨parsed', hparsed', rfl⟩
    rw [hparsed] at hparsed'
    rw [← hsame, Except.ok.inj hparsed']
  · rintro rfl
    exact ⟨parsed, hparsed, hsame⟩

/-! ## From lines to blocks -/

theorem IsStatement.statementOf {s : String} (h : IsStatement s) : Paac.statementOf s = s := by
  rw [Paac.statementOf, stripComment, Text.splitOnce,
    Text.splitOnceChars_of_not_mem (noHash_of_noMark h.noMark)]
  exact h.trimmed

/-- A comment line says nothing. -/
theorem statementOf_comment (s : String) : statementOf ("#" ++ s) = "" := by
  have hsplit : Text.splitOnceChars '#' ("#" ++ s).toList = some ([], s.toList) := by
    rw [String.toList_append]
    exact Text.splitOnceChars_append List.not_mem_nil s.toList
  rw [statementOf, stripComment, Text.splitOnce, hsplit]
  rfl

/-- The statements add their clauses to the open block. -/
def Adds (statements : List String) (cs : List Clause) : Prop :=
  ∀ (done : List Block) (name : String) (prior : List Clause),
    statements.foldlM Blocks.readStatement ⟨done, some ⟨name, prior⟩⟩ =
      some ⟨done, some ⟨name, prior ++ cs⟩⟩

theorem adds_nil : Adds [] [] := by
  intro done name prior
  rw [List.append_nil]
  rfl

/-- A statement that is a clause adds the clause. -/
theorem Adds.cons {s : String} {c : Clause} {statements : List String} {cs : List Clause}
    (h : Adds statements cs) (hc : readClause s = some c) (hheader : ∀ name, c ≠ .header name) :
    Adds (s :: statements) (c :: cs) := by
  intro done name prior
  have hpush : Blocks.readStatement ⟨done, some ⟨name, prior⟩⟩ s =
      some ⟨done, some ⟨name, prior ++ [c]⟩⟩ := by
    rw [Blocks.readStatement_of_clause hc, Blocks.push_eq hheader]
    rfl
  rw [List.foldlM_cons, hpush, List.append_cons prior c cs]
  exact h done name (prior ++ [c])

/-- A blank line after the statements. -/
theorem Adds.blank {statements : List String} {cs : List Clause} (h : Adds statements cs) :
    Adds (statements ++ [""]) cs := by
  intro done name prior
  rw [List.foldlM_append, h done name prior]
  rfl

/-- The statements are those of one block. -/
def Opens (statements : List String) (b : Block) : Prop :=
  ∀ bs : Blocks, statements.foldlM Blocks.readStatement bs = some ⟨bs.all, some b⟩

theorem Adds.opens {name : String} {statements : List String} {cs : List Clause}
    (h : Adds statements cs) : Opens (("policy \"" ++ name ++ "\"") :: statements) ⟨name, cs⟩ := by
  intro bs
  rw [List.foldlM_cons, Blocks.readStatement_header]
  exact h bs.all name []

/-- Block after block. -/
theorem foldlM_opens {blocks : List (List String)} {bs : List Block}
    (h : List.Forall₂ Opens blocks bs) (prior : Blocks) :
    (blocks.flatten.foldlM Blocks.readStatement prior).map Blocks.all = some (prior.all ++ bs) := by
  induction h generalizing prior with
  | nil =>
      rw [List.append_nil]
      rfl
  | cons hopens _ ih =>
      rw [List.flatten_cons, List.foldlM_append, hopens prior, List.append_cons]
      exact ih ⟨prior.all, some _⟩

/-- Lines one after the other are read line by line. -/
theorem readBlocks_logText {ls : List String} (hbreaks : ∀ l ∈ ls, '\n' ∉ l.toList) :
    readBlocks (Text.logText ls) =
      ((ls.map statementOf).foldlM Blocks.readStatement ⟨[], none⟩).map Blocks.all := by
  have hsplit : Text.split '\n' (Text.logText ls) = ls ++ [""] := by
    rw [Text.split, Text.toList_logText]
    induction ls with
    | nil => rfl
    | cons l ls ih =>
        rw [List.forall_mem_cons] at hbreaks
        rw [List.flatMap_cons, List.append_assoc, List.singleton_append,
          Text.splitChars_append hbreaks.1, List.map_cons, ih hbreaks.2, String.ofList_toList]
        rfl
  have hend : statementOf "" = "" := by decide
  rw [readBlocks, foldlM_lines, statementsOf, hsplit, List.map_append, List.map_singleton, hend,
    List.foldlM_append]
  cases (ls.map statementOf).foldlM Blocks.readStatement ⟨[], none⟩ <;> rfl

/-! ## The strings of a parsed policy -/

theorem noMark_of_subset {s t : String} (h : t.toList ⊆ s.toList) (hs : noMark s = true) :
    noMark t = true := by
  rw [noMark, List.all_eq_true] at hs ⊢
  exact fun c hc => hs c (h hc)

theorem noMark_upper {s : String} (h : noMark s = true) :
    noMark (Text.toAsciiUppercase s) = true := by
  rw [noMark, List.all_eq_true] at h ⊢
  intro c hc
  rw [Text.toAsciiUppercase, String.toList_ofList] at hc
  obtain ⟨d, hd, rfl⟩ := List.mem_map.1 hc
  have hplain := h d hd
  rw [Bool.and_eq_true, decide_eq_true_eq, decide_eq_true_eq] at hplain ⊢
  constructor
  · exact fun heq => hplain.1 (toUpper_eq_of_not_letter rfl heq)
  · exact fun heq => hplain.2 (toUpper_eq_of_not_letter rfl heq)

theorem noLineFeed_of_noMark {s : String} (h : noMark s = true) : '\n' ∉ s.toList := by
  intro hmem
  have hmark := List.all_eq_true.1 h '\n' hmem
  revert hmark
  decide

theorem toLower_eq_of_not_letter {c d : Char} (hd : d.isAlpha = false) (h : c.toLower = d) :
    c = d := by
  have hc : c.isAlpha = false := by rw [← Char.isAlpha_toLower_eq_isAlpha, h, hd]
  rw [Char.isAlpha, Bool.or_eq_false_iff] at hc
  rw [← h, Char.toLower_eq_of_not_isUpper (Bool.eq_false_iff.1 hc.1)]

theorem noMark_lower {s : String} (h : noMark s = true) :
    noMark (Text.toAsciiLowercase s) = true := by
  rw [noMark, List.all_eq_true] at h ⊢
  intro c hc
  rw [Text.toAsciiLowercase, String.toList_ofList] at hc
  obtain ⟨d, hd, rfl⟩ := List.mem_map.1 hc
  have hplain := h d hd
  rw [Bool.and_eq_true, decide_eq_true_eq, decide_eq_true_eq] at hplain ⊢
  constructor
  · exact fun heq => hplain.1 (toLower_eq_of_not_letter rfl heq)
  · exact fun heq => hplain.2 (toLower_eq_of_not_letter rfl heq)

/-- A word without a comment mark. -/
def isMarkFree (s : String) : Bool := Text.isWord s && noMark s

theorem isAlpha_of_isWhitespace {c : Char} (h : Text.isWhitespace c = true) :
    c.isAlpha = false := by
  rw [Bool.eq_false_iff]
  intro halpha
  simp only [Char.isAlpha, Char.isUpper, Char.isLower, Bool.or_eq_true, Bool.and_eq_true,
    decide_eq_true_eq, ge_iff_le, UInt32.le_iff_toNat_le] at halpha
  have hletter : 65 ≤ c.toNat ∧ c.toNat ≤ 90 ∨ 97 ≤ c.toNat ∧ c.toNat ≤ 122 := halpha
  simp only [Text.isWhitespace, Bool.or_eq_true, Bool.and_eq_true, decide_eq_true_eq,
    beq_iff_eq] at h
  omega

/-- A word in upper case is a word. -/
theorem isWord_upper {s : String} (h : Text.isWord s = true) :
    Text.isWord (Text.toAsciiUppercase s) = true := by
  rw [Text.isWord, Bool.and_eq_true, Bool.not_eq_true', List.isEmpty_eq_false_iff,
    List.all_eq_true, Text.toAsciiUppercase, String.toList_ofList]
  constructor
  · rw [Ne, List.map_eq_nil_iff]
    exact Text.isWord_ne_nil h
  · intro c hc
    obtain ⟨d, hd, rfl⟩ := List.mem_map.1 hc
    rw [Bool.not_eq_true', Bool.eq_false_iff]
    intro hspace
    -- a letter stays a letter, so the character is not changed
    have hsame := toUpper_eq_of_not_letter (isAlpha_of_isWhitespace hspace) rfl
    rw [← hsame, Text.isWhitespace_of_mem_isWord h hd] at hspace
    cases hspace

/-- The roles of the clause are without marks, and its rule words are words without marks. -/
def Clause.MarkFree : Clause → Prop
  | .roles rs => ∀ r ∈ rs, noMark r = true
  | .rule _ action resource => isMarkFree action = true ∧ isMarkFree resource = true
  | _ => True

/-- The roles that are read are parts of the line. -/
theorem readRoles_subset {rest : String} {rs : List String} (h : readRoles rest = some rs) :
    ∀ r ∈ rs, r.toList ⊆ rest.toList := by
  have htrim := (Text.trim_sublist rest).subset
  unfold readRoles at h
  split at h
  · rename_i r hr
    obtain rfl := Option.some.inj h
    intro x hx
    rw [List.mem_singleton.1 hx]
    calc (Text.trim r).toList
      _ ⊆ r.toList := (Text.trim_sublist r).subset
      _ ⊆ (Text.trim rest).toList := Text.stripPrefix_subset hr
      _ ⊆ rest.toList := htrim
  · obtain ⟨r, hr, rfl⟩ := Option.map_eq_some_iff.1 h
    intro x hx
    obtain ⟨piece, hpiece, rfl⟩ := List.mem_map.1 (List.mem_of_mem_filter hx)
    calc (Text.trim piece).toList
      _ ⊆ piece.toList := (Text.trim_sublist piece).subset
      _ ⊆ _ := (Text.mem_split hpiece).1
      _ ⊆ _ := (Text.trimEndMatchesChar_sublist _ _).subset
      _ ⊆ _ := (Text.trimStartMatchesChar_sublist _ _).subset
      _ ⊆ r.toList := (Text.trim_sublist r).subset
      _ ⊆ (Text.trim rest).toList := Text.stripPrefix_subset hr
      _ ⊆ rest.toList := htrim

/-- A rule read from a line without marks has none. -/
theorem readRule_markFree {e : DslEffect} {rest : String} {c : Clause} (hrest : noMark rest = true)
    (h : readRule e rest = some c) : c.MarkFree := by
  have hword : ∀ w ∈ Text.splitWhitespace rest, isMarkFree (Text.toAsciiUppercase w) = true := by
    intro w hw
    obtain ⟨hword, hsub⟩ := Text.mem_splitWhitespace hw
    rw [isMarkFree, isWord_upper hword, noMark_upper (noMark_of_subset hsub hrest)]
    rfl
  unfold readRule at h
  split at h
  · rename_i action resource tail hwords
    obtain rfl := Option.some.inj h
    rw [hwords] at hword
    exact ⟨hword action List.mem_cons_self, hword resource (List.mem_cons_of_mem _ List.mem_cons_self)⟩
  · cases h

/-- A clause read from a line without marks has none. -/
theorem readClause_markFree {line : String} {c : Clause} (hline : noMark line = true)
    (h : readClause line = some c) : c.MarkFree := by
  cases readClause_cases h with
  | header hrest hname => trivial
  | roles hrest hrs =>
      intro r hr
      apply noMark_of_subset _ hline
      exact List.Subset.trans (readRoles_subset hrs r hr) (Text.stripPrefix_subset hrest)
  | rule hrest hrule =>
      exact readRule_markFree (noMark_of_subset (Text.stripPrefix_subset hrest) hline) hrule
  | subject hrest hl => trivial
  | exempt hrest hrs => trivial

/-- What the parser sees of a line holds no mark. -/
theorem noMark_statementOf {line : String} (h : '\n' ∉ line.toList) :
    noMark (statementOf line) = true := by
  have hstrip : (stripComment line).toList ⊆ line.toList ∧ '#' ∉ (stripComment line).toList := by
    rw [stripComment]
    split
    · rename_i a b hsplit
      exact Text.splitOnce_fst hsplit
    · rename_i hsplit
      rw [Text.splitOnce, Option.map_eq_none_iff] at hsplit
      exact ⟨List.Subset.refl _, Text.not_mem_of_splitOnceChars hsplit⟩
  rw [noMark, List.all_eq_true]
  intro c hc
  have hmem := (Text.trim_sublist _).subset hc
  rw [Bool.and_eq_true, decide_eq_true_eq, decide_eq_true_eq]
  constructor
  · rintro rfl
    exact hstrip.2 hmem
  · rintro rfl
    exact h (hstrip.1 hmem)

/-- The clauses of all blocks are without marks. -/
def Blocks.MarkFree (bs : Blocks) : Prop := ∀ b ∈ bs.all, ∀ c ∈ b.clauses, c.MarkFree

/-- A statement without marks leaves the blocks without marks. -/
theorem Blocks.MarkFree.readStatement {bs bs' : Blocks} {s : String} (h : bs.MarkFree)
    (hs : noMark s = true) (hread : bs.readStatement s = some bs') : bs'.MarkFree := by
  unfold Blocks.readStatement at hread
  split at hread
  · rwa [← Option.some.inj hread]
  · obtain ⟨c, hc, hpush⟩ := Option.bind_eq_some_iff.1 hread
    have hfree := readClause_markFree hs hc
    -- a clause that is no header goes to the open block
    have hadd : (bs.current.map fun b =>
        ({ bs with current := some ⟨b.name, b.clauses ++ [c]⟩ } : Blocks)) = some bs' →
        bs'.MarkFree := by
      intro hmap
      obtain ⟨b, hb, rfl⟩ := Option.map_eq_some_iff.1 hmap
      intro b' hb' c' hc'
      rcases List.mem_append.1 hb' with hdone | hopen
      · exact h b' (List.mem_append_left _ hdone) c' hc'
      · rw [Option.toList_some, List.mem_singleton] at hopen
        subst hopen
        rcases List.mem_append.1 hc' with hold | hnew
        · exact h b (List.mem_append_right _ (Option.mem_toList.2 hb)) c' hold
        · rwa [List.mem_singleton.1 hnew]
    cases c with
    | header name =>
        obtain rfl := Option.some.inj hpush
        intro b hb c hc
        rcases List.mem_append.1 hb with hdone | hopen
        · exact h b hdone c hc
        · rw [Option.toList_some, List.mem_singleton] at hopen
          subst hopen
          cases hc
    | rule e action resource => exact hadd hpush
    | roles rs => exact hadd hpush
    | subject l => exact hadd hpush
    | exempt rs => exact hadd hpush

/-- Statements without marks leave the blocks without marks, by induction. -/
theorem Blocks.MarkFree.foldlM {statements : List String} : ∀ {bs bs' : Blocks}, bs.MarkFree →
    (∀ s ∈ statements, noMark s = true) →
    statements.foldlM Blocks.readStatement bs = some bs' → bs'.MarkFree := by
  induction statements with
  | nil =>
      intro bs bs' h _ hread
      rwa [← Option.some.inj hread]
  | cons s statements ih =>
      intro bs bs' h hmarks hread
      rw [List.forall_mem_cons] at hmarks
      rw [List.foldlM_cons] at hread
      obtain ⟨bs₁, h₁, hread⟩ := Option.bind_eq_some_iff.1 hread
      exact ih (h.readStatement hmarks.1 h₁) hmarks.2 hread

/-- The roles of a parsed policy hold neither a comment mark nor a line feed, and its action and
resource are words without a comment mark. -/
theorem parsed_words {text : String} {ps : List DslPolicy} (h : parseDsl text = .ok ps) :
    ∀ p ∈ ps, (∀ r ∈ p.whenRoles, noMark r = true) ∧ isMarkFree p.action = true ∧
      isMarkFree p.resource = true := by
  obtain ⟨bs, hread, hlists⟩ := parseDsl_reads h
  obtain ⟨bs', hfold, rfl⟩ := Option.map_eq_some_iff.1 hread
  rw [foldlM_lines] at hfold
  have hmarks : ∀ s ∈ statementsOf text, noMark s = true := by
    intro s hs
    obtain ⟨line, hline, rfl⟩ := List.mem_map.1 hs
    exact noMark_statementOf (Text.mem_split hline).2
  have hnil : Blocks.MarkFree ⟨[], none⟩ := fun b hb => absurd hb List.not_mem_nil
  -- every clause of every block comes from a statement without marks
  have hfree := hnil.foldlM hmarks hfold
  intro p hp
  obtain ⟨b, hb, hlist⟩ := exists_block hlists hp
  constructor
  · intro r hr
    rw [hlist.whenRoles, List.mem_flatten] at hr
    obtain ⟨rs, hrs, hr⟩ := hr
    obtain ⟨c, hc, hroles⟩ := List.mem_filterMap.1 hrs
    have hclause := hfree b hb c hc
    cases c with
    | roles rs' =>
        obtain rfl := Option.some.inj hroles
        exact hclause r hr
    | header n => cases hroles
    | rule e action resource => cases hroles
    | subject l => cases hroles
    | exempt rs' => cases hroles
  · have hrule := hlist.rule
    rw [lastRule_eq_getLast?] at hrule
    obtain ⟨c, hc, hlast⟩ := List.mem_filterMap.1 (List.mem_of_getLast? hrule)
    have hclause := hfree b hb c hc
    cases c with
    | rule e action resource =>
        obtain ⟨-, rfl, rfl⟩ := Prod.mk.inj (Option.some.inj hlast)
        exact hclause
    | header n => cases hlast
    | roles rs => cases hlast
    | subject l => cases hlast
    | exempt rs => cases hlast

end Paac
