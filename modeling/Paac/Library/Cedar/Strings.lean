import Paac.Library.Cedar.Syntax

set_option autoImplicit false

/-!
# String literals in a text

A scanner for the string literals of a Cedar text, which knows comments, quotes and escapes and
nothing else of the grammar, and what an escaped literal denotes (`Unescapes`). It applies to every
text, in the grammar of `Syntax.lean` or not, so it is the measure of what an engine may read from a
text that was generated without escaping.

A program that splices names between quotes without escaping them prints each name as a literal only
when no name has a quote or a backslash. The first name that has one is lost: with a quote its
literal ends early, and with a backslash it denotes a shorter string or runs on; no later literal
can make up for it, because literals and names are compared in order.

## Main results

- `scanAll_segments`: names with neither are the literals, one each and in order.
- `not_unescapes_of_not_plain`: a name with a quote or a backslash is not the string that its own
  literal denotes.
- `isPlain_of_literals`: if the literals of a text with spliced names denote the names, in order, no
  name has a quote or a backslash.
- `Unescapes.scanAll`: a literal that denotes a string is scanned as a whole.
- `hasBareReturn_eq_false`: a text is free of bare carriage returns, which the engine refuses in
  literals, when all its literals are.
-/

namespace Paac.Cedar

/-! ## The scanner -/

/-- Where the scanner stands. -/
inductive ScanMode where
  | code
  /-- After the first `/` of a comment. -/
  | slash
  | comment
  | str (raw : List Char)
  /-- After a backslash inside a literal. -/
  | esc (raw : List Char)
  deriving DecidableEq, Repr

/-- Scanner state: the mode and the literals so far, as they are written between their quotes. -/
structure Scanner where
  mode : ScanMode
  raws : List (List Char)
  deriving DecidableEq, Repr

/-- A character outside literals and comments. -/
def scanCode (c : Char) (raws : List (List Char)) : Scanner :=
  if c = '"' then ⟨.str [], raws⟩
  else if c = '/' then ⟨.slash, raws⟩
  else ⟨.code, raws⟩

def scanStep (s : Scanner) (c : Char) : Scanner :=
  match s.mode with
  | .code => scanCode c s.raws
  | .slash => if c = '/' then ⟨.comment, s.raws⟩ else scanCode c s.raws
  | .comment => if c = '\n' ∨ c = '\r' then ⟨.code, s.raws⟩ else s
  | .str raw =>
      if c = '"' then ⟨.code, s.raws ++ [raw]⟩
      else if c = '\\' then ⟨.esc (raw ++ [c]), s.raws⟩
      else ⟨.str (raw ++ [c]), s.raws⟩
  -- the character behind a backslash is part of the literal, whichever it is
  | .esc raw => ⟨.str (raw ++ [c]), s.raws⟩

def scanAll (s : Scanner) (cs : List Char) : Scanner := cs.foldl scanStep s

/-- The literals of a text, unless one is open at its end. -/
def Scanner.literals (s : Scanner) : Option (List (List Char)) :=
  match s.mode with
  | .str _ => none
  | .esc _ => none
  | _ => some s.raws

/-- The string literals of a text as they are written. -/
def literals (text : String) : Option (List (List Char)) :=
  (scanAll ⟨.code, []⟩ text.toList).literals

theorem scanAll_append (s : Scanner) (cs ds : List Char) :
    scanAll s (cs ++ ds) = scanAll (scanAll s cs) ds := List.foldl_append

theorem scanAll_cons (s : Scanner) (c : Char) (cs : List Char) :
    scanAll s (c :: cs) = scanAll (scanStep s c) cs := rfl

/-- Text without quotes and backslashes inside a literal. -/
theorem scanAll_inside {cs : List Char}
    (h : cs.all (fun c => c ≠ '"' && c ≠ '\\') = true) (raws : List (List Char)) :
    ∀ raw : List Char, scanAll ⟨.str raw, raws⟩ cs = ⟨.str (raw ++ cs), raws⟩ := by
  induction cs with
  | nil => exact fun raw => by rw [List.append_nil]; rfl
  | cons c cs ih =>
      intro raw
      rw [List.all_cons, Bool.and_eq_true] at h
      obtain ⟨hc, hcs⟩ := h
      simp only [ne_eq, Bool.and_eq_true, decide_eq_true_eq] at hc
      have hstep : scanStep ⟨.str raw, raws⟩ c = ⟨.str (raw ++ [c]), raws⟩ := by
        simp only [scanStep, if_neg hc.1, if_neg hc.2]
      rw [scanAll_cons, hstep, ih hcs, List.append_assoc, List.singleton_append]

/-- Literals once read stay. -/
theorem raws_scanStep (s : Scanner) (c : Char) : s.raws <+: (scanStep s c).raws := by
  have hcode : s.raws <+: (scanCode c s.raws).raws := by
    unfold scanCode
    split
    · exact List.prefix_refl _
    · split
      · exact List.prefix_refl _
      · exact List.prefix_refl _
  unfold scanStep
  split
  · exact hcode
  · split
    · exact List.prefix_refl _
    · exact hcode
  · split
    · exact List.prefix_refl _
    · exact List.prefix_refl _
  · split
    · exact List.prefix_append _ _
    · split
      · exact List.prefix_refl _
      · exact List.prefix_refl _
  · exact List.prefix_refl _

theorem raws_scanAll (cs : List Char) : ∀ s : Scanner, s.raws <+: (scanAll s cs).raws := by
  induction cs with
  | nil => exact fun s => List.prefix_refl _
  | cons c cs ih => exact fun s => (raws_scanStep s c).trans (ih (scanStep s c))

/-- A literal of the text holds a bare carriage return. The rules for literals refuse it: only the
escape may stand for it. -/
def hasBareReturn (text : String) : Bool :=
  match literals text with
  | some raws => raws.any (·.contains '\r')
  | none => false

theorem hasBareReturn_eq_false {text : String} {raws : List (List Char)}
    (h : literals text = some raws) : hasBareReturn text = false ↔ ∀ raw ∈ raws, '\r' ∉ raw := by
  simp [hasBareReturn, h]

/-! ## Escapes -/

def isHexDigit (c : Char) : Bool :=
  c.isDigit || ('a' ≤ c && c ≤ 'f') || ('A' ≤ c && c ≤ 'F')

/-- What may stand behind the backslash of a character code: `x` and two hexadecimal digits, or `u`
and digits in braces, with underscores between them. -/
def isCodeEscape : List Char → Bool
  | ['x', a, b] => isHexDigit a && isHexDigit b
  | 'u' :: '{' :: cs =>
      cs.getLast? = some '}' && cs.dropLast.all fun c => isHexDigit c || c = '_'
  | _ => false

/-- The literal, as it is written, denotes the string. The escape `\*` occurs in patterns only. -/
inductive Unescapes : List Char → List Char → Prop where
  | nil : Unescapes [] []
  | char {c : Char} {cs ds : List Char} (hquote : c ≠ '"') (hback : c ≠ '\\')
      (h : Unescapes cs ds) : Unescapes (c :: cs) (c :: ds)
  | simple {c d : Char} {cs ds : List Char} (hc : simpleEscape c = some d)
      (h : Unescapes cs ds) : Unescapes ('\\' :: c :: cs) (d :: ds)
  | star {cs ds : List Char} (h : Unescapes cs ds) : Unescapes ('\\' :: '*' :: cs) ('*' :: ds)
  | code {e : List Char} {d : Char} {cs ds : List Char} (he : isCodeEscape e = true)
      (h : Unescapes cs ds) : Unescapes ('\\' :: (e ++ cs)) (d :: ds)

namespace Unescapes

variable {raw s : List Char}

theorem isCodeEscape_ne_nil {e : List Char} (h : isCodeEscape e = true) : e ≠ [] := by
  rintro rfl
  cases h

theorem not_mem_of_isHexDigit {c : Char} (h : isHexDigit c = true) : c ≠ '"' ∧ c ≠ '\\' := by
  constructor
  · rintro rfl
    revert h
    decide
  · rintro rfl
    revert h
    decide

/-- A character code has no quote and no backslash. -/
theorem plain_of_isCodeEscape {e : List Char} (h : isCodeEscape e = true) :
    ∀ c ∈ e, c ≠ '"' ∧ c ≠ '\\' := by
  unfold isCodeEscape at h
  -- two digits, or digits between braces
  split at h
  · rename_i a b
    rw [Bool.and_eq_true] at h
    intro c hc
    simp only [List.mem_cons, List.not_mem_nil, or_false] at hc
    rcases hc with rfl | rfl | rfl
    · decide
    · exact not_mem_of_isHexDigit h.1
    · exact not_mem_of_isHexDigit h.2
  · rename_i cs
    rw [Bool.and_eq_true, decide_eq_true_eq, List.all_eq_true] at h
    have hcs := List.dropLast_append_getLast? '\x7d' h.1
    intro c hc
    rw [← hcs] at hc
    simp only [List.mem_cons, List.mem_append, List.not_mem_nil, or_false] at hc
    rcases hc with rfl | rfl | hc | rfl
    · decide
    · decide
    · have hdigit := h.2 c hc
      rw [Bool.or_eq_true, decide_eq_true_eq] at hdigit
      rcases hdigit with hdigit | rfl
      · exact not_mem_of_isHexDigit hdigit
      · decide
    · decide
  · cases h

/-- A literal is no shorter than what it denotes. -/
theorem length_le (h : Unescapes raw s) : s.length ≤ raw.length := by
  induction h with
  | nil => exact Nat.le_refl _
  | char _ _ _ ih => exact Nat.succ_le_succ ih
  | simple _ _ ih => exact Nat.succ_le_succ (Nat.le_succ_of_le ih)
  | star _ ih => exact Nat.succ_le_succ (Nat.le_succ_of_le ih)
  | code _ _ ih =>
      rw [List.length_cons, List.length_cons, List.length_append]
      exact Nat.succ_le_succ (Nat.le_add_left_of_le ih)

/-- A literal with an escape is longer than what it denotes. -/
theorem length_lt (h : Unescapes raw s) (hback : '\\' ∈ raw) : s.length < raw.length := by
  induction h with
  | nil => cases hback
  | char _ hne _ ih =>
      rcases List.mem_cons.1 hback with heq | hmem
      · exact absurd heq.symm hne
      · exact Nat.succ_lt_succ (ih hmem)
  | simple _ h _ => exact Nat.succ_lt_succ (Nat.lt_succ_of_le h.length_le)
  | star h _ => exact Nat.succ_lt_succ (Nat.lt_succ_of_le h.length_le)
  | @code e d cs ds he h _ =>
      have hpos := List.length_pos_of_ne_nil (isCodeEscape_ne_nil he)
      have hle := h.length_le
      rw [List.length_cons, List.length_cons, List.length_append]
      omega

/-- A literal without an escape denotes itself. -/
theorem eq_of_not_mem (h : Unescapes raw s) (hback : '\\' ∉ raw) : s = raw := by
  induction h with
  | nil => rfl
  | char _ _ _ ih => rw [ih fun hmem => hback (List.mem_cons_of_mem _ hmem)]
  | simple _ _ _ => exact absurd List.mem_cons_self hback
  | star _ _ => exact absurd List.mem_cons_self hback
  | code _ _ _ => exact absurd List.mem_cons_self hback

/-- A literal without an escape has no quote. -/
theorem quote_not_mem (h : Unescapes raw s) (hback : '\\' ∉ raw) : '"' ∉ raw := by
  induction h with
  | nil => exact List.not_mem_nil
  | char hquote _ _ ih =>
      rw [List.mem_cons, not_or] at hback ⊢
      exact ⟨hquote.symm, ih hback.2⟩
  | simple _ _ _ => exact absurd List.mem_cons_self hback
  | star _ _ => exact absurd List.mem_cons_self hback
  | code _ _ _ => exact absurd List.mem_cons_self hback

/-- Literals are read piece by piece. -/
theorem append {raw' s' : List Char} (h : Unescapes raw s) (h' : Unescapes raw' s') :
    Unescapes (raw ++ raw') (s ++ s') := by
  induction h with
  | nil => exact h'
  | char hquote hback _ ih => exact .char hquote hback ih
  | simple hc _ ih => exact .simple hc ih
  | star _ ih => exact .star ih
  | code he _ ih =>
      rw [List.cons_append, List.append_assoc]
      exact .code he ih

/-- A literal has no bare quote. -/
theorem not_quote {r : List Char} : ¬Unescapes ('"' :: r) s := by
  intro h
  cases h with
  | char hquote _ _ => exact hquote rfl

/-- A literal is scanned as a whole. -/
theorem scanAll (h : Unescapes raw s) (raws : List (List Char)) :
    ∀ acc : List Char, Cedar.scanAll ⟨.str acc, raws⟩ raw = ⟨.str (acc ++ raw), raws⟩ := by
  -- the character behind a backslash is taken, whichever it is
  have hescape : ∀ (acc : List Char) (c : Char) (cs : List Char),
      Cedar.scanAll ⟨.str acc, raws⟩ ('\\' :: c :: cs) =
        Cedar.scanAll ⟨.str (acc ++ ['\\', c]), raws⟩ cs := by
    intro acc c cs
    rw [scanAll_cons, scanAll_cons]
    simp [scanStep]
  induction h with
  | nil => exact fun acc => by rw [List.append_nil]; rfl
  | @char c cs ds hquote hback h ih =>
      intro acc
      have hstep : scanStep ⟨.str acc, raws⟩ c = ⟨.str (acc ++ [c]), raws⟩ := by
        simp only [scanStep, if_neg hquote, if_neg hback]
      rw [scanAll_cons, hstep, ih, List.append_assoc, List.singleton_append]
  | simple _ _ ih => exact fun acc => by rw [hescape, ih]; simp
  | star _ ih => exact fun acc => by rw [hescape, ih]; simp
  | @code e d cs ds he h ih =>
      intro acc
      cases e with
      | nil => exact absurd rfl (isCodeEscape_ne_nil he)
      | cons c e =>
          have hplain : e.all (fun c => c ≠ '"' && c ≠ '\\') = true := by
            rw [List.all_eq_true]
            intro c hc
            simpa using plain_of_isCodeEscape he c (List.mem_cons_of_mem _ hc)
          rw [List.cons_append, hescape, scanAll_append, scanAll_inside hplain, ih]
          simp

/-- The string ends in a character that is no backslash. -/
def EndsPlain (s : List Char) : Prop := ∃ c, c ≠ '\\' ∧ s.getLast? = some c

theorem EndsPlain.cons {s : List Char} (h : EndsPlain s) (d : Char) : EndsPlain (d :: s) := by
  obtain ⟨c, hc, hlast⟩ := h
  exact ⟨c, hc, by rw [List.getLast?_cons, hlast]; rfl⟩

/-- Behind an escaped quote and without a further escape, the string does not end in a backslash. -/
theorem endsPlain_of_escaped_quote {r : List Char} (hr : '\\' ∉ r) (h : Unescapes raw s) :
    ∀ a : List Char, raw = a ++ '\\' :: '"' :: r → EndsPlain s := by
  induction h with
  | nil =>
      intro a ha
      exact absurd ha.symm (by simp)
  | @char c cs ds hquote hback h ih =>
      intro a ha
      cases a with
      | nil => exact absurd (List.cons.inj ha).1 hback
      | cons x a =>
          exact (ih a (List.cons.inj ha).2).cons c
  | @simple c d cs ds hc h ih =>
      intro a ha
      match a, ha with
      | [], ha =>
          -- this escape is the quote in question, and no backslash comes behind it
          obtain ⟨rfl, rfl⟩ : c = '"' ∧ cs = r := by simpa using ha
          obtain rfl : '"' = d := by simpa [simpleEscape] using hc
          obtain rfl := h.eq_of_not_mem hr
          cases hlast : ds.getLast? with
          | none => exact ⟨'"', by decide, by rw [List.getLast?_cons, hlast]; rfl⟩
          | some e =>
              refine ⟨e, fun heq => hr ?_, by rw [List.getLast?_cons, hlast]; rfl⟩
              rw [← heq]
              exact List.mem_of_getLast? hlast
      | [x], ha =>
          obtain ⟨-, -, rfl⟩ : '\\' = x ∧ c = '\\' ∧ cs = '"' :: r := by simpa using ha
          exact absurd h not_quote
      | x :: y :: a, ha =>
          obtain ⟨-, -, hcs⟩ : '\\' = x ∧ c = y ∧ cs = a ++ '\\' :: '"' :: r := by simpa using ha
          exact (ih a hcs).cons d
  | @star cs ds h ih =>
      intro a ha
      match a, ha with
      | [], ha => exact absurd ha (by simp)
      | [x], ha => exact absurd ha (by simp)
      | x :: y :: a, ha =>
          obtain ⟨-, -, hcs⟩ : '\\' = x ∧ '*' = y ∧ cs = a ++ '\\' :: '"' :: r := by simpa using ha
          exact (ih a hcs).cons '*'
  | @code e d cs ds he h ih =>
      have hplain := plain_of_isCodeEscape he
      intro a ha
      cases a with
      | nil =>
          cases e with
          | nil => exact absurd rfl (isCodeEscape_ne_nil he)
          | cons x e =>
              have hx : x = '"' := (List.cons.inj (List.cons.inj ha).2).1
              exact absurd hx (hplain x List.mem_cons_self).1
      | cons x a =>
          have hsplit : e ++ cs = a ++ '\\' :: '"' :: r := (List.cons.inj ha).2
          -- no backslash is inside a code escape, so the quote comes behind it
          have hrest : ∃ b, cs = b ++ '\\' :: '"' :: r := by
            rcases List.append_eq_append_iff.1 hsplit with ⟨b, -, hb⟩ | ⟨b, heb, hb⟩
            · exact ⟨b, hb⟩
            · cases b with
              | nil => exact ⟨[], hb.symm⟩
              | cons y b =>
                  have hy : '\\' = y := (List.cons.inj hb).1
                  have hmem : y ∈ e := by
                    rw [heb]
                    exact List.mem_append_right a List.mem_cons_self
                  exact absurd hy.symm (hplain y hmem).2
          obtain ⟨b, hb⟩ := hrest
          exact (ih b hb).cons d

end Unescapes

/-! ## Names spliced between quotes -/

/-- A piece of a generated text. -/
inductive Segment where
  /-- Text of the program. -/
  | code (text : String)
  /-- A name between quotes. -/
  | name (s : String)
  deriving DecidableEq, Repr

namespace Segment

/-- The characters printed. -/
def chars : Segment → List Char
  | .code text => text.toList
  | .name s => '"' :: (s.toList ++ ['"'])

/-- Program text without quote, backslash and slash. -/
def quiet : Segment → Bool
  | .code text => text.toList.all fun c => c ≠ '"' && c ≠ '\\' && c ≠ '/'
  | .name _ => true

/-- The names of the pieces, in order. -/
def names (segs : List Segment) : List String :=
  segs.filterMap fun
    | .code _ => none
    | .name s => some s

end Segment

/-- Program text outside literals. -/
theorem scanAll_code {cs : List Char}
    (h : cs.all (fun c => c ≠ '"' && c ≠ '\\' && c ≠ '/') = true) (raws : List (List Char)) :
    scanAll ⟨.code, raws⟩ cs = ⟨.code, raws⟩ := by
  induction cs with
  | nil => rfl
  | cons c cs ih =>
      rw [List.all_cons, Bool.and_eq_true] at h
      obtain ⟨hc, hcs⟩ := h
      simp only [ne_eq, Bool.and_eq_true, decide_eq_true_eq] at hc
      have hstep : scanStep ⟨.code, raws⟩ c = ⟨.code, raws⟩ := by
        simp only [scanStep, scanCode, if_neg hc.1.1, if_neg hc.2]
      rw [scanAll_cons, hstep, ih hcs]

/-- A plain name is one literal. -/
theorem scanAll_plain {s : String} (h : isPlain s = true) (raws : List (List Char)) :
    scanAll ⟨.code, raws⟩ (Segment.name s).chars = ⟨.code, raws ++ [s.toList]⟩ := by
  have hopen : scanStep ⟨.code, raws⟩ '"' = ⟨.str [], raws⟩ := rfl
  rw [Segment.chars, scanAll_cons, hopen, scanAll_append, scanAll_inside h, List.nil_append]
  rfl

/-- **Plain names are the literals** of a text that splices them. -/
theorem scanAll_segments (segs : List Segment) (hquiet : segs.all Segment.quiet = true)
    (hplain : (Segment.names segs).all isPlain = true) : ∀ raws : List (List Char),
    scanAll ⟨.code, raws⟩ (segs.flatMap Segment.chars) =
      ⟨.code, raws ++ (Segment.names segs).map String.toList⟩ := by
  induction segs with
  | nil => exact fun raws => by simp [scanAll, Segment.names]
  | cons seg segs ih =>
      intro raws
      rw [List.all_cons, Bool.and_eq_true] at hquiet
      obtain ⟨hseg, hsegs⟩ := hquiet
      rw [List.flatMap_cons, scanAll_append]
      cases seg with
      | code text =>
          rw [Segment.chars, scanAll_code hseg]
          exact ih hsegs hplain raws
      | name s =>
          simp only [Segment.names, List.filterMap_cons, List.all_cons, Bool.and_eq_true] at hplain
          rw [scanAll_plain hplain.1, ih hsegs hplain.2]
          simp [Segment.names]

/-- How a name can leave the scanner that read it inside a literal: the literal closed in the name,
it is still open, or the quote behind the name is escaped. -/
theorem scanAll_name (raws : List (List Char)) : ∀ (cs raw : List Char),
    (∃ pre suf, cs = pre ++ '"' :: suf ∧
        scanAll ⟨.str raw, raws⟩ pre = ⟨.str (raw ++ pre), raws⟩) ∨
      scanAll ⟨.str raw, raws⟩ cs = ⟨.str (raw ++ cs), raws⟩ ∨
      ∃ pre, cs = pre ++ ['\\'] ∧ scanAll ⟨.str raw, raws⟩ cs = ⟨.esc (raw ++ cs), raws⟩
  | [], raw => by
      refine .inr (.inl ?_)
      rw [List.append_nil]
      rfl
  | c :: cs, raw => by
      by_cases hquote : c = '"'
      · subst hquote
        refine .inl ⟨[], cs, rfl, ?_⟩
        rw [List.append_nil]
        rfl
      by_cases hback : c = '\\'
      · subst hback
        -- a backslash at the end takes the closing quote; otherwise it takes the next character
        cases cs with
        | nil => exact .inr (.inr ⟨[], rfl, rfl⟩)
        | cons d ds =>
            have hstep : ∀ l, scanAll ⟨.str raw, raws⟩ ('\\' :: d :: l) =
                scanAll ⟨.str (raw ++ ['\\', d]), raws⟩ l := by
              intro l
              rw [scanAll_cons, scanAll_cons]
              simp [scanStep]
            have happ : ∀ l, raw ++ ['\\', d] ++ l = raw ++ '\\' :: d :: l := by simp
            simp only [hstep]
            rcases scanAll_name raws ds (raw ++ ['\\', d]) with
              ⟨pre, suf, hds, h⟩ | h | ⟨pre, hds, h⟩
            · rw [happ] at h
              exact .inl ⟨'\\' :: d :: pre, suf, by rw [hds]; rfl, (hstep pre).trans h⟩
            · rw [happ] at h
              exact .inr (.inl h)
            · rw [happ] at h
              exact .inr (.inr ⟨'\\' :: d :: pre, by rw [hds]; rfl, h⟩)
      · have hstep : ∀ l, scanAll ⟨.str raw, raws⟩ (c :: l) =
            scanAll ⟨.str (raw ++ [c]), raws⟩ l := by
          intro l
          simp only [scanAll_cons, scanStep, if_neg hquote, if_neg hback]
        have happ : ∀ l, raw ++ [c] ++ l = raw ++ c :: l := by simp
        rw [hstep]
        rcases scanAll_name raws cs (raw ++ [c]) with ⟨pre, suf, hcs, h⟩ | h | ⟨pre, hcs, h⟩
        · rw [happ] at h
          exact .inl ⟨c :: pre, suf, by rw [hcs]; rfl, (hstep pre).trans h⟩
        · rw [happ] at h
          exact .inr (.inl h)
        · rw [happ] at h
          exact .inr (.inr ⟨c :: pre, by rw [hcs]; rfl, h⟩)

/-- The literals of a text are those the scanner has read. -/
theorem Scanner.raws_of_literals {s : Scanner} {raws : List (List Char)}
    (h : s.literals = some raws) : s.raws = raws := by
  unfold Scanner.literals at h
  split at h
  · cases h
  · cases h
  · exact Option.some.inj h

/-- A literal that is open before further pieces closes at the next name, behind program text. -/
theorem closes_of_open (segs : List Segment) (hquiet : segs.all Segment.quiet = true)
    {raws all : List (List Char)} :
    ∀ raw : List Char,
      (scanAll ⟨.str raw, raws⟩ (segs.flatMap Segment.chars)).literals = some all →
      ∃ r, '\\' ∉ r ∧ raws ++ [raw ++ r] <+: all := by
  induction segs with
  | nil =>
      intro raw h
      cases h
  | cons seg segs ih =>
      intro raw h
      rw [List.all_cons, Bool.and_eq_true] at hquiet
      obtain ⟨hseg, hsegs⟩ := hquiet
      rw [List.flatMap_cons, scanAll_append] at h
      -- code without marks lengthens the literal, and the next name closes it at its quote
      cases seg with
      | code text =>
          have hplain : text.toList.all (fun c => c ≠ '"' && c ≠ '\\') = true := by
            rw [Segment.quiet, List.all_eq_true] at hseg
            rw [List.all_eq_true]
            exact fun c hc => (Bool.and_eq_true_iff.1 (hseg c hc)).1
          have hback : '\\' ∉ text.toList := fun hmem => by
            have hc := List.all_eq_true.1 hplain _ hmem
            simp at hc
          rw [Segment.chars, scanAll_inside hplain] at h
          obtain ⟨r, hr, hpre⟩ := ih hsegs (raw ++ text.toList) h
          rw [List.append_assoc] at hpre
          exact ⟨text.toList ++ r, by simp [hback, hr], hpre⟩
      | name s =>
          have hclose : scanStep ⟨.str raw, raws⟩ '"' = ⟨.code, raws ++ [raw]⟩ := rfl
          rw [Segment.chars, scanAll_cons, hclose, ← scanAll_append] at h
          refine ⟨[], List.not_mem_nil, ?_⟩
          rw [List.append_nil, ← Scanner.raws_of_literals h]
          exact raws_scanAll _ ⟨.code, raws ++ [raw]⟩

/-- **A name with a quote or a backslash is not the string its literal denotes.** -/
theorem not_unescapes_of_not_plain {s : String} (hs : isPlain s = false) (segs : List Segment)
    (hquiet : segs.all Segment.quiet = true) {raws all : List (List Char)}
    (h : (scanAll ⟨.code, raws⟩
      ((Segment.name s :: segs).flatMap Segment.chars)).literals = some all) :
    ∃ raw, raws ++ [raw] <+: all ∧ ¬Unescapes raw s.toList := by
  have hopen : scanStep ⟨.code, raws⟩ '"' = ⟨.str [], raws⟩ := rfl
  rw [List.flatMap_cons, Segment.chars, List.cons_append, scanAll_cons, hopen, List.append_assoc,
    scanAll_append] at h
  rcases scanAll_name raws s.toList [] with ⟨pre, suf, hpre, hscan⟩ | hscan | ⟨pre, hpre, hscan⟩
  · -- The literal is shorter than the name.
    refine ⟨pre, ?_, fun hden => ?_⟩
    · have hpiece : scanAll ⟨.str [], raws⟩ s.toList = scanAll ⟨.code, raws ++ [pre]⟩ suf := by
        rw [hpre, scanAll_append, hscan]
        rfl
      rw [hpiece, ← scanAll_append] at h
      rw [← Scanner.raws_of_literals h]
      exact raws_scanAll _ ⟨.code, raws ++ [pre]⟩
    · have hle := hden.length_le
      rw [hpre, List.length_append, List.length_cons] at hle
      omega
  · -- The literal is the name, which has an escape unless it has a quote.
    rw [hscan, List.nil_append, List.singleton_append, scanAll_cons] at h
    have hclose : scanStep ⟨.str s.toList, raws⟩ '"' = ⟨.code, raws ++ [s.toList]⟩ := rfl
    rw [hclose] at h
    refine ⟨s.toList, ?_, fun hden => ?_⟩
    · rw [← Scanner.raws_of_literals h]
      exact raws_scanAll _ ⟨.code, raws ++ [s.toList]⟩
    · by_cases hback : '\\' ∈ s.toList
      · exact absurd (hden.length_lt hback) (Nat.lt_irrefl _)
      · have hquote := hden.quote_not_mem hback
        have hplain : isPlain s = true := by
          rw [isPlain, List.all_eq_true]
          intro c hc
          have h₁ : c ≠ '"' := fun heq => hquote (heq ▸ hc)
          have h₂ : c ≠ '\\' := fun heq => hback (heq ▸ hc)
          simp [h₁, h₂]
        rw [hplain] at hs
        cases hs
  · -- The name escapes the quote behind it.
    rw [hscan, List.nil_append, List.singleton_append, scanAll_cons] at h
    have hstep : scanStep ⟨.esc s.toList, raws⟩ '"' = ⟨.str (s.toList ++ ['"']), raws⟩ := rfl
    rw [hstep] at h
    obtain ⟨r, hr, hall⟩ := closes_of_open segs hquiet (s.toList ++ ['"']) h
    refine ⟨s.toList ++ ['"'] ++ r, hall, fun hden => ?_⟩
    have hraw : s.toList ++ ['"'] ++ r = pre ++ '\\' :: '"' :: r := by
      rw [hpre]
      simp
    obtain ⟨c, hc, hlast⟩ := hden.endsPlain_of_escaped_quote hr pre hraw
    rw [hpre, List.getLast?_concat] at hlast
    exact hc (Option.some.inj hlast).symm

/-- **Names are read back only when they are plain.** If the literals of a text with spliced names
denote the names in order, no name has a quote or a backslash. -/
theorem isPlain_of_literals (segs : List Segment) (hquiet : segs.all Segment.quiet = true) :
    ∀ raws own : List (List Char),
      (scanAll ⟨.code, raws⟩ (segs.flatMap Segment.chars)).literals = some (raws ++ own) →
      List.Forall₂ (fun raw s => Unescapes raw s.toList) own (Segment.names segs) →
      (Segment.names segs).all isPlain = true := by
  induction segs with
  | nil => exact fun _ _ _ _ => rfl
  | cons seg segs ih =>
      intro raws own h hden
      rw [List.all_cons, Bool.and_eq_true] at hquiet
      obtain ⟨hseg, hsegs⟩ := hquiet
      -- code has no literals, and a plain name is the next one
      cases seg with
      | code text =>
          rw [List.flatMap_cons, scanAll_append, Segment.chars, scanAll_code hseg] at h
          exact ih hsegs raws own h hden
      | name s =>
          cases hden with
          | @cons raw _ own _ hraw hden =>
          cases hs : isPlain s with
          | true =>
              rw [List.flatMap_cons, scanAll_append, scanAll_plain hs] at h
              have hpre : raws ++ [s.toList] <+: raws ++ raw :: own := by
                rw [← Scanner.raws_of_literals h]
                exact raws_scanAll _ ⟨.code, raws ++ [s.toList]⟩
              rw [List.prefix_append_right_inj, List.cons_prefix_cons] at hpre
              have hown : raws ++ raw :: own = raws ++ [s.toList] ++ own := by
                rw [hpre.1, List.append_assoc, List.singleton_append]
              rw [hown] at h
              have hrest := ih hsegs (raws ++ [s.toList]) own h hden
              simp only [Segment.names, List.filterMap_cons, List.all_cons, hs, Bool.true_and]
              exact hrest
          | false =>
              obtain ⟨raw', hpre, hnot⟩ := not_unescapes_of_not_plain hs segs hsegs h
              rw [List.prefix_append_right_inj, List.cons_prefix_cons] at hpre
              rw [hpre.1] at hnot
              exact absurd hraw hnot

end Paac.Cedar
