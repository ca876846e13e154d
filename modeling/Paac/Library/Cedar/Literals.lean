import Paac.Library.Cedar.Sources

set_option autoImplicit false

/-!
# Strings spliced with their quotes escaped

A program that escapes the quotes of a string, and nothing else, prints a literal that denotes the
string as long as the string has no backslash and no carriage return. With a backslash, the literal
ends early, runs on into the text behind it or denotes a string with fewer characters; a bare
carriage return is refused.

That a string with a backslash cannot be read back has to be proved of a whole list of literals: one
that runs on takes in the next string, so a single literal says little. Strings are ordered by how
many backslashes they have and then by their length (`Below`). Every literal of the text denotes a
string below the item it is read from, unless that item has no backslash (`FromItem`); so of the
items with a backslash the greatest one is denoted by none.

`Engine.ReadsLiterals` is what a caller relies on in the engine. What it must accept are literals,
and lists of literals, with escapes of one character and without a bare carriage return; of every
other text it says only what may be read from it, if it is accepted.

## Main results

- `Unescapes.of_escapeQuotes`: what a piece of an escaped string denotes, by induction on the
  escapes.
- `items_literals`: the literals of a list are read from its items, or stand between two of them.
- `backslash_not_read`: in a list of such literals the string with most backslashes, and the longest
  one of these, is read from none of them.
- `Engine.ReadsLiterals.str_iff`, `Engine.ReadsLiterals.set_iff`: a string, and a set of strings, is
  read back exactly when no string has a backslash or a carriage return.
- `Engine.reference_readsLiterals`: the reference engine reads literals so.
-/

namespace Paac.Cedar

/-! ## Escaped quotes -/

/-- The characters with their quotes escaped. -/
def escapeQuotes (cs : List Char) : List Char :=
  cs.flatMap fun c => if c = '"' then ['\\', '"'] else [c]

@[simp] theorem escapeQuotes_nil : escapeQuotes [] = [] := rfl

theorem escapeQuotes_quote (cs : List Char) :
    escapeQuotes ('"' :: cs) = '\\' :: '"' :: escapeQuotes cs := rfl

theorem escapeQuotes_cons {c : Char} (h : c ≠ '"') (cs : List Char) :
    escapeQuotes (c :: cs) = c :: escapeQuotes cs := by
  rw [escapeQuotes, List.flatMap_cons, if_neg h]
  rfl

theorem escapeQuotes_append (cs ds : List Char) :
    escapeQuotes (cs ++ ds) = escapeQuotes cs ++ escapeQuotes ds := List.flatMap_append

/-- A literal whose escapes are of one character denotes the string. A carriage return stands for
itself nowhere. -/
inductive ShortEscapes : List Char → List Char → Prop where
  | nil : ShortEscapes [] []
  | char {c : Char} {cs ds : List Char} (hquote : c ≠ '"') (hback : c ≠ '\\') (hreturn : c ≠ '\r')
      (h : ShortEscapes cs ds) : ShortEscapes (c :: cs) (c :: ds)
  | simple {c d : Char} {cs ds : List Char} (hc : simpleEscape c = some d)
      (h : ShortEscapes cs ds) : ShortEscapes ('\\' :: c :: cs) (d :: ds)

namespace ShortEscapes

variable {raw s : List Char}

/-- Short escapes are escapes. -/
theorem unescapes (h : ShortEscapes raw s) : Unescapes raw s := by
  induction h with
  | nil => exact .nil
  | char hquote hback _ _ ih => exact .char hquote hback ih
  | simple hc _ ih => exact .simple hc ih

/-- The literal has no bare carriage return. -/
theorem return_not_mem (h : ShortEscapes raw s) : '\r' ∉ raw := by
  induction h with
  | nil => exact List.not_mem_nil
  | char _ _ hreturn _ ih => simp [hreturn.symm, ih]
  | @simple c d cs ds hc _ ih =>
      have hne : '\r' ≠ c := by
        rintro rfl
        cases hc
      simp [hne, ih]

end ShortEscapes

/-- Without backslashes and carriage returns the literal denotes the string. -/
theorem shortEscapes_escapeQuotes {cs : List Char} (h : '\\' ∉ cs) (hreturn : '\r' ∉ cs) :
    ShortEscapes (escapeQuotes cs) cs := by
  induction cs with
  | nil => exact .nil
  | cons c cs ih =>
      rw [List.mem_cons, not_or] at h hreturn
      by_cases hc : c = '"'
      · subst hc
        rw [escapeQuotes_quote]
        exact .simple rfl (ih h.2 hreturn.2)
      · rw [escapeQuotes_cons hc]
        exact .char hc (Ne.symm h.1) (Ne.symm hreturn.1) (ih h.2 hreturn.2)

/-- Up to carriage returns the literal denotes the string when it has no backslash. -/
theorem unescapes_escapeQuotes {cs : List Char} (h : '\\' ∉ cs) :
    Unescapes (escapeQuotes cs) cs := by
  induction cs with
  | nil => exact .nil
  | cons c cs ih =>
      rw [List.mem_cons, not_or] at h
      by_cases hc : c = '"'
      · subst hc
        rw [escapeQuotes_quote]
        exact .simple rfl (ih h.2)
      · rw [escapeQuotes_cons hc]
        exact .char hc (Ne.symm h.1) (ih h.2)

/-- Escaping leaves the other characters where they are. -/
theorem mem_escapeQuotes {c : Char} (hc : c ≠ '"') {cs : List Char} (h : c ∈ cs) :
    c ∈ escapeQuotes cs :=
  List.mem_flatMap.2 ⟨c, h, by rw [if_neg hc]; exact List.mem_singleton_self c⟩

/-- The first character of a string with its quotes escaped. -/
theorem eq_escapeQuotes_cons {c : Char} {cs v : List Char} (h : c :: cs = escapeQuotes v) :
    (∃ v', v = '"' :: v' ∧ c = '\\' ∧ cs = '"' :: escapeQuotes v') ∨
      ∃ v', v = c :: v' ∧ c ≠ '"' ∧ cs = escapeQuotes v' := by
  cases v with
  | nil => cases h
  | cons d v =>
      by_cases hd : d = '"'
      · subst hd
        rw [escapeQuotes_quote] at h
        obtain ⟨rfl, rfl⟩ := List.cons.inj h
        exact Or.inl ⟨v, rfl, rfl, rfl⟩
      · rw [escapeQuotes_cons hd] at h
        obtain ⟨rfl, rfl⟩ := List.cons.inj h
        exact Or.inr ⟨v, rfl, hd, rfl⟩

/-- Characters that are neither quotes nor backslashes are themselves. -/
theorem eq_escapeQuotes_plain {e cs : List Char} (he : ∀ c ∈ e, c ≠ '"' ∧ c ≠ '\\') :
    ∀ {v : List Char}, e ++ cs = escapeQuotes v → ∃ v', v = e ++ v' ∧ cs = escapeQuotes v' := by
  induction e with
  | nil => exact fun h => ⟨_, rfl, h⟩
  | cons c e ih =>
      intro v h
      have hc := he c List.mem_cons_self
      rcases eq_escapeQuotes_cons h with ⟨v', -, hback, -⟩ | ⟨v', rfl, -, h⟩
      · exact absurd hback hc.2
      · obtain ⟨v'', rfl, hcs⟩ := ih (fun d hd => he d (List.mem_cons_of_mem c hd)) h
        exact ⟨v'', rfl, hcs⟩

/-- The characters behind a quote of the literal are a string with its quotes escaped. -/
theorem eq_escapeQuotes_split {suf v : List Char} :
    ∀ {pre : List Char}, pre ++ '"' :: suf = escapeQuotes v → ∃ v', suf = escapeQuotes v' := by
  induction v with
  | nil =>
      intro pre h
      exact absurd h (by simp)
  | cons c v ih =>
      intro pre h
      by_cases hc : c = '"'
      · subst hc
        rw [escapeQuotes_quote] at h
        match pre, h with
        | [], h => exact absurd (List.cons.inj h).1 (by decide)
        | [_], h => exact ⟨v, (List.cons.inj (List.cons.inj h).2).2⟩
        | _ :: _ :: pre, h => exact ih (List.cons.inj (List.cons.inj h).2).2
      · rw [escapeQuotes_cons hc] at h
        cases pre with
        | nil => exact absurd (List.cons.inj h).1.symm hc
        | cons _ pre => exact ih (List.cons.inj h).2

/-- A backslash at the end of the literal is one at the end of the string. -/
theorem eq_concat_of_escapeQuotes {v : List Char} : ∀ {pre : List Char},
    escapeQuotes v = pre ++ ['\\'] → ∃ u, v = u ++ ['\\'] := by
  induction v with
  | nil =>
      intro pre h
      exact absurd h (by simp)
  | cons c v ih =>
      intro pre h
      by_cases hc : c = '"'
      · subst hc
        rw [escapeQuotes_quote] at h
        -- an escaped quote takes two characters of the text
        match pre, h with
        | [], h => exact absurd (List.cons.inj h).2 (by simp)
        | [_], h => exact absurd (List.cons.inj (List.cons.inj h).2).1 (by decide)
        | _ :: _ :: pre, h =>
            obtain ⟨u, rfl⟩ := ih (List.cons.inj (List.cons.inj h).2).2
            exact ⟨'"' :: u, rfl⟩
      · rw [escapeQuotes_cons hc] at h
        cases pre with
        | nil =>
            obtain ⟨rfl, hv⟩ := List.cons.inj h
            cases v with
            | nil => exact ⟨[], rfl⟩
            | cons d v => exact absurd hv (by simp [escapeQuotes]; split <;> simp)
        | cons _ pre =>
            obtain ⟨u, rfl⟩ := ih (List.cons.inj h).2
            exact ⟨c :: u, rfl⟩

/-! ## What a piece of the literal denotes -/

/-- The first string has fewer backslashes, or fewer characters and no more backslashes. -/
def Below (w v : List Char) : Prop :=
  w.count '\\' < v.count '\\' ∨ (w.count '\\' ≤ v.count '\\' ∧ w.length < v.length)

/-- `w` is what the string has in front of the rest, without backslashes, or the string has one and
`w` is shorter and has no more of them. -/
def ReadsPiece (w v rest : List Char) : Prop :=
  (∃ v', v = w ++ v' ∧ rest = escapeQuotes v' ∧ '\\' ∉ w) ∨
    ('\\' ∈ v ∧ w.length < v.length ∧ w.count '\\' ≤ v.count '\\')

theorem ReadsPiece.le {w v rest : List Char} (h : ReadsPiece w v rest) :
    w.length ≤ v.length ∧ w.count '\\' ≤ v.count '\\' := by
  rcases h with ⟨v', rfl, -, -⟩ | ⟨-, hlen, hcount⟩
  · rw [List.length_append, List.count_append]
    omega
  · exact ⟨hlen.le, hcount⟩

/-- An escape stands for one character of the literal and takes two or more of the string. -/
theorem ReadsPiece.escape {d : Char} {e w v rest : List Char} (he : e ≠ [])
    (h : ReadsPiece w v rest) :
    '\\' ∈ '\\' :: (e ++ v) ∧ (d :: w).length < ('\\' :: (e ++ v)).length ∧
      (d :: w).count '\\' ≤ ('\\' :: (e ++ v)).count '\\' := by
  have hpos := List.length_pos_of_ne_nil he
  obtain ⟨hlen, hcount⟩ := h.le
  refine ⟨List.mem_cons_self, ?_, ?_⟩
  · simp only [List.length_cons, List.length_append]
    omega
  · rw [List.count_cons, List.count_cons_self, List.count_append]
    split <;> omega

/-- What a piece of the literal denotes. -/
theorem Unescapes.of_escapeQuotes {raw w : List Char} (h : Unescapes raw w) :
    ∀ {v rest : List Char}, raw ++ rest = escapeQuotes v → ReadsPiece w v rest := by
  induction h with
  | nil =>
      intro v rest h
      exact Or.inl ⟨v, rfl, h, List.not_mem_nil⟩
  | @char c cs ds hquote hback h ih =>
      intro v rest hv
      rcases eq_escapeQuotes_cons hv with ⟨v', -, hc, -⟩ | ⟨v', rfl, -, hv⟩
      · exact absurd hc hback
      · rcases ih hv with ⟨v'', rfl, hrest, hno⟩ | ⟨hmem, hlen, hcount⟩
        · exact Or.inl ⟨v'', rfl, hrest, by simp [hno, Ne.symm hback]⟩
        · refine Or.inr ⟨List.mem_cons_of_mem c hmem, Nat.succ_lt_succ hlen, ?_⟩
          rw [List.count_cons, List.count_cons]
          omega
  | @simple c d cs ds hc h ih =>
      intro v rest hv
      rcases eq_escapeQuotes_cons hv with ⟨v', rfl, -, hbehind⟩ | ⟨v', rfl, -, hbehind⟩
      · -- the escape of a quote
        obtain ⟨rfl, hrest⟩ := List.cons.inj hbehind
        obtain rfl : '"' = d := by simpa [simpleEscape] using hc
        rcases ih hrest with ⟨v'', rfl, hrest, hno⟩ | ⟨hmem, hlen, hcount⟩
        · exact Or.inl ⟨v'', rfl, hrest, by simp [hno]⟩
        · refine Or.inr ⟨List.mem_cons_of_mem _ hmem, Nat.succ_lt_succ hlen, ?_⟩
          rw [List.count_cons, List.count_cons]
          omega
      · right
        rcases eq_escapeQuotes_cons hbehind with ⟨v'', rfl, -, hquote⟩ | ⟨v'', rfl, -, hrest⟩
        · -- a backslash before a quote: the literal ends at the quote
          cases cs with
          | nil =>
              cases h
              have hnothing : ReadsPiece [] v'' (escapeQuotes v'') :=
                Or.inl ⟨v'', rfl, rfl, List.not_mem_nil⟩
              exact hnothing.escape (e := ['"']) (by simp)
          | cons e cs =>
              obtain ⟨rfl, -⟩ := List.cons.inj hquote
              exact absurd h Unescapes.not_quote
        · exact (ih hrest).escape (e := [c]) (by simp)
  | @star cs ds h ih =>
      intro v rest hv
      right
      rcases eq_escapeQuotes_cons hv with ⟨v', rfl, -, hbehind⟩ | ⟨v', rfl, -, hbehind⟩
      · exact absurd (List.cons.inj hbehind).1 (by decide)
      · rcases eq_escapeQuotes_cons hbehind with ⟨v'', -, hstar, -⟩ | ⟨v'', rfl, -, hrest⟩
        · exact absurd hstar (by decide)
        · exact (ih hrest).escape (e := ['*']) (by simp)
  | @code e d cs ds he h ih =>
      intro v rest hv
      have hplain := Unescapes.plain_of_isCodeEscape he
      have hne := Unescapes.isCodeEscape_ne_nil he
      right
      rcases eq_escapeQuotes_cons hv with ⟨v', rfl, -, hbehind⟩ | ⟨v', rfl, -, hbehind⟩
      · cases e with
        | nil => exact absurd rfl hne
        | cons c e => exact absurd (List.cons.inj hbehind).1 (hplain c List.mem_cons_self).1
      · have hcode : e ++ (cs ++ rest) = escapeQuotes v' := by
          rw [← List.append_assoc]
          exact hbehind
        obtain ⟨v'', rfl, hrest⟩ := eq_escapeQuotes_plain hplain hcode
        exact (ih hrest).escape hne

/-! ## Scanning a list of literals -/

/-- A backslash stands in literals and comments only. -/
def NoStray : Scanner → List Char → Prop
  | _, [] => True
  | s, c :: cs => (c = '\\' → s.mode ≠ .code ∧ s.mode ≠ .slash) ∧ NoStray (scanStep s c) cs

theorem noStray_append (cs ds : List Char) : ∀ s : Scanner,
    NoStray s (cs ++ ds) ↔ NoStray s cs ∧ NoStray (scanAll s cs) ds := by
  induction cs with
  | nil => exact fun s => by simp [NoStray, scanAll]
  | cons c cs ih =>
      intro s
      rw [List.cons_append, NoStray, NoStray, ih, scanAll_cons, and_assoc]

/-- The items behind the first one, each in quotes, and the end of the text. -/
def itemTail (close : List Char) : List (List Char) → List Char
  | [] => close
  | v :: vs => ',' :: ' ' :: '"' :: (escapeQuotes v ++ '"' :: itemTail close vs)

/-- The scanner stands outside of literals. -/
def Scanner.Outside (s : Scanner) : Prop := s.mode = .code ∨ s.mode = .slash ∨ s.mode = .comment

/-- Outside a literal every character but a quote is passed over. -/
theorem Scanner.Outside.step {s : Scanner} (h : s.Outside) {c : Char} (hc : c ≠ '"') :
    (scanStep s c).Outside ∧ (scanStep s c).raws = s.raws := by
  have hcode : (scanCode c s.raws).Outside ∧ (scanCode c s.raws).raws = s.raws := by
    unfold scanCode
    rw [if_neg hc]
    split
    · exact ⟨Or.inr (Or.inl rfl), rfl⟩
    · exact ⟨Or.inl rfl, rfl⟩
  rcases s with ⟨mode, raws⟩
  rcases h with rfl | rfl | rfl
  · exact hcode
  · simp only [scanStep]
    split
    · exact ⟨Or.inr (Or.inr rfl), rfl⟩
    · exact hcode
  · simp only [scanStep]
    split
    · exact ⟨Or.inl rfl, rfl⟩
    · exact ⟨Or.inr (Or.inr rfl), rfl⟩

/-- Outside of literals a string opens none: its quotes stand behind backslashes. -/
theorem Scanner.Outside.content (v : List Char) : ∀ {s : Scanner}, s.Outside →
    NoStray s (escapeQuotes v) →
    (scanAll s (escapeQuotes v)).Outside ∧ (scanAll s (escapeQuotes v)).raws = s.raws := by
  induction v with
  | nil => exact fun h _ => ⟨h, rfl⟩
  | cons c v ih =>
      intro s h hstray
      by_cases hc : c = '"'
      · subst hc
        rw [escapeQuotes_quote] at hstray ⊢
        obtain ⟨hback, -, hstray⟩ := hstray
        -- only a comment has room for the backslash
        obtain ⟨hcode, hslash⟩ := hback rfl
        have hcomment : s.mode = .comment := by
          rcases h with h | h | h
          · exact absurd h hcode
          · exact absurd h hslash
          · exact h
        have hstep : scanStep (scanStep s '\\') '"' = s := by
          rcases s with ⟨mode, raws⟩
          obtain rfl : mode = .comment := hcomment
          rfl
        rw [scanAll_cons, scanAll_cons, hstep]
        rw [hstep] at hstray
        exact ih h hstray
      · rw [escapeQuotes_cons hc] at hstray ⊢
        obtain ⟨hout, hraws⟩ := h.step hc
        obtain ⟨hout', hraws'⟩ := ih hout hstray.2
        exact ⟨hout', hraws'.trans hraws⟩

/-- The literal is read from the item: it denotes the item, which has no backslash, or a string
below it. -/
def FromItem (raw v : List Char) : Prop :=
  ∀ w, Unescapes raw w → (w = v ∧ '\\' ∉ v) ∨ ('\\' ∈ v ∧ Below w v)

theorem fromItem_of_piece {raw rest v : List Char} (h : raw ++ rest = escapeQuotes v)
    (hrest : ∀ v', rest = escapeQuotes v' → v' = []) : FromItem raw v := by
  intro w hw
  rcases hw.of_escapeQuotes h with ⟨v', rfl, hv', hno⟩ | ⟨hmem, hlen, hcount⟩
  · obtain rfl := hrest v' hv'
    rw [List.append_nil]
    exact Or.inl ⟨rfl, hno⟩
  · exact Or.inr ⟨hmem, Or.inr ⟨hcount, hlen⟩⟩

/-- A literal that is the whole item. -/
theorem fromItem_escapeQuotes (v : List Char) : FromItem (escapeQuotes v) v :=
  fromItem_of_piece (List.append_nil _) fun w hw => by
    cases w with
    | nil => rfl
    | cons c w =>
        by_cases hc : c = '"'
        · subst hc
          cases hw
        · rw [escapeQuotes_cons hc] at hw
          cases hw

/-- A literal that runs on to the next item. -/
theorem fromItem_of_run {u : List Char} :
    FromItem (escapeQuotes u ++ ['\\', '"', ',', ' ']) (u ++ ['\\']) := by
  intro w hw
  refine Or.inr ⟨by simp, Or.inl ?_⟩
  have hraw : escapeQuotes u ++ ['\\', '"', ',', ' '] ++ [] =
      escapeQuotes (u ++ ['"', ',', ' ']) := by
    rw [escapeQuotes_append, List.append_nil]
    rfl
  have hcount : (u ++ ['"', ',', ' ']).count '\\' < (u ++ ['\\']).count '\\' := by
    rw [List.count_append, List.count_append]
    exact Nat.lt_succ_self _
  rcases hw.of_escapeQuotes hraw with ⟨v', hv', -, -⟩ | ⟨-, -, hle⟩
  · rw [hv', List.count_append] at hcount
    omega
  · exact hle.trans_lt hcount

section

-- The text ends behind the last item, or with the bracket of the list.
variable {close : List Char} (hclose : close = [] ∨ close = [']'])

include hclose

/-- Once outside of literals within an item, what is read between two items is no string of the
list. -/
theorem Scanner.Outside.items (vs : List (List Char)) : ∀ {s : Scanner} {all : List (List Char)},
    s.Outside → NoStray s ('"' :: itemTail close vs) →
    (scanAll s ('"' :: itemTail close vs)).literals = some all →
    ∀ raw ∈ all, raw ∈ s.raws ∨ raw = [',', ' '] := by
  induction vs with
  | nil =>
      intro s all h hstray hall raw hraw
      have hcomment : scanAll ⟨.comment, s.raws⟩ ('"' :: close) = ⟨.comment, s.raws⟩ := by
        rcases hclose with rfl | rfl
        · rfl
        · rfl
      -- in code the quote opens a literal that the close leaves open
      have hopen : (scanAll ⟨.str [], s.raws⟩ close).literals = none := by
        rcases hclose with rfl | rfl
        · rfl
        · rfl
      rcases s with ⟨mode, raws⟩
      rcases h with rfl | rfl | rfl
      · exact absurd (hopen.symm.trans hall) nofun
      · exact absurd (hopen.symm.trans hall) nofun
      · rw [itemTail, hcomment] at hall
        obtain rfl := Option.some.inj hall
        exact Or.inl hraw
  | cons v vs ih =>
      intro s all h hstray hall raw hraw
      -- outside a literal the four characters between two items read as one, or as nothing
      have hbetween : ∃ s', scanAll s ['"', ',', ' ', '"'] = s' ∧ s'.Outside ∧
          ∀ raw ∈ s'.raws, raw ∈ s.raws ∨ raw = [',', ' '] := by
        refine ⟨_, rfl, ?_⟩
        rcases s with ⟨mode, raws⟩
        rcases h with rfl | rfl | rfl
        · exact ⟨Or.inl rfl, fun raw hraw => by simpa [scanAll, scanStep, scanCode] using hraw⟩
        · exact ⟨Or.inl rfl, fun raw hraw => by simpa [scanAll, scanStep, scanCode] using hraw⟩
        · exact ⟨Or.inr (Or.inr rfl), fun raw hraw => Or.inl hraw⟩
      obtain ⟨s', hs', hout, hraws⟩ := hbetween
      have hsplit : '"' :: itemTail close (v :: vs) =
          ['"', ',', ' ', '"'] ++ (escapeQuotes v ++ '"' :: itemTail close vs) := rfl
      rw [hsplit, scanAll_append, hs', scanAll_append] at hall
      rw [hsplit, noStray_append, hs', noStray_append] at hstray
      obtain ⟨hout', hraws'⟩ := hout.content v hstray.2.1
      rcases ih hout' hstray.2.2 hall raw hraw with hmem | hsep
      · rw [hraws'] at hmem
        exact hraws raw hmem
      · exact Or.inr hsep

/-- The literal ends within the item. -/
theorem early_literals {v pre suf : List Char} {vs raws all : List (List Char)}
    (hv : escapeQuotes v = pre ++ '"' :: suf)
    (hscan : scanAll ⟨.str [], raws⟩ pre = ⟨.str pre, raws⟩)
    (hstray : NoStray ⟨.str [], raws⟩ (escapeQuotes v ++ '"' :: itemTail close vs))
    (hall : (scanAll ⟨.str [], raws⟩
      (escapeQuotes v ++ '"' :: itemTail close vs)).literals = some all) :
    ∀ raw ∈ all, raw ∈ raws ∨ raw = [',', ' '] ∨ FromItem raw v := by
  obtain ⟨v', rfl⟩ := eq_escapeQuotes_split hv.symm
  have hquote : scanStep ⟨.str pre, raws⟩ '"' = ⟨.code, raws ++ [pre]⟩ := rfl
  rw [hv, List.append_assoc, List.cons_append, scanAll_append, hscan, scanAll_cons, hquote,
    scanAll_append] at hall
  rw [hv, List.append_assoc, List.cons_append, noStray_append, hscan, NoStray, hquote,
    noStray_append] at hstray
  obtain ⟨-, -, hcontent, htail⟩ := hstray
  have hcode : Scanner.Outside ⟨.code, raws ++ [pre]⟩ := Or.inl rfl
  obtain ⟨hout, hraws⟩ := hcode.content v' hcontent
  intro raw hraw
  rcases hout.items hclose vs htail hall raw hraw with hmem | hsep
  · rw [hraws, List.mem_append, List.mem_singleton] at hmem
    rcases hmem with hmem | rfl
    · exact Or.inl hmem
    · refine Or.inr (Or.inr (fromItem_of_piece hv.symm ?_))
      -- what is left starts with a bare quote
      intro w hw
      rcases eq_escapeQuotes_cons hw with ⟨w', -, hback, -⟩ | ⟨w', -, hquote, -⟩
      · cases hback
      · exact absurd rfl hquote
  · exact Or.inr (Or.inl hsep)

/-- The quote behind the item is escaped, and the literal runs on to the next item. -/
theorem run_literals {v pre : List Char} {vs raws all : List (List Char)}
    (hv : escapeQuotes v = pre ++ ['\\'])
    (hscan : scanAll ⟨.str [], raws⟩ (escapeQuotes v) = ⟨.esc (escapeQuotes v), raws⟩)
    (hstray : NoStray ⟨.str [], raws⟩ (escapeQuotes v ++ '"' :: itemTail close vs))
    (hall : (scanAll ⟨.str [], raws⟩
      (escapeQuotes v ++ '"' :: itemTail close vs)).literals = some all) :
    ∀ raw ∈ all, raw ∈ raws ∨ raw = [',', ' '] ∨ FromItem raw v := by
  rw [scanAll_append, hscan] at hall
  rw [noStray_append, hscan] at hstray
  cases vs with
  | nil =>
      -- the last quote is escaped, so the text ends inside a literal
      exfalso
      rcases hclose with rfl | rfl
      · cases hall
      · cases hall
  | cons v' vs =>
      have hsplit : '"' :: itemTail close (v' :: vs) =
          ['"', ',', ' ', '"'] ++ (escapeQuotes v' ++ '"' :: itemTail close vs) := rfl
      -- the literal runs on to the quote that opens the next item
      have hbetween : scanAll ⟨.esc (escapeQuotes v), raws⟩ ['"', ',', ' ', '"'] =
          ⟨.code, raws ++ [escapeQuotes v ++ ['"', ',', ' ']]⟩ := by
        simp [scanAll, scanStep]
      rw [hsplit, scanAll_append, hbetween, scanAll_append] at hall
      rw [hsplit, noStray_append, hbetween, noStray_append] at hstray
      obtain ⟨-, -, hcontent, htail⟩ := hstray
      have hcode : Scanner.Outside ⟨.code, raws ++ [escapeQuotes v ++ ['"', ',', ' ']]⟩ := Or.inl rfl
      obtain ⟨hout, hraws⟩ := hcode.content v' hcontent
      intro raw hraw
      rcases hout.items hclose vs htail hall raw hraw with hmem | hsep
      · rw [hraws, List.mem_append, List.mem_singleton] at hmem
        rcases hmem with hmem | rfl
        · exact Or.inl hmem
        · obtain ⟨u, rfl⟩ := eq_concat_of_escapeQuotes hv
          refine Or.inr (Or.inr ?_)
          rw [escapeQuotes_append, List.append_assoc]
          exact fromItem_of_run
      · exact Or.inr (Or.inl hsep)

/-- **The literals of a list** are read from its items, or stand between two of them. -/
theorem items_literals (vs : List (List Char)) : ∀ {v : List Char} {raws all : List (List Char)},
    NoStray ⟨.str [], raws⟩ (escapeQuotes v ++ '"' :: itemTail close vs) →
    (scanAll ⟨.str [], raws⟩ (escapeQuotes v ++ '"' :: itemTail close vs)).literals = some all →
    ∀ raw ∈ all, raw ∈ raws ∨ raw = [',', ' '] ∨ ∃ u ∈ v :: vs, FromItem raw u := by
  have hfirst : ∀ {v : List Char} {vs raws : List (List Char)} {raw : List Char},
      raw ∈ raws ∨ raw = [',', ' '] ∨ FromItem raw v →
      raw ∈ raws ∨ raw = [',', ' '] ∨ ∃ u ∈ v :: vs, FromItem raw u := by
    rintro v vs raws raw (hmem | hsep | hitem)
    · exact Or.inl hmem
    · exact Or.inr (Or.inl hsep)
    · exact Or.inr (Or.inr ⟨v, List.mem_cons_self, hitem⟩)
  -- an item that is read whole is one more literal
  have hwhole : ∀ {v : List Char} {vs raws : List (List Char)} {raw : List Char},
      raw ∈ raws ++ [escapeQuotes v] →
      raw ∈ raws ∨ raw = [',', ' '] ∨ ∃ u ∈ v :: vs, FromItem raw u := by
    intro v vs raws raw hraw
    apply hfirst
    rcases List.mem_append.1 hraw with hmem | hlast
    · exact Or.inl hmem
    · rw [List.mem_singleton.1 hlast]
      exact Or.inr (Or.inr (fromItem_escapeQuotes v))
  -- each item is left early, read whole, or runs on over its closing quote
  induction vs with
  | nil =>
      intro v raws all hstray hall raw hraw
      rcases scanAll_name raws (escapeQuotes v) [] with
        ⟨pre, suf, hv, hscan⟩ | hscan | ⟨pre, hv, hscan⟩
      · exact hfirst (early_literals hclose hv hscan hstray hall raw hraw)
      · rw [scanAll_append, hscan] at hall
        have hend : (scanAll ⟨.str ([] ++ escapeQuotes v), raws⟩
            ('"' :: itemTail close [])).literals = some (raws ++ [escapeQuotes v]) := by
          rcases hclose with rfl | rfl
          · rfl
          · rfl
        obtain rfl := Option.some.inj (hend.symm.trans hall)
        exact hwhole hraw
      · exact hfirst (run_literals hclose hv hscan hstray hall raw hraw)
  | cons v' vs ih =>
      intro v raws all hstray hall raw hraw
      rcases scanAll_name raws (escapeQuotes v) [] with
        ⟨pre, suf, hv, hscan⟩ | hscan | ⟨pre, hv, hscan⟩
      · exact hfirst (early_literals hclose hv hscan hstray hall raw hraw)
      · rw [List.nil_append] at hscan
        have hsplit : '"' :: itemTail close (v' :: vs) =
            ['"', ',', ' ', '"'] ++ (escapeQuotes v' ++ '"' :: itemTail close vs) := rfl
        have hbetween : scanAll ⟨.str (escapeQuotes v), raws⟩ ['"', ',', ' ', '"'] =
            ⟨.str [], raws ++ [escapeQuotes v]⟩ := rfl
        rw [scanAll_append, hscan, hsplit, scanAll_append, hbetween] at hall
        rw [noStray_append, hscan, hsplit, noStray_append, hbetween] at hstray
        rcases ih hstray.2.2 hall raw hraw with hmem | hsep | ⟨u, hu, hitem⟩
        · exact hwhole hmem
        · exact Or.inr (Or.inl hsep)
        · exact Or.inr (Or.inr ⟨u, List.mem_cons_of_mem v hu, hitem⟩)
      · exact hfirst (run_literals hclose hv hscan hstray hall raw hraw)

/-- **A string with a backslash is not read back.** Among the items with a backslash there is one
that no literal of the text denotes: the greatest one. -/
theorem backslash_not_read {v : List Char} {vs all : List (List Char)}
    (hstray : NoStray ⟨.str [], []⟩ (escapeQuotes v ++ '"' :: itemTail close vs))
    (hall : (scanAll ⟨.str [], []⟩ (escapeQuotes v ++ '"' :: itemTail close vs)).literals = some all)
    (hback : ∃ u ∈ v :: vs, '\\' ∈ u) :
    ∃ u ∈ v :: vs, '\\' ∈ u ∧ ∀ raw ∈ all, ¬Unescapes raw u := by
  obtain ⟨u₀, hu₀, hback₀⟩ := hback
  -- among the values with a backslash take one with the most of them, and the longest of these
  have hne : ((v :: vs).toFinset.filter fun u => '\\' ∈ u).Nonempty :=
    ⟨u₀, Finset.mem_filter.2 ⟨List.mem_toFinset.2 hu₀, hback₀⟩⟩
  obtain ⟨u, hu, hmax⟩ := Finset.exists_max_image _
    (fun u : List Char => toLex (u.count '\\', u.length)) hne
  rw [Finset.mem_filter, List.mem_toFinset] at hu
  refine ⟨u, hu.1, hu.2, ?_⟩
  intro raw hraw hden
  -- an item that denotes it would have more backslashes, or as many and more characters
  rcases items_literals hclose vs hstray hall raw hraw with hmem | rfl | ⟨u', hu', hitem⟩
  · cases hmem
  · rw [hden.eq_of_not_mem (by decide)] at hu
    exact absurd hu.2 (by decide)
  · rcases hitem u hden with ⟨rfl, hno⟩ | ⟨hback', hbelow⟩
    · exact hno hu.2
    · have hle := hmax u' (Finset.mem_filter.2 ⟨List.mem_toFinset.2 hu', hback'⟩)
      rw [Prod.Lex.toLex_le_toLex] at hle
      rcases hbelow with hcount | ⟨hcount, hlen⟩
      · rcases hle with hle | ⟨heq, hle⟩
        · exact absurd hle (by simp; omega)
        · exact absurd heq (by simp; omega)
      · rcases hle with hle | ⟨heq, hle⟩
        · exact absurd hle (by simp; omega)
        · exact absurd hle (by simp; omega)

end

/-! ## Attribute expressions -/

/-- A literal with its quotes. -/
def literal (raw : String) : String := "\"" ++ raw ++ "\""

/-- A string with its quotes escaped. -/
def escaped (v : String) : String := String.ofList (escapeQuotes v.toList)

/-- A list of literals. -/
def literalList (raws : List String) : String :=
  "[" ++ Text.join ", " (raws.map literal) ++ "]"

theorem toList_literal_escaped (v : String) :
    (literal (escaped v)).toList = '"' :: (escapeQuotes v.toList ++ ['"']) := by
  simp [literal, escaped, String.toList_append]

/-- The characters of a spliced list. -/
theorem toList_literalList (v : String) (vs : List String) :
    (literalList ((v :: vs).map escaped)).toList =
      '[' :: '"' :: (escapeQuotes v.toList ++ '"' :: itemTail [']'] (vs.map String.toList)) := by
  have hitems : ∀ (vs : List String) (v : String),
      (Text.join ", " (((v :: vs).map escaped).map literal)).toList ++ [']'] =
        '"' :: (escapeQuotes v.toList ++ '"' :: itemTail [']'] (vs.map String.toList)) := by
    intro vs
    induction vs with
    | nil =>
        intro v
        rw [List.map_singleton, List.map_singleton, Text.join_singleton, toList_literal_escaped,
          List.cons_append, List.append_assoc]
        rfl
    | cons v' vs ih =>
        intro v
        rw [List.map_cons, List.map_cons, List.map_cons, List.map_cons, Text.join_cons_cons,
          String.toList_append, String.toList_append, toList_literal_escaped, List.append_assoc,
          List.append_assoc, ← List.map_cons, ← List.map_cons, ih v']
        simp [itemTail]
  rw [literalList, String.toList_append, String.toList_append, List.append_assoc]
  exact congrArg ('[' :: ·) (hitems vs v)

/-- A literal with its quotes is scanned as one. -/
theorem scanAll_literal {raw : String} {s : List Char} (h : Unescapes raw.toList s)
    (raws : List (List Char)) :
    scanAll ⟨.code, raws⟩ (literal raw).toList = ⟨.code, raws ++ [raw.toList]⟩ := by
  have hopen : scanAll ⟨.code, raws⟩ "\"".toList = ⟨.str [], raws⟩ := rfl
  rw [literal, String.toList_append, String.toList_append, scanAll_append, scanAll_append, hopen,
    h.scanAll, List.nil_append]
  rfl

theorem literals_literal {raw : String} {s : List Char} (h : Unescapes raw.toList s) :
    literals (literal raw) = some [raw.toList] := by
  rw [literals, scanAll_literal h]
  rfl

/-- A list of literals without an early end has these literals. -/
theorem literals_literalList {rs : List String} (h : ∀ r ∈ rs, ∃ s, Unescapes r.toList s) :
    literals (literalList rs) = some (rs.map String.toList) := by
  have hitems : ∀ raws : List (List Char),
      scanAll ⟨.code, raws⟩ (Text.join ", " (rs.map literal)).toList =
        ⟨.code, raws ++ rs.map String.toList⟩ := by
    induction rs with
    | nil => exact fun raws => by rw [List.map_nil, List.map_nil, List.append_nil]; rfl
    | cons r rs ih =>
        intro raws
        obtain ⟨s, hs⟩ := h r List.mem_cons_self
        cases rs with
        | nil => exact scanAll_literal hs raws
        | cons r' rs =>
            have hcomma : ∀ raws, scanAll ⟨.code, raws⟩ ", ".toList = ⟨.code, raws⟩ := fun _ => rfl
            rw [List.map_cons, List.map_cons, Text.join_cons_cons, String.toList_append,
              String.toList_append, scanAll_append, scanAll_append, scanAll_literal hs, hcomma,
              ← List.map_cons, ih fun r hr => h r (List.mem_cons_of_mem _ hr)]
            simp
  have hopen : scanAll ⟨.code, []⟩ "[".toList = ⟨.code, []⟩ := rfl
  rw [literals, literalList, String.toList_append, String.toList_append, scanAll_append,
    scanAll_append, hopen, hitems]
  rfl

/-- No literal of the text is left out and none holds a bare carriage return, and each of the strings
is denoted by one. -/
def Reads (text : String) (ss : List String) : Prop :=
  NoStray ⟨.code, []⟩ text.toList ∧ ∃ raws, literals text = some raws ∧
    (∀ raw ∈ raws, '\r' ∉ raw) ∧ ∀ s ∈ ss, ∃ raw ∈ raws, Unescapes raw s.toList

/-- A string is read only without a backslash and a carriage return. -/
theorem Reads.of_literal {v : String} (h : Reads (literal (escaped v)) [v]) :
    '\\' ∉ v.toList ∧ '\r' ∉ v.toList := by
  obtain ⟨hstray, all, hall, hreturn, hread⟩ := h
  have hback : '\\' ∉ v.toList := by
    intro hback
    rw [toList_literal_escaped] at hstray
    rw [literals, toList_literal_escaped, scanAll_cons] at hall
    have hopen : scanStep ⟨.code, []⟩ '"' = ⟨.str [], []⟩ := rfl
    rw [hopen] at hall
    have hclosed : NoStray ⟨.str [], []⟩ (escapeQuotes v.toList ++ '"' :: itemTail [] []) := hstray.2
    have hone : ∃ u ∈ [v.toList], '\\' ∈ u := ⟨v.toList, List.mem_cons_self, hback⟩
    obtain ⟨u, hu, -, hnot⟩ := backslash_not_read (Or.inl rfl) hclosed hall hone
    obtain ⟨raw, hraw, hden⟩ := hread v List.mem_cons_self
    rw [List.mem_singleton.1 hu] at hnot
    exact hnot raw hraw hden
  refine ⟨hback, fun hmem => ?_⟩
  have hden : Unescapes (escaped v).toList v.toList := by
    rw [escaped, String.toList_ofList]
    exact unescapes_escapeQuotes hback
  obtain rfl := Option.some.inj ((literals_literal hden).symm.trans hall)
  apply hreturn (escaped v).toList List.mem_cons_self
  rw [escaped, String.toList_ofList]
  exact mem_escapeQuotes (by decide) hmem

/-- A list is read only without a backslash and a carriage return in any of its strings. -/
theorem Reads.of_literalList {vs : List String} (h : Reads (literalList (vs.map escaped)) vs) :
    ∀ v ∈ vs, '\\' ∉ v.toList ∧ '\r' ∉ v.toList := by
  obtain ⟨hstray, all, hall, hreturn, hread⟩ := h
  have hback : ∀ v ∈ vs, '\\' ∉ v.toList := by
    intro v hv hback
    cases vs with
    | nil => cases hv
    | cons v₀ vs =>
        rw [toList_literalList] at hstray
        rw [literals, toList_literalList, scanAll_cons, scanAll_cons] at hall
        -- after the bracket and the quote, the scan is inside the first literal
        have hopen : scanStep (scanStep ⟨.code, []⟩ '[') '"' = ⟨.str [], []⟩ := rfl
        rw [hopen] at hall
        have hone : ∃ u ∈ v₀.toList :: vs.map String.toList, '\\' ∈ u :=
          ⟨v.toList, by rw [← List.map_cons]; exact List.mem_map_of_mem hv, hback⟩
        have hlist : NoStray ⟨.str [], []⟩
            (escapeQuotes v₀.toList ++ '"' :: itemTail [']'] (vs.map String.toList)) := hstray.2.2
        obtain ⟨u, hu, -, hnot⟩ := backslash_not_read (Or.inr rfl) hlist hall hone
        rw [← List.map_cons] at hu
        obtain ⟨w, hw, rfl⟩ := List.mem_map.1 hu
        obtain ⟨raw, hraw, hden⟩ := hread w hw
        exact hnot raw hraw hden
  intro v hv
  refine ⟨hback v hv, fun hmem => ?_⟩
  have hden : ∀ r ∈ vs.map escaped, ∃ s, Unescapes r.toList s := by
    rw [List.forall_mem_map]
    intro w hw
    rw [escaped, String.toList_ofList]
    exact ⟨_, unescapes_escapeQuotes (hback w hw)⟩
  obtain rfl := Option.some.inj ((literals_literalList hden).symm.trans hall)
  apply hreturn (escaped v).toList (List.mem_map_of_mem (List.mem_map_of_mem hv))
  rw [escaped, String.toList_ofList]
  exact mem_escapeQuotes (by decide) hmem

/-- The set has the strings and nothing else. -/
def IsSetOf (xs : List Value) (ss : List String) : Prop := ∀ x, x ∈ xs ↔ ∃ s ∈ ss, x = .str s

/-- Attribute expressions follow the grammar of string literals: a literal and a list of literals
denote what is written, and strings come from nothing but literals. -/
structure Engine.ReadsLiterals (E : Engine) : Prop where
  str : ∀ {raw s : String}, ShortEscapes raw.toList s.toList →
    E.restrictedExpression (literal raw) = .ok (.str s)
  set : ∀ {raws ss : List String},
    List.Forall₂ (fun raw s => ShortEscapes raw.toList s.toList) raws ss →
    ∃ xs, E.restrictedExpression (literalList raws) = .ok (.set xs) ∧ IsSetOf xs ss
  only_str : ∀ {text s : String}, E.restrictedExpression text = .ok (.str s) → Reads text [s]
  only_set : ∀ {text : String} {xs : List Value} {ss : List String},
    E.restrictedExpression text = .ok (.set xs) → IsSetOf xs ss → Reads text ss

/-- **A string is read back** when it has no backslash and no carriage return. -/
theorem Engine.ReadsLiterals.str_iff {E : Engine} (hE : E.ReadsLiterals) (v : String) :
    E.restrictedExpression (literal (escaped v)) = .ok (.str v) ↔
      '\\' ∉ v.toList ∧ '\r' ∉ v.toList := by
  constructor
  · exact fun h => (hE.only_str h).of_literal
  · rintro ⟨hback, hreturn⟩
    apply hE.str
    rw [escaped, String.toList_ofList]
    exact shortEscapes_escapeQuotes hback hreturn

/-- **A set of strings is read back** when none of them has a backslash or a carriage return. -/
theorem Engine.ReadsLiterals.set_iff {E : Engine} (hE : E.ReadsLiterals) (vs : List String) :
    (∃ xs, E.restrictedExpression (literalList (vs.map escaped)) = .ok (.set xs) ∧
      IsSetOf xs vs) ↔ ∀ v ∈ vs, '\\' ∉ v.toList ∧ '\r' ∉ v.toList := by
  constructor
  · rintro ⟨xs, h, hset⟩
    exact (hE.only_set h hset).of_literalList
  · intro hclean
    apply hE.set
    rw [List.forall₂_map_left_iff, List.forall₂_same]
    intro v hv
    rw [escaped, String.toList_ofList]
    exact shortEscapes_escapeQuotes (hclean v hv).1 (hclean v hv).2

/-! ## The reference engine -/

/-- The lexer collects the string that a literal with one-character escapes denotes. -/
theorem lexAll_shortEscapes {raw s : List Char} (h : ShortEscapes raw s) (rest : List Char)
    (ts : List Token) :
    ∀ acc : List Char, lexAll ⟨.str acc, ts⟩ (raw ++ rest) = lexAll ⟨.str (acc ++ s), ts⟩ rest := by
  induction h with
  | nil => exact fun acc => by rw [List.append_nil, List.nil_append]
  | @char c cs ds hquote hback hreturn h ih =>
      intro acc
      have hstep : lexStep ⟨.str acc, ts⟩ c = some ⟨.str (acc ++ [c]), ts⟩ := by
        simp only [lexStep, if_neg hquote, if_neg hback]
      rw [List.cons_append, lexAll, hstep, Option.bind_some, ih, List.append_assoc,
        List.singleton_append]
  | @simple c d cs ds hc h ih =>
      intro acc
      have hback : lexStep ⟨.str acc, ts⟩ '\\' = some ⟨.esc acc, ts⟩ := rfl
      have hstep : lexStep ⟨.esc acc, ts⟩ c = some ⟨.str (acc ++ [d]), ts⟩ := by
        rw [lexStep, hc]
        rfl
      rw [List.cons_append, List.cons_append, lexAll, hback, Option.bind_some, lexAll, hstep,
        Option.bind_some, ih, List.append_assoc, List.singleton_append]

/-- The text of a literal is one token. -/
theorem lexesTo_literal {raw s : String} (h : ShortEscapes raw.toList s.toList) :
    LexesTo (literal raw) [.str s] := by
  intro ts₀
  have hopen : lexAll ⟨.gap, ts₀⟩ "\"".toList = some ⟨.str [], ts₀⟩ := rfl
  rw [literal, String.toList_append, String.toList_append, List.append_assoc, lexAll_append, hopen,
    Option.bind_some, lexAll_shortEscapes h, List.nil_append]
  simp [lexAll, lexStep]

/-- The tokens of a list of strings behind its bracket. -/
def itemTokens : List String → List Token
  | [] => [.sym "]"]
  | [s] => [.str s, .sym "]"]
  | s :: ss => .str s :: .sym "," :: itemTokens ss

theorem literalItems_itemTokens (ss : List String) :
    literalValue.literalItems (itemTokens ss) = some (ss.map .str) := by
  induction ss with
  | nil => rfl
  | cons s ss ih =>
      cases ss with
      | nil => rfl
      | cons s' ss =>
          rw [itemTokens, literalValue.literalItems, ih]
          · rfl
          · simp

/-- The tokens of a list of literals with one-character escapes. -/
theorem lexesTo_items {raws ss : List String}
    (h : List.Forall₂ (fun raw s => ShortEscapes raw.toList s.toList) raws ss) :
    LexesTo (Text.join ", " (raws.map literal) ++ "]") (itemTokens ss) := by
  have hclose : LexesTo "]" [.sym "]"] := lexesTo_of_run rfl
  have hcomma : LexesTo ", " [.sym ","] := lexesTo_of_run rfl
  induction h with
  | nil => exact lexesTo_of_run rfl
  | @cons raw s raws ss hs h ih =>
      cases h with
      | nil =>
          rw [List.map_singleton, Text.join_singleton]
          exact (lexesTo_literal hs).append hclose
      | cons hs' h =>
          rw [List.map_cons, List.map_cons, Text.join_cons_cons, String.append_assoc,
            String.append_assoc]
          exact (lexesTo_literal hs).append (hcomma.append ih)

theorem reference_literal {raw s : String} (h : ShortEscapes raw.toList s.toList) :
    Engine.reference.restrictedExpression (literal raw) = .ok (.str s) := by
  have hreturn : hasBareReturn (literal raw) = false := by
    rw [hasBareReturn_eq_false (literals_literal h.unescapes), List.forall_mem_singleton]
    exact h.return_not_mem
  simp only [Engine.reference, hreturn, (lexesTo_literal h).lex_eq]
  rfl

/-- The reference engine reads a list of literals with one-character escapes. -/
theorem reference_literalList {raws ss : List String}
    (h : List.Forall₂ (fun raw s => ShortEscapes raw.toList s.toList) raws ss) :
    Engine.reference.restrictedExpression (literalList raws) = .ok (.set (ss.map .str)) := by
  have hraws : ∀ r ∈ raws, ∃ s, ShortEscapes r.toList s := by
    induction h with
    | nil => exact List.forall_mem_nil _
    | cons hs _ ih => exact List.forall_mem_cons.2 ⟨⟨_, hs⟩, ih⟩
  have hreturn : hasBareReturn (literalList raws) = false := by
    rw [hasBareReturn_eq_false (literals_literalList fun r hr =>
      (hraws r hr).imp fun s hs => hs.unescapes), List.forall_mem_map]
    intro r hr
    obtain ⟨s, hs⟩ := hraws r hr
    exact hs.return_not_mem
  have hopen : LexesTo "[" [.sym "["] := lexesTo_of_run rfl
  have hlex := (hopen.append (lexesTo_items h)).lex_eq
  rw [← String.append_assoc] at hlex
  have hvalue : literalValue ([.sym "["] ++ itemTokens ss) = some (.set (ss.map Value.str)) := by
    rw [List.singleton_append, literalValue, literalItems_itemTokens]
    rfl
  unfold literalList at hreturn ⊢
  simp only [Engine.reference, hreturn, hlex, Option.bind_some, hvalue]
  rfl

/-- The characters that a lexeme of two equal characters starts with are no backslashes. -/
def Lexer.DoublesPlain (s : Lexer) : Prop := ∀ d, s.lexeme = .double d → d ≠ '\\'

/-- Between tokens a character that is accepted is no backslash. -/
theorem stepGap_doublesPlain {c : Char} {ts : List Token} {s : Lexer} (h : stepGap c ts = some s) :
    c ≠ '\\' ∧ s.DoublesPlain := by
  have hback : c ≠ '\\' := by
    rintro rfl
    have hnone : stepGap '\\' ts = none := by simp [stepGap, isSymbol, Text.isWhitespace]
    rw [hnone] at h
    cases h
  refine ⟨hback, fun d hd => ?_⟩
  unfold stepGap at h
  split_ifs at h
  all_goals
    obtain rfl := Option.some.inj h
    simp only [reduceCtorEq, Lexeme.double.injEq] at hd
  rw [← hd]
  exact hback

/-- No step of the lexer starts a double symbol with a backslash. -/
theorem lexStep_doublesPlain {s s' : Lexer} {c : Char} (hs : s.DoublesPlain)
    (h : lexStep s c = some s') : s'.DoublesPlain := by
  intro d hd
  rcases s with ⟨lexeme, ts⟩
  -- only a step from a gap starts a double symbol
  cases lexeme with
  | gap => exact (stepGap_doublesPlain h).2 d hd
  | ident acc =>
      simp only [lexStep] at h
      split at h
      · obtain rfl := Option.some.inj h
        cases hd
      · exact (stepGap_doublesPlain h).2 d hd
  | str acc =>
      simp only [lexStep] at h
      split_ifs at h
      all_goals
        obtain rfl := Option.some.inj h
        cases hd
  | esc acc =>
      simp only [lexStep] at h
      obtain ⟨e, -, rfl⟩ := Option.map_eq_some_iff.1 h
      cases hd
  | slash =>
      simp only [lexStep] at h
      split_ifs at h
      obtain rfl := Option.some.inj h
      cases hd
  | comment =>
      simp only [lexStep] at h
      split_ifs at h
      all_goals
        obtain rfl := Option.some.inj h
        cases hd
  | double e =>
      simp only [lexStep] at h
      split_ifs at h
      obtain rfl := Option.some.inj h
      cases hd

/-- The lexer takes a backslash in literals and comments only. -/
theorem lexStep_back {s s' : Lexer} {r : Scanner} {c : Char} (hs : s.DoublesPlain)
    (hr : ModeMatches s.lexeme r.mode) (h : lexStep s c = some s') :
    c = '\\' → r.mode ≠ .code ∧ r.mode ≠ .slash := by
  rintro rfl
  rcases s with ⟨lexeme, ts⟩
  rcases r with ⟨mode, raws⟩
  cases hr with
  | gap => exact absurd rfl (stepGap_doublesPlain h).1
  | ident acc =>
      have hgap : stepGap '\\' (ts ++ [.ident (String.ofList acc)]) = some s' := h
      exact absurd rfl (stepGap_doublesPlain hgap).1
  | str _ => exact ⟨nofun, nofun⟩
  | esc _ => exact ⟨nofun, nofun⟩
  | slash => cases h
  | comment => exact ⟨nofun, nofun⟩
  | @double d _ _ =>
      simp only [lexStep] at h
      split at h
      · rename_i hd
        exact absurd hd.symm (hs d rfl)
      · cases h

/-- A text with tokens has no stray backslash. -/
theorem noStray_of_lexAll (cs : List Char) : ∀ {s s' : Lexer} {r : Scanner}, Matches s r →
    s.DoublesPlain → lexAll s cs = some s' → NoStray r cs := by
  induction cs with
  | nil => exact fun _ _ _ => trivial
  | cons c cs ih =>
      intro s s' r hr hs h
      obtain ⟨s₁, hstep, h⟩ := Option.bind_eq_some_iff.1 h
      exact ⟨lexStep_back hs hr.mode hstep,
        ih (lexStep_matches hr hstep) (lexStep_doublesPlain hs hstep) h⟩

/-- Every string that a list of literals denotes is denoted by one of them. -/
theorem Denote.mem_right {raws : List (List Char)} {ss : List String} (h : Denote raws ss)
    {s : String} (hs : s ∈ ss) : ∃ raw ∈ raws, Unescapes raw s.toList := by
  induction h with
  | nil => cases hs
  | @cons raw s' raws ss hraw _ ih =>
      rcases List.mem_cons.1 hs with rfl | hs
      · exact ⟨raw, List.mem_cons_self, hraw⟩
      · obtain ⟨raw', hraw', hden⟩ := ih hs
        exact ⟨raw', List.mem_cons_of_mem raw hraw', hden⟩

/-- What is read from the tokens of a text is read from its literals. -/
theorem reads_of_lex {text : String} {ts : List Token} (h : lex text = some ts)
    (hreturn : hasBareReturn text = false) {ss : List String}
    (hss : ∀ s ∈ ss, s ∈ tokenStrings ts) : Reads text ss := by
  obtain ⟨raws, hraws, hden⟩ := literals_of_lex h
  obtain ⟨s', hs', -⟩ := Option.bind_eq_some_iff.1 h
  have hstart : Matches ⟨.gap, []⟩ ⟨.code, []⟩ := ⟨.gap, .nil⟩
  have hplain : Lexer.DoublesPlain ⟨.gap, []⟩ := fun _ hd => nomatch hd
  exact ⟨noStray_of_lexAll _ hstart hplain hs', raws, hraws, (hasBareReturn_eq_false hraws).1 hreturn,
    fun s hs => hden.mem_right (hss s hs)⟩

/-- The items of a list value are its string tokens. -/
theorem literalItems_strings {ts : List Token} :
    ∀ {xs : List Value}, literalValue.literalItems ts = some xs →
      xs = (tokenStrings ts).map .str := by
  fun_induction literalValue.literalItems ts with
  | case1 => exact fun h => (Option.some.inj h).symm
  | case2 s => exact fun h => (Option.some.inj h).symm
  | case3 s ts ih =>
      intro xs h
      obtain ⟨ys, hys, rfl⟩ := Option.map_eq_some_iff.1 h
      rw [ih hys]
      rfl
  | case4 => exact nofun

/-- **The reference engine reads literals as Cedar does.** -/
theorem Engine.reference_readsLiterals : Engine.reference.ReadsLiterals where
  str := reference_literal
  set := by
    intro raws ss h
    refine ⟨_, reference_literalList h, fun x => ?_⟩
    rw [List.mem_map]
    constructor
    · rintro ⟨s, hs, rfl⟩
      exact ⟨s, hs, rfl⟩
    · rintro ⟨s, hs, rfl⟩
      exact ⟨s, hs, rfl⟩
  only_str := by
    intro text s h
    obtain ⟨hreturn, ts, hlex, hts⟩ := Engine.literal_of_reference h
    apply reads_of_lex hlex hreturn
    unfold literalValue at hts
    -- only a single string token has a string as its value
    split at hts
    · obtain rfl := Value.str.inj (Option.some.inj hts)
      exact fun s hs => hs
    · obtain ⟨_, -, hset⟩ := Option.map_eq_some_iff.1 hts
      cases hset
    · cases hts
  only_set := by
    intro text xs ss h hset
    obtain ⟨hreturn, ts, hlex, hts⟩ := Engine.literal_of_reference h
    apply reads_of_lex hlex hreturn
    unfold literalValue at hts
    split at hts
    · cases hts
    · obtain ⟨ys, hys, hsame⟩ := Option.map_eq_some_iff.1 hts
      obtain rfl := Value.set.inj hsame
      rw [literalItems_strings hys] at hset
      intro s hs
      obtain ⟨s', hs', heq⟩ := List.mem_map.1 ((hset (.str s)).2 ⟨s, hs, rfl⟩)
      obtain rfl := Value.str.inj heq
      simpa [tokenStrings] using hs'
    · cases hts

/-! ## Strings and sets -/

/-- In the attributes of an entity an expression that starts with a quote is a string, and one that
starts with a bracket is a set. -/
structure Engine.TypesLiterals (E : Engine) : Prop where
  str : ∀ {u : EntityUid} {as : List (String × Value)} {ps : List EntityUid} {e : Entity}
    {k s : String} {v : Value}, E.entityNew u as ps = .ok e → (k, v) ∈ as →
    E.restrictedExpression ("\"" ++ s) = .ok v → ∃ t, v = .str t
  set : ∀ {u : EntityUid} {as : List (String × Value)} {ps : List EntityUid} {e : Entity}
    {k s : String} {v : Value}, E.entityNew u as ps = .ok e → (k, v) ∈ as →
    E.restrictedExpression ("[" ++ s) = .ok v → ∃ vs, v = .set vs

/-- A token once read is the first one. -/
theorem lexAll_head {t : Token} {cs : List Char} {ts : List Token}
    (h : (lexAll ⟨.gap, [t]⟩ cs).bind lexEnd = some ts) : ∃ ts', ts = t :: ts' := by
  have hread := lexAll_prefix [t] cs ⟨.gap, []⟩
  rw [List.append_nil] at hread
  rw [hread] at h
  obtain ⟨s, hs, hend⟩ := Option.bind_eq_some_iff.1 h
  obtain ⟨s', -, rfl⟩ := Option.map_eq_some_iff.1 hs
  rcases s' with ⟨lexeme, ts'⟩
  cases lexeme with
  | gap => exact ⟨ts', (Option.some.inj hend).symm⟩
  | comment => exact ⟨ts', (Option.some.inj hend).symm⟩
  | ident acc =>
      refine ⟨ts' ++ [.ident (String.ofList acc)], ?_⟩
      rw [← Option.some.inj hend]
      rfl
  | str acc => cases hend
  | esc acc => cases hend
  | slash => cases hend
  | double c => cases hend

/-- A literal that is open before the first token is the first token. -/
theorem lexAll_open {cs : List Char} {ts : List Token} : ∀ {lexeme : Lexeme},
    (∃ acc, lexeme = .str acc ∨ lexeme = .esc acc) →
    (lexAll ⟨lexeme, []⟩ cs).bind lexEnd = some ts → ∃ s ts', ts = .str s :: ts' := by
  induction cs with
  | nil =>
      rintro lexeme ⟨acc, rfl | rfl⟩ h
      · cases h
      · cases h
  | cons c cs ih =>
      rintro lexeme ⟨acc, rfl | rfl⟩ h
      · rw [lexAll] at h
        simp only [lexStep] at h
        -- a quote ends the token, a backslash starts an escape
        split_ifs at h
        · obtain ⟨ts', hts⟩ := lexAll_head h
          exact ⟨_, ts', hts⟩
        · exact ih ⟨acc, Or.inr rfl⟩ h
        · exact ih ⟨acc ++ [c], Or.inl rfl⟩ h
      · rw [lexAll] at h
        simp only [lexStep] at h
        cases hc : simpleEscape c with
        | none =>
            rw [hc] at h
            cases h
        | some d =>
            rw [hc] at h
            exact ih ⟨acc ++ [d], Or.inl rfl⟩ h

/-- The reference engine gives a string from one literal and a set from a list. -/
theorem Engine.reference_typesLiterals : Engine.reference.TypesLiterals where
  str := by
    intro u as ps e k s v _ _ h
    obtain ⟨-, ts, hlex, hts⟩ := Engine.literal_of_reference h
    rw [lex, String.toList_append] at hlex
    obtain ⟨t, ts', rfl⟩ := lexAll_open ⟨[], Or.inl rfl⟩ hlex
    unfold literalValue at hts
    split at hts
    · exact ⟨_, (Option.some.inj hts).symm⟩
    · rename_i hhead
      cases hhead
    · cases hts
  set := by
    intro u as ps e k s v _ _ h
    obtain ⟨-, ts, hlex, hts⟩ := Engine.literal_of_reference h
    rw [lex, String.toList_append] at hlex
    obtain ⟨ts', rfl⟩ := lexAll_head (t := .sym "[") hlex
    obtain ⟨xs, -, rfl⟩ := Option.map_eq_some_iff.1 hts
    exact ⟨xs, rfl⟩

end Paac.Cedar
