import Paac.Library.JsonSplice

set_option autoImplicit false

/-!
# Reading what was printed

The reader gives back a printed value when its numbers are in the grammar and no object has a key
twice (`Writable`). Both are needed: a text that is no number prints as itself and is not read, and
a repeated key is read into one member.

A word or a number ends only where the next character does not continue it, so the value of a text
stands complete one character after the text: `endScalar` is what that character adds, and
`Delivered` says of a state that its value is complete up to that. The lemma about a value is then
the same for scalars and containers, and composes.

## Main results

- `readAll_quote`, `readAll_number`: strings and numbers. A string is read back through its escapes,
  character by character; a number by the three parts of its grammar.
- `readAll_itemTexts`, `readAll_memberTexts`: the items of an array and the members of an object.
- `readAll_toText`: every value, where the reader waits for one, by induction on the value.
- `parse_toText`: a printed value parses to itself.
- `itemsWritable_map`, `membersWritable_map`: encodings built from writable values are writable.
-/

namespace Paac

namespace Json

/-! ## Values that can be read back -/

mutual
/-- Every number is a number of the grammar, and the keys of every object are distinct. -/
def Writable : Json → Prop
  | .num text => isNumber text.toList = true
  | .arr items => ItemsWritable items
  | .obj ms => (ms.map Prod.fst).Nodup ∧ MembersWritable ms
  | _ => True

/-- Every item of an array is writable. -/
def ItemsWritable : List Json → Prop
  | [] => True
  | v :: vs => v.Writable ∧ ItemsWritable vs

/-- Every value of an object is writable. -/
def MembersWritable : List (String × Json) → Prop
  | [] => True
  | (_, v) :: ms => v.Writable ∧ MembersWritable ms
end

/-! ## Strings -/

theorem hexValue_hexDigit : ∀ d < 16, hexValue (hexDigit d) = some d := by decide

/-- A printed character is read as itself. -/
theorem readAll_escapeChar (c : Char) (acc : List Char) (f : Focus) (st : List Hole) :
    readAll ⟨.str acc, f, st⟩ (escapeChar c) = some ⟨.str (acc ++ [c]), f, st⟩ := by
  unfold escapeChar
  split_ifs with hquote hslash hnewline hreturn htab hback hfeed hcontrol
  · subst hquote
    rfl
  · subst hslash
    rfl
  · subst hnewline
    rfl
  · subst hreturn
    rfl
  · subst htab
    rfl
  · rw [← Char.ofNat_toNat c, hback]
    rfl
  · rw [← Char.ofNat_toNat c, hfeed]
    rfl
  · -- the two last digits of the code are those of the character
    have hhigh := hexValue_hexDigit (c.toNat / 16) (by omega)
    have hlow := hexValue_hexDigit (c.toNat % 16) (by omega)
    have hzero : hexValue '0' = some 0 := rfl
    have hcode : 16 * (16 * (16 * (16 * 0 + 0) + 0) + c.toNat / 16) + c.toNat % 16 = c.toNat := by
      omega
    have hend : endHex acc none c.toNat = some (.str (acc ++ [c])) := by
      rw [endHex, if_neg (by omega), if_neg (by omega), Char.ofNat_toNat]
    have hescape : readAll ⟨.str acc, f, st⟩ ['\\', 'u'] = some ⟨.hex acc none 3 0, f, st⟩ := rfl
    have hdigits : readAll ⟨.hex acc none 3 0, f, st⟩
        ['0', '0', hexDigit (c.toNat / 16), hexDigit (c.toNat % 16)] =
          some ⟨.str (acc ++ [c]), f, st⟩ := by
      simp only [readAll, read, hzero, hhigh, hlow, Option.bind_some, hcode, hend, Option.map_some]
    exact (readAll_append ['\\', 'u'] _ _).trans (by rw [hescape, Option.bind_some, hdigits])
  · have hctl : Text.isControl c = false := by
      simp only [Text.isControl, decide_eq_false_iff_not]
      exact hcontrol
    simp [readAll, read, hquote, hslash, hctl]

/-- The reader collects the characters of an escaped string. -/
theorem readAll_escaped (cs : List Char) (f : Focus) (st : List Hole) :
    ∀ acc, readAll ⟨.str acc, f, st⟩ (cs.flatMap escapeChar) =
      some ⟨.str (acc ++ cs), f, st⟩ := by
  induction cs with
  | nil => intro acc; simp [readAll]
  | cons c cs ih =>
      intro acc
      rw [List.flatMap_cons, readAll_append, readAll_escapeChar, Option.bind_some, ih]
      simp

/-- A printed string arrives whole. -/
theorem readAll_quote (s : String) (f : Focus) (st : List Hole) :
    readAll ⟨.gap, f, st⟩ (quote s).toList = acceptString s f st := by
  have htext : (quote s).toList = ['"'] ++ (s.toList.flatMap escapeChar ++ ['"']) := by
    simp [quote, String.toList_append]
  have hopen : readAll ⟨.gap, f, st⟩ ['"'] = some ⟨.str [], f, st⟩ := rfl
  have hclose : readAll ⟨.str s.toList, f, st⟩ ['"'] = acceptString s f st := by
    rw [readAll, read]
    simp [readAll]
  rw [htext, readAll_append, hopen, Option.bind_some, readAll_append, readAll_escaped,
    Option.bind_some, List.nil_append, hclose]

/-! ## Numbers -/

theorem isNumberChar_of_isDigit {c : Char} (h : c.isDigit = true) : isNumberChar c = true := by
  simp [isNumberChar, h]

/-- What remains after the digits decides about the whole. -/
theorem numberChars_of_skipDigits {cs : List Char}
    (h : ∀ c ∈ (skipDigits cs).2, isNumberChar c = true) : ∀ c ∈ cs, isNumberChar c = true := by
  induction cs with
  | nil => exact h
  | cons d ds ih =>
      rw [skipDigits] at h
      split at h
      · next hd => exact List.forall_mem_cons.2 ⟨isNumberChar_of_isDigit hd, ih h⟩
      · exact h

/-- An exponent has number characters only. -/
theorem numberChars_of_isExponent {cs : List Char} (h : isExponent cs = true) :
    ∀ c ∈ cs, isNumberChar c = true := by
  cases cs with
  | nil => exact fun _ hc => absurd hc List.not_mem_nil
  | cons d ds =>
      simp only [isExponent] at h
      split at h
      · next hd =>
          have hmark : isNumberChar d = true := by
            rcases hd with rfl | rfl <;> rfl
          have hnil : ∀ c ∈ ([] : List Char), isNumberChar c = true :=
            fun _ hc => absurd hc List.not_mem_nil
          obtain ⟨-, hempty⟩ := Bool.and_eq_true_iff.1 h
          have hrest := numberChars_of_skipDigits (List.isEmpty_iff.1 hempty ▸ hnil)
          refine List.forall_mem_cons.2 ⟨hmark, ?_⟩
          -- the digits may follow a sign
          split at hrest
          · exact List.forall_mem_cons.2 ⟨rfl, hrest⟩
          · exact List.forall_mem_cons.2 ⟨rfl, hrest⟩
          · exact hrest
      · cases h

theorem numberChars_of_isFraction {cs : List Char} (h : isFraction cs = true) :
    ∀ c ∈ cs, isNumberChar c = true := by
  unfold isFraction at h
  split at h
  · rw [Bool.and_eq_true] at h
    exact List.forall_mem_cons.2
      ⟨rfl, numberChars_of_skipDigits (numberChars_of_isExponent h.2)⟩
  · exact numberChars_of_isExponent h

/-- What a number has behind its sign starts with a digit. -/
theorem numberChars_of_digits {digits : List Char}
    (h : (match digits with
      | '0' :: rest => isFraction rest
      | c :: rest => c.isDigit && isFraction (skipDigits rest).2
      | [] => false) = true) :
    ∃ d ds, digits = d :: ds ∧ d.isDigit = true ∧ ∀ c ∈ ds, isNumberChar c = true := by
  split at h
  · exact ⟨_, _, rfl, rfl, numberChars_of_isFraction h⟩
  · rw [Bool.and_eq_true] at h
    exact ⟨_, _, rfl, h.1, numberChars_of_skipDigits (numberChars_of_isFraction h.2)⟩
  · cases h

/-- A number starts with a digit or a minus, and consists of the characters of numbers. -/
theorem numberChars_of_isNumber {cs : List Char} (h : isNumber cs = true) :
    ∃ d ds, cs = d :: ds ∧ (d.isDigit || d = '-') = true ∧ ∀ c ∈ ds, isNumberChar c = true := by
  unfold isNumber at h
  split at h
  · obtain ⟨d, ds, rfl, hd, hds⟩ := numberChars_of_digits h
    exact ⟨_, _, rfl, rfl, List.forall_mem_cons.2 ⟨isNumberChar_of_isDigit hd, hds⟩⟩
  · obtain ⟨d, ds, rfl, hd, hds⟩ := numberChars_of_digits h
    exact ⟨d, ds, rfl, by rw [hd]; rfl, hds⟩

/-- A digit or a minus starts a number. -/
theorem stepGap_number {d : Char} (h : (d.isDigit || d = '-') = true) (f : Focus)
    (st : List Hole) : stepGap d f st = some ⟨.num [d], f, st⟩ := by
  have hspace : isSpace d = false := by
    rw [Bool.eq_false_iff]
    intro hd
    simp only [isSpace, Bool.or_eq_true, decide_eq_true_eq] at hd
    rcases hd with ((rfl | rfl) | rfl) | rfl <;> cases h
  have hquote : d ≠ '"' := by
    rintro rfl
    cases h
  rw [stepGap, hspace, if_neg Bool.false_ne_true, if_neg hquote, if_pos h]

/-- The reader collects the characters of a number. -/
theorem readAll_numberChars {cs : List Char} (h : ∀ c ∈ cs, isNumberChar c = true) (f : Focus)
    (st : List Hole) : ∀ acc, readAll ⟨.num acc, f, st⟩ cs = some ⟨.num (acc ++ cs), f, st⟩ := by
  induction cs with
  | nil => intro acc; simp [readAll]
  | cons c cs ih =>
      intro acc
      obtain ⟨hc, hcs⟩ := List.forall_mem_cons.1 h
      have hread : read ⟨.num acc, f, st⟩ c = some ⟨.num (acc ++ [c]), f, st⟩ := by
        simp [read, hc]
      rw [readAll, hread, Option.bind_some, ih hcs, List.append_assoc, List.singleton_append]

/-! ## Values -/

/-- A value is complete, up to a lexeme that the next character ends. -/
def Delivered (r : Reader) (f : Focus) (st : List Hole) : Prop :=
  endScalar r = some ⟨.gap, f, st⟩

theorem delivered_gap (f : Focus) (st : List Hole) : Delivered ⟨.gap, f, st⟩ f st := rfl

/-- A character that continues no word and no number is read in the gap after the value. -/
theorem Delivered.read {r : Reader} {f : Focus} {st : List Hole} (h : Delivered r f st) {c : Char}
    (hword : c.isAlpha = false) (hnum : isNumberChar c = false) :
    Json.read r c = stepGap c f st := by
  rcases r with ⟨lexeme, focus, stack⟩
  unfold Delivered at h
  cases lexeme with
  | word acc => simp [Json.read, hword, h]
  | num acc => simp [Json.read, hnum, h]
  | gap =>
      obtain ⟨-, rfl, rfl⟩ := Reader.mk.inj (Option.some.inj h)
      rfl
  | str acc => cases h
  | esc acc => cases h
  | hex acc high left code => cases h
  | low acc high => cases h
  | lowU acc high => cases h

/-- Reading a text that delivers, and then what follows it. -/
theorem Delivered.readAll {r₀ r : Reader} {f : Focus} {st : List Hole} {cs : List Char}
    (hcs : Json.readAll r₀ cs = some r) (h : Delivered r f st) {c : Char}
    (hword : c.isAlpha = false) (hnum : isNumberChar c = false) :
    Json.readAll r₀ (cs ++ [c]) = stepGap c f st := by
  rw [readAll_append, hcs, Option.bind_some, Json.readAll, h.read hword hnum]
  cases stepGap c f st <;> rfl

theorem acceptValue_of_hole {f : Focus} {h : Hole} (hf : f.hole = some h) (v : Json)
    (st : List Hole) : acceptValue v f st = some ⟨.gap, h.fill v, st⟩ := by
  rw [acceptValue, hf]
  rfl

theorem acceptString_of_hole {f : Focus} {h : Hole} (hf : f.hole = some h) (s : String)
    (st : List Hole) : acceptString s f st = some ⟨.gap, h.fill (.str s), st⟩ := by
  cases f with
  | firstKey => cases hf
  | key ms => cases hf
  | _ => exact acceptValue_of_hole hf (.str s) st

/-! ### The parts of a text -/

section

variable {f : Focus} {h : Hole} {st : List Hole} (hf : f.hole = some h)
include hf

/-- A number is read when the next character ends it. -/
theorem readAll_number {text : String} (hnumber : isNumber text.toList = true) :
    ∃ r, readAll ⟨.gap, f, st⟩ (toText (.num text)).toList = some r ∧
      Delivered r (h.fill (.num text)) st := by
  obtain ⟨d, ds, htext, hd, hds⟩ := numberChars_of_isNumber hnumber
  have hgap : read ⟨.gap, f, st⟩ d = some ⟨.num [d], f, st⟩ := stepGap_number hd f st
  refine ⟨⟨.num text.toList, f, st⟩, ?_, ?_⟩
  · rw [toText, htext, readAll, hgap, Option.bind_some, readAll_numberChars hds]
    rfl
  · simp only [Delivered, endScalar, hnumber, if_true, String.ofList_toList]
    exact acceptValue_of_hole hf _ st

/-- An array opens, holds its items, and closes. -/
theorem readAll_array (items : List Json) :
    readAll ⟨.gap, f, st⟩ (toText (.arr items)).toList =
      readAll ⟨.gap, .firstItem, h :: st⟩ ((Text.join "," (itemTexts items)).toList ++ [']']) := by
  have hopen : readAll ⟨.gap, f, st⟩ ['['] = some ⟨.gap, .firstItem, h :: st⟩ := by
    change (f.hole.map _).bind _ = _
    rw [hf]
    rfl
  have htext : (toText (.arr items)).toList =
      ['['] ++ ((Text.join "," (itemTexts items)).toList ++ [']']) := by
    simp [toText, String.toList_append]
  rw [htext, readAll_append, hopen, Option.bind_some]

/-- An object opens, holds its members, and closes. -/
theorem readAll_object (ms : List (String × Json)) :
    readAll ⟨.gap, f, st⟩ (toText (.obj ms)).toList =
      readAll ⟨.gap, .firstKey, h :: st⟩ ((Text.join "," (memberTexts ms)).toList ++ ['\x7d']) := by
  have hopen : readAll ⟨.gap, f, st⟩ ['\x7b'] = some ⟨.gap, .firstKey, h :: st⟩ := by
    change (f.hole.map _).bind _ = _
    rw [hf]
    rfl
  have htext : (toText (.obj ms)).toList =
      ['\x7b'] ++ ((Text.join "," (memberTexts ms)).toList ++ ['\x7d']) := by
    simp [toText, String.toList_append]
  rw [htext, readAll_append, hopen, Option.bind_some]

end

/-- A member is its key, a colon and its value. -/
theorem readAll_member_text {f : Focus} {before : List (String × Json)} {st : List Hole}
    (hf : ∀ s, acceptString s f st = some ⟨.gap, .colon before s, st⟩) (k : String) (v : Json) :
    readAll ⟨.gap, f, st⟩ (quote k ++ ":" ++ v.toText).toList =
      readAll ⟨.gap, .value (.member before k), st⟩ v.toText.toList := by
  have hkey : readAll ⟨.gap, f, st⟩ ((quote k).toList ++ ":".toList) =
      some ⟨.gap, .value (.member before k), st⟩ := by
    rw [readAll_append, readAll_quote, hf, Option.bind_some]
    rfl
  rw [String.toList_append, String.toList_append, readAll_append, hkey, Option.bind_some]

/-! ### The whole -/

mutual
/-- The text of a value, read where a value is due, delivers the value. -/
theorem readAll_toText : ∀ v : Json, v.Writable → ∀ (f : Focus) (h : Hole) (st : List Hole),
    f.hole = some h →
      ∃ r, readAll ⟨.gap, f, st⟩ v.toText.toList = some r ∧ Delivered r (h.fill v) st
  | .null, _, f, _, st, hf =>
      ⟨⟨.word ['n', 'u', 'l', 'l'], f, st⟩, rfl, acceptValue_of_hole hf .null st⟩
  | .bool true, _, f, _, st, hf =>
      ⟨⟨.word ['t', 'r', 'u', 'e'], f, st⟩, rfl, acceptValue_of_hole hf _ st⟩
  | .bool false, _, f, _, st, hf =>
      ⟨⟨.word ['f', 'a', 'l', 's', 'e'], f, st⟩, rfl, acceptValue_of_hole hf _ st⟩
  | .num _, hv, _, _, _, hf => readAll_number hf hv
  | .str s, _, _, h, st, hf =>
      ⟨⟨.gap, h.fill (.str s), st⟩, by rw [toText, readAll_quote, acceptString_of_hole hf], rfl⟩
  | .arr items, hv, f, h, st, hf => by
      refine ⟨_, ?_, delivered_gap _ st⟩
      rw [readAll_array hf]
      by_cases hne : items = []
      · subst hne
        rfl
      · obtain ⟨r, hr, hdelivered⟩ := readAll_itemTexts items hv hne .firstItem [] (h :: st) rfl
        exact hdelivered.readAll hr rfl rfl
  | .obj ms, hv, f, h, st, hf => by
      refine ⟨_, ?_, delivered_gap _ st⟩
      rw [readAll_object hf]
      by_cases hne : ms = []
      · subst hne
        rfl
      · obtain ⟨r, hr, hdelivered⟩ :=
          readAll_memberTexts ms hv.2 hne .firstKey [] (h :: st) (fun s => rfl)
        have hmembers : insertEntries [] ms = ms := insertEntries_of_nodup hv.1
        rw [hmembers] at hdelivered
        exact hdelivered.readAll hr rfl rfl

/-- The texts of items with commas deliver the items after those already there. -/
theorem readAll_itemTexts : ∀ vs : List Json, ItemsWritable vs → vs ≠ [] →
    ∀ (f : Focus) (before : List Json) (st : List Hole), f.hole = some (.item before) →
      ∃ r, readAll ⟨.gap, f, st⟩ (Text.join "," (itemTexts vs)).toList = some r ∧
        Delivered r (.afterItem (before ++ vs)) st
  | [], _, hne, _, _, _, _ => absurd rfl hne
  | [v], hvs, _, f, before, st, hf => by
      obtain ⟨r, hr, hdelivered⟩ := readAll_toText v hvs.1 f _ st hf
      refine ⟨r, ?_, hdelivered⟩
      rw [itemTexts, itemTexts, Text.join_singleton]
      exact hr
  | v :: w :: ws, hvs, _, f, before, st, hf => by
      obtain ⟨r, hr, hdelivered⟩ := readAll_toText v hvs.1 f _ st hf
      -- the comma hands the item over and waits for the next
      have hcomma : readAll ⟨.gap, f, st⟩ (v.toText.toList ++ [',']) =
          some ⟨.gap, .value (.item (before ++ [v])), st⟩ := hdelivered.readAll hr rfl rfl
      obtain ⟨r', hr', hdelivered'⟩ :=
        readAll_itemTexts (w :: ws) hvs.2 (List.cons_ne_nil _ _) (.value (.item (before ++ [v])))
          (before ++ [v]) st rfl
      have htext : (Text.join "," (itemTexts (v :: w :: ws))).toList =
          (v.toText.toList ++ [',']) ++ (Text.join "," (itemTexts (w :: ws))).toList := by
        rw [itemTexts, itemTexts, Text.join_cons_cons]
        simp [String.toList_append]
      refine ⟨r', ?_, ?_⟩
      · rw [htext, readAll_append, hcomma, Option.bind_some, hr']
      · simpa using hdelivered'

/-- The texts of members with commas deliver the object with the members inserted. -/
theorem readAll_memberTexts : ∀ ms : List (String × Json), MembersWritable ms → ms ≠ [] →
    ∀ (f : Focus) (before : List (String × Json)) (st : List Hole),
      (∀ s, acceptString s f st = some ⟨.gap, .colon before s, st⟩) →
        ∃ r, readAll ⟨.gap, f, st⟩ (Text.join "," (memberTexts ms)).toList = some r ∧
          Delivered r (.afterMember (insertEntries before ms)) st
  | [], _, hne, _, _, _, _ => absurd rfl hne
  | [(k, v)], hms, _, f, before, st, hf => by
      obtain ⟨r, hr, hdelivered⟩ := readAll_toText v hms.1 (.value (.member before k)) _ st rfl
      refine ⟨r, ?_, hdelivered⟩
      rw [memberTexts, memberTexts, Text.join_singleton, readAll_member_text hf, hr]
  | (k, v) :: (k', v') :: ms, hms, _, f, before, st, hf => by
      obtain ⟨r, hr, hdelivered⟩ := readAll_toText v hms.1 (.value (.member before k)) _ st rfl
      have hcomma : readAll ⟨.gap, f, st⟩ ((quote k ++ ":" ++ v.toText).toList ++ [',']) =
          some ⟨.gap, .key (insertEntry k v before), st⟩ :=
        hdelivered.readAll ((readAll_member_text hf k v).trans hr) rfl rfl
      obtain ⟨r', hr', hdelivered'⟩ :=
        readAll_memberTexts ((k', v') :: ms) hms.2 (List.cons_ne_nil _ _)
          (.key (insertEntry k v before)) (insertEntry k v before) st (fun s => rfl)
      have htext : (Text.join "," (memberTexts ((k, v) :: (k', v') :: ms))).toList =
          ((quote k ++ ":" ++ v.toText).toList ++ [',']) ++
            (Text.join "," (memberTexts ((k', v') :: ms))).toList := by
        rw [memberTexts, memberTexts, Text.join_cons_cons]
        simp [String.toList_append]
      refine ⟨r', ?_, hdelivered'⟩
      rw [htext, readAll_append, hcomma, Option.bind_some, hr']
end

/-- What was printed is read back. -/
theorem parse_toText (v : Json) (hv : v.Writable) : parse v.toText = some v := by
  obtain ⟨r, hr, hdelivered⟩ := readAll_toText v hv (.value .top) .top [] rfl
  rw [parse, Reader.init, hr, Option.bind_some, finish, hdelivered]
  rfl

/-! ## Building writable values -/

theorem itemsWritable_map {α : Type} {write : α → Json} (h : ∀ a, (write a).Writable)
    (as : List α) : ItemsWritable (as.map write) := by
  induction as with
  | nil => trivial
  | cons a as ih => exact ⟨h a, ih⟩

theorem membersWritable_map {α : Type} {write : α → Json} (h : ∀ a, (write a).Writable)
    (es : List (String × α)) : MembersWritable (es.map fun e => (e.1, write e.2)) := by
  induction es with
  | nil => trivial
  | cons e es ih => exact ⟨h e.2, ih⟩

end Json

end Paac
