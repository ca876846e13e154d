import Paac.Library.JsonReader

set_option autoImplicit false

/-!
# Reading object text that was put together from strings

Programs that print an object by splicing strings between quotes produce members of a simple kind:
strings in which only quotes and backslashes are escaped, booleans, and lists of such strings
(`Plain`). A control character in such a string is not escaped, and a reader rejects it.

If the whole text is a value, an arbitrary first part has left the machine at a key of the outermost
object, so the later members cannot be captured by whatever the first part opened. The first of them
must have a key that is no lexeme of its own (`Unreadable`): where the first part has left a string
open, the quote of that key closes it, and the key then stands outside and stops the machine.

## Main results

- `readAll_bareEscape`: a string in which quotes and backslashes are escaped is read back when it
  has no control character, and is not read at all when it has one.
- `readAll_items`, `readAll_plain`: lists of them, and every plain value.
- `readAll_members`: a whole list of plain members.
- `membersAt_members`: where the members go that follow an arbitrary text.
- `parse_spliced`: an object whose first part is an arbitrary text is a value exactly when that part
  has left the machine at a key of the outermost object and all members behind it are clean; the
  members behind it are then read as they were meant.
-/

namespace Paac

namespace Json

theorem readAll_append (cs cs' : List Char) :
    ∀ r : Reader, readAll r (cs ++ cs') = (readAll r cs).bind fun r' => readAll r' cs' := by
  induction cs with
  | nil => intro r; rfl
  | cons c cs ih =>
      intro r
      cases h : read r c with
      | none => simp [readAll, h]
      | some r' => simp [readAll, h, ih r']

/-! ## Strings with bare escapes -/

/-- A string body in which quotes and backslashes are escaped and nothing else. -/
def bareEscape (cs : List Char) : List Char :=
  cs.flatMap fun c => if c = '"' then ['\\', '"'] else if c = '\\' then ['\\', '\\'] else [c]

/-- No character of the string is a control character. -/
def isClean (s : String) : Bool := s.toList.all fun c => !Text.isControl c

/-- Inside a string the reader undoes the escapes, and a control character stops it. -/
theorem readAll_bareEscape (cs rest : List Char) (f : Focus) (st : List Hole) :
    ∀ acc : List Char, readAll ⟨.str acc, f, st⟩ (bareEscape cs ++ rest) =
      if cs.all (fun c => !Text.isControl c) then readAll ⟨.str (acc ++ cs), f, st⟩ rest
      else none := by
  induction cs with
  | nil => intro acc; simp [bareEscape]
  | cons c cs ih =>
      intro acc
      have hcons : bareEscape (c :: cs) =
          (if c = '"' then ['\\', '"'] else if c = '\\' then ['\\', '\\'] else [c]) ++
            bareEscape cs := by
        simp [bareEscape]
      rw [hcons, List.append_assoc]
      -- two characters are escaped, and any other stands for itself
      by_cases hq : c = '"'
      · subst hq
        have hstep : readAll ⟨.str acc, f, st⟩ (['\\', '"'] ++ (bareEscape cs ++ rest)) =
            readAll ⟨.str (acc ++ ['"']), f, st⟩ (bareEscape cs ++ rest) := rfl
        rw [if_pos rfl, hstep, ih]
        simp [List.append_assoc, show Text.isControl '"' = false from rfl]
      · by_cases hb : c = '\\'
        · subst hb
          have hstep : readAll ⟨.str acc, f, st⟩ (['\\', '\\'] ++ (bareEscape cs ++ rest)) =
              readAll ⟨.str (acc ++ ['\\']), f, st⟩ (bareEscape cs ++ rest) := rfl
          rw [if_neg hq, if_pos rfl, hstep, ih]
          simp [List.append_assoc, show Text.isControl '\\' = false from rfl]
        · rw [if_neg hq, if_neg hb]
          cases hc : Text.isControl c with
          | true => simp [readAll, read, hq, hb, hc]
          | false =>
              have hstep : readAll ⟨.str acc, f, st⟩ ([c] ++ (bareEscape cs ++ rest)) =
                  readAll ⟨.str (acc ++ [c]), f, st⟩ (bareEscape cs ++ rest) := by
                simp [readAll, read, hq, hb, hc]
              rw [hstep, ih]
              simp [List.append_assoc, hc]

/-- A quoted string with bare escapes. -/
def quoted (s : String) : List Char := '"' :: (bareEscape s.toList ++ ['"'])

/-- A quoted string is read when it has no control character, and stops the reader otherwise. -/
theorem readAll_quoted (s : String) (f : Focus) (st : List Hole) (rest : List Char) :
    readAll ⟨.gap, f, st⟩ (quoted s ++ rest) =
      if isClean s then (acceptString s f st).bind fun r => readAll r rest else none := by
  have hopen : readAll ⟨.gap, f, st⟩ (quoted s ++ rest) =
      readAll ⟨.str [], f, st⟩ (bareEscape s.toList ++ ('"' :: rest)) := by
    simp [quoted, readAll, read, stepGap, isSpace]
  have hclose : readAll ⟨.str s.toList, f, st⟩ ('"' :: rest) =
      (acceptString s f st).bind fun r => readAll r rest := by
    simp [readAll, read]
  rw [hopen, readAll_bareEscape, List.nil_append, hclose]
  rfl

/-! ## Plain values -/

/-- The values that string-splicing printers produce. -/
inductive Plain where
  | str (s : String)
  | bool (b : Bool)
  | strs (ss : List String)
  deriving DecidableEq, Repr

namespace Plain

/-- The JSON value meant. -/
def toJson : Plain → Json
  | .str s => .str s
  | .bool b => .bool b
  | .strs ss => .arr (ss.map .str)

/-- The printed text. -/
def text : Plain → List Char
  | .str s => quoted s
  | .bool b => if b then ['t', 'r', 'u', 'e'] else ['f', 'a', 'l', 's', 'e']
  | .strs ss => '[' :: (List.intercalate [',', ' '] (ss.map quoted) ++ [']'])

/-- All strings are free of control characters. -/
def isClean : Plain → Bool
  | .str s => Json.isClean s
  | .bool _ => true
  | .strs ss => ss.all Json.isClean

end Plain

theorem intercalate_cons (sep : List Char) (a : List Char) (as : List (List Char)) :
    List.intercalate sep (a :: as) = a ++ as.flatMap fun b => sep ++ b := by
  induction as generalizing a with
  | nil => simp [List.intercalate]
  | cons b bs ih =>
      have hstep : List.intercalate sep (a :: b :: bs) =
          a ++ (sep ++ List.intercalate sep (b :: bs)) := by
        simp [List.intercalate, List.intersperse]
      rw [hstep, ih, List.flatMap_cons, List.append_assoc]

/-- The items after the first one, up to the closing bracket. -/
theorem readAll_items (ss : List String) (h : Hole) (st : List Hole) (rest : List Char) :
    ∀ vs : List Json, readAll ⟨.gap, .afterItem vs, h :: st⟩
        ((ss.map quoted).flatMap (fun b => [',', ' '] ++ b) ++ (']' :: rest)) =
      if ss.all isClean then
        readAll ⟨.gap, h.fill (.arr (vs ++ ss.map .str)), st⟩ rest
      else none := by
  induction ss with
  | nil =>
      intro vs
      simp [readAll, read, stepGap, isSpace, acceptPunctuation, closeContainer,
        show Char.isDigit ']' = false from rfl, show Char.isAlpha ']' = false from rfl]
  | cons s ss ih =>
      intro vs
      have hcomma : readAll ⟨.gap, .afterItem vs, h :: st⟩
          (((s :: ss).map quoted).flatMap (fun b => [',', ' '] ++ b) ++ (']' :: rest)) =
          readAll ⟨.gap, .value (.item vs), h :: st⟩
            (quoted s ++ ((ss.map quoted).flatMap (fun b => [',', ' '] ++ b) ++ (']' :: rest))) := by
        rw [List.map_cons, List.flatMap_cons, List.append_assoc, List.append_assoc]
        rfl
      rw [hcomma, readAll_quoted]
      -- an item that is not clean ends the reading
      cases hs : isClean s with
      | false => simp [hs]
      | true =>
          have haccept : acceptString s (.value (.item vs)) (h :: st) =
              some ⟨.gap, .afterItem (vs ++ [.str s]), h :: st⟩ := rfl
          rw [haccept, Option.bind_some, ih]
          simp [hs, List.append_assoc]

/-- A plain value in its place, in front of a character that continues no word. -/
theorem readAll_plain (v : Plain) (h : Hole) (st : List Hole) {c : Char} (rest : List Char)
    (hc : c.isAlpha = false) :
    readAll ⟨.gap, .value h, st⟩ (v.text ++ (c :: rest)) =
      if v.isClean then readAll ⟨.gap, h.fill v.toJson, st⟩ (c :: rest) else none := by
  cases v with
  | str s => exact readAll_quoted s (.value h) st (c :: rest)
  | bool b =>
      cases b with
      | true =>
          have hword : readAll ⟨.gap, .value h, st⟩ (['t', 'r', 'u', 'e'] ++ (c :: rest)) =
              readAll ⟨.word ['t', 'r', 'u', 'e'], .value h, st⟩ (c :: rest) := rfl
          have hend : endScalar ⟨.word ['t', 'r', 'u', 'e'], .value h, st⟩ =
              some ⟨.gap, h.fill (.bool true), st⟩ := rfl
          simp only [Plain.text, Plain.isClean, Plain.toJson, if_true, hword]
          simp [readAll, read, hc, hend]
      | false =>
          have hword : readAll ⟨.gap, .value h, st⟩ (['f', 'a', 'l', 's', 'e'] ++ (c :: rest)) =
              readAll ⟨.word ['f', 'a', 'l', 's', 'e'], .value h, st⟩ (c :: rest) := rfl
          have hend : endScalar ⟨.word ['f', 'a', 'l', 's', 'e'], .value h, st⟩ =
              some ⟨.gap, h.fill (.bool false), st⟩ := rfl
          simp only [Plain.text, Plain.isClean, Plain.toJson, if_true]
          rw [if_neg Bool.false_ne_true, hword]
          simp [readAll, read, hc, hend]
  | strs ss =>
      cases ss with
      | nil => rfl
      | cons s ss =>
          -- the first item stands alone, the others follow commas
          have hopen : readAll ⟨.gap, .value h, st⟩ ((Plain.strs (s :: ss)).text ++ (c :: rest)) =
              readAll ⟨.gap, .firstItem, h :: st⟩ (quoted s ++
                ((ss.map quoted).flatMap (fun b => [',', ' '] ++ b) ++ (']' :: (c :: rest)))) := by
            simp only [Plain.text, List.map_cons, intercalate_cons, List.cons_append,
              List.append_assoc]
            rfl
          rw [hopen, readAll_quoted]
          cases hs : isClean s with
          | false => simp [Plain.isClean, hs]
          | true =>
              have haccept : acceptString s .firstItem (h :: st) =
                  some ⟨.gap, .afterItem [.str s], h :: st⟩ := rfl
              rw [haccept, Option.bind_some, readAll_items]
              simp [Plain.isClean, Plain.toJson, hs]

/-! ## Members -/

/-- The text of a member. -/
def memberText (m : String × Plain) : List Char := quoted m.1 ++ ([':', ' '] ++ m.2.text)

/-- The members as JSON. -/
def memberJson (m : String × Plain) : String × Json := (m.1, m.2.toJson)

/-- Key and value of a member are free of control characters. -/
def memberClean (m : String × Plain) : Bool := isClean m.1 && m.2.isClean

/-- A member is read as its key and value. -/
theorem readAll_member (m : String × Plain) (ms : List (String × Json)) (st : List Hole)
    {c : Char} (rest : List Char) (hc : c.isAlpha = false) :
    readAll ⟨.gap, .key ms, st⟩ (memberText m ++ (c :: rest)) =
      if memberClean m then
        readAll ⟨.gap, .afterMember (insertEntry m.1 m.2.toJson ms), st⟩ (c :: rest)
      else none := by
  rcases m with ⟨k, v⟩
  have hassoc : memberText (k, v) ++ (c :: rest) =
      quoted k ++ ([':', ' '] ++ (v.text ++ (c :: rest))) := by
    simp [memberText]
  rw [hassoc, readAll_quoted]
  cases hk : isClean k with
  | false => simp [memberClean, hk]
  | true =>
      have hcolon : (acceptString k (.key ms) st).bind
            (fun r => readAll r ([':', ' '] ++ (v.text ++ (c :: rest)))) =
          readAll ⟨.gap, .value (.member ms k), st⟩ (v.text ++ (c :: rest)) := rfl
      rw [hcolon, readAll_plain v _ st rest hc]
      simp [memberClean, hk, Hole.fill]

/-- Every text after a member starts with a character that continues no word. -/
theorem members_head (new : List (String × Plain)) {c : Char} (rest : List Char)
    (hc : c.isAlpha = false) :
    ∃ d tail, new.flatMap (fun m => [',', ' '] ++ memberText m) ++ (c :: rest) = d :: tail ∧
      d.isAlpha = false := by
  cases new with
  | nil => exact ⟨c, rest, rfl, hc⟩
  | cons m new => exact ⟨',', _, rfl, rfl⟩

/-- All members after the first one. -/
theorem readAll_members (new : List (String × Plain)) (st : List Hole) {c : Char}
    (rest : List Char) (hc : c.isAlpha = false) :
    ∀ ms : List (String × Json), readAll ⟨.gap, .afterMember ms, st⟩
        (new.flatMap (fun m => [',', ' '] ++ memberText m) ++ (c :: rest)) =
      if new.all memberClean then
        readAll ⟨.gap, .afterMember (insertEntries ms (new.map memberJson)), st⟩ (c :: rest)
      else none := by
  induction new with
  | nil => intro ms; simp [insertEntries]
  | cons m new ih =>
      intro ms
      have hcomma : readAll ⟨.gap, .afterMember ms, st⟩
            ((m :: new).flatMap (fun m => [',', ' '] ++ memberText m) ++ (c :: rest)) =
          readAll ⟨.gap, .key ms, st⟩ (memberText m ++
            (new.flatMap (fun m => [',', ' '] ++ memberText m) ++ (c :: rest))) := by
        rw [List.flatMap_cons, List.append_assoc, List.append_assoc]
        rfl
      obtain ⟨d, tail, htail, hd⟩ := members_head new rest hc
      rw [hcomma, htail, readAll_member m ms st tail hd]
      cases hm : memberClean m with
      | false => simp [hm]
      | true =>
          have hins : insertEntries (insertEntry m.1 m.2.toJson ms) (new.map memberJson) =
              insertEntries ms ((m :: new).map memberJson) := rfl
          rw [if_pos rfl, ← htail, ih, hins, List.all_cons, hm, Bool.true_and]

/-! ## An arbitrary first part -/

/-- After a comma and a space the reader is at a key, at an item, or inside a string. -/
theorem readAll_comma_space {r₀ r : Reader} (h : readAll r₀ [',', ' '] = some r) :
    (∃ ms st, r = ⟨.gap, .key ms, st⟩) ∨ (∃ vs st, r = ⟨.gap, .value (.item vs), st⟩) ∨
      ∃ acc f st, r = ⟨.str acc, f, st⟩ := by
  obtain ⟨r₁, h₁, h₂⟩ : ∃ r₁, read r₀ ',' = some r₁ ∧ read r₁ ' ' = some r := by
    cases h₁ : read r₀ ',' with
    | none => simp [readAll, h₁] at h
    | some r₁ => exact ⟨r₁, rfl, by simpa [readAll, h₁] using h⟩
  -- between lexemes a comma leads to a key or to an item
  have hgap : ∀ (f : Focus) (st : List Hole) (r₁ : Reader), stepGap ',' f st = some r₁ →
      (∃ ms, r₁ = ⟨.gap, .key ms, st⟩) ∨ ∃ vs, r₁ = ⟨.gap, .value (.item vs), st⟩ := by
    intro f st r₁ hf
    have hf' : acceptPunctuation ',' f st = some r₁ := hf
    cases f with
    | afterMember ms =>
        obtain rfl : r₁ = ⟨.gap, .key ms, st⟩ := by simpa [acceptPunctuation] using hf'.symm
        exact Or.inl ⟨ms, rfl⟩
    | afterItem vs =>
        obtain rfl : r₁ = ⟨.gap, .value (.item vs), st⟩ := by
          simpa [acceptPunctuation] using hf'.symm
        exact Or.inr ⟨vs, rfl⟩
    | value h => simp [acceptPunctuation] at hf'
    | firstKey => simp [acceptPunctuation] at hf'
    | key ms => simp [acceptPunctuation] at hf'
    | colon ms k => simp [acceptPunctuation] at hf'
    | firstItem => simp [acceptPunctuation] at hf'
    | done v => simp [acceptPunctuation] at hf'
  have hspace : ∀ (f : Focus) (st : List Hole), read ⟨.gap, f, st⟩ ' ' = some ⟨.gap, f, st⟩ :=
    fun _ _ => rfl
  have hfinish : ∀ (f : Focus) (st : List Hole), stepGap ',' f st = some r₁ →
      (∃ ms st, r = ⟨.gap, .key ms, st⟩) ∨ (∃ vs st, r = ⟨.gap, .value (.item vs), st⟩) ∨
        ∃ acc f st, r = ⟨.str acc, f, st⟩ := by
    intro f st hf
    rcases hgap f st r₁ hf with ⟨ms, rfl⟩ | ⟨vs, rfl⟩
    · rw [hspace] at h₂
      exact Or.inl ⟨ms, st, (Option.some.inj h₂).symm⟩
    · rw [hspace] at h₂
      exact Or.inr (Or.inl ⟨vs, st, (Option.some.inj h₂).symm⟩)
  -- inside a string both characters are text; a word or a number ends at the comma
  rcases r₀ with ⟨lexeme, f, st⟩
  cases lexeme with
  | gap => exact hfinish f st h₁
  | str acc =>
      obtain rfl : r₁ = ⟨.str (acc ++ [',']), f, st⟩ := by
        simpa [read, Text.isControl] using h₁.symm
      obtain rfl : r = ⟨.str (acc ++ [','] ++ [' ']), f, st⟩ := by
        simpa [read, Text.isControl] using h₂.symm
      exact Or.inr (Or.inr ⟨_, f, st, rfl⟩)
  | esc acc => simp [read, simpleEscape] at h₁
  | hex acc high left code => simp [read, hexValue, Char.isDigit] at h₁
  | low acc high => simp [read] at h₁
  | lowU acc high => simp [read] at h₁
  | word acc =>
      cases hend : endScalar ⟨.word acc, f, st⟩ with
      | none => simp [read, hend, Char.isAlpha, Char.isUpper, Char.isLower] at h₁
      | some r' =>
          refine hfinish r'.focus r'.stack ?_
          simpa [read, hend, Char.isAlpha, Char.isUpper, Char.isLower] using h₁
  | num acc =>
      cases hend : endScalar ⟨.num acc, f, st⟩ with
      | none => simp [read, hend, isNumberChar, Char.isDigit] at h₁
      | some r' =>
          refine hfinish r'.focus r'.stack ?_
          simpa [read, hend, isNumberChar, Char.isDigit] using h₁

/-- No container but the outermost one is open. -/
def atTop : List Hole → Bool
  | [.top] => true
  | _ => false

/-- The members a text has read when it stops at a key of the outermost object. -/
def membersAt : Option Reader → Option (List (String × Json))
  | some ⟨.gap, .key ms, [.top]⟩ => some ms
  | _ => none

theorem membersAt_key (ms : List (String × Json)) (st : List Hole) :
    membersAt (some ⟨.gap, .key ms, st⟩) = if atTop st then some ms else none := by
  cases st with
  | nil => rfl
  | cons h st =>
      cases st with
      | nil => cases h <;> rfl
      | cons h' st => cases h <;> rfl

/-- Members at the start of an object leave the reader at a key of the outermost object. -/
theorem membersAt_members (m : String × Plain) (new : List (String × Plain)) :
    membersAt (readAll Reader.init ('{' :: (memberText m ++
        (new.flatMap (fun m => [',', ' '] ++ memberText m) ++ [',', ' '])))) =
      if (m :: new).all memberClean then
        some (insertEntries [] ((m :: new).map memberJson))
      else none := by
  have hopen : readAll Reader.init ('{' :: (memberText m ++
        (new.flatMap (fun m => [',', ' '] ++ memberText m) ++ [',', ' ']))) =
      readAll ⟨.gap, .key [], [.top]⟩ (memberText m ++
        (new.flatMap (fun m => [',', ' '] ++ memberText m) ++ [',', ' '])) := by
    -- a first key is read as any other
    have hfirst : ∀ cs, readAll ⟨.gap, .firstKey, [.top]⟩ (quoted m.1 ++ cs) =
        readAll ⟨.gap, .key [], [.top]⟩ (quoted m.1 ++ cs) := by
      intro cs
      rw [readAll_quoted, readAll_quoted]
      rfl
    simp only [memberText, List.append_assoc, ← hfirst]
    rfl
  obtain ⟨c, tail, htail, hc⟩ := members_head new (c := ',') [' '] rfl
  rw [hopen, htail, readAll_member m [] [.top] tail hc, List.all_cons]
  cases hm : memberClean m with
  | false => rfl
  | true =>
      rw [if_pos rfl, ← htail, readAll_members new [.top] [' '] rfl, Bool.true_and]
      cases hnew : new.all memberClean with
      | false => rfl
      | true => rfl

/-- A key that is no lexeme of its own: read outside a string it stops the machine. -/
def Unreadable (k : String) : Prop :=
  ∀ (f : Focus) (st : List Hole) (rest : List Char),
    readAll ⟨.gap, f, st⟩ (bareEscape k.toList ++ rest) = none

/-- A closing brace ends the outermost object. -/
theorem readAll_closeTop (ms : List (String × Json)) (st : List Hole) :
    ((readAll ⟨.gap, .afterMember ms, st⟩ ['}']).bind finish) =
      if atTop st then some (.obj ms) else none := by
  cases st with
  | nil => rfl
  | cons h st =>
      cases st with
      | nil => cases h <;> rfl
      | cons h' st => cases h <;> rfl

/-- **Splicing.** An arbitrary text `head`, a comma, and members of which the first has an
unreadable key: the whole is a value exactly when the head has left the machine at a key of the
outermost object and all members are clean, and then the value is the object of the head's
members with the new ones inserted. -/
theorem parse_spliced (head : List Char) (m : String × Plain) (new : List (String × Plain))
    (hkey : Unreadable m.1) :
    (readAll Reader.init (head ++ ([',', ' '] ++ (memberText m ++
        (new.flatMap (fun m => [',', ' '] ++ memberText m) ++ ['}']))))).bind finish =
      (membersAt (readAll Reader.init (head ++ [',', ' ']))).bind fun ms =>
        if (m :: new).all memberClean then
          some (.obj (insertEntries ms ((m :: new).map memberJson)))
        else none := by
  rw [← List.append_assoc, readAll_append]
  cases hr : readAll Reader.init (head ++ [',', ' ']) with
  | none => rfl
  | some r =>
      obtain ⟨r₀, -, h₀⟩ : ∃ r₀, readAll Reader.init head = some r₀ ∧
          readAll r₀ [',', ' '] = some r := by
        rw [readAll_append] at hr
        exact Option.bind_eq_some_iff.1 hr
      obtain ⟨c, tail, htail, hc⟩ := members_head new (c := '}') [] rfl
      have hkeyText : memberText m ++ (c :: tail) =
          quoted m.1 ++ ([':', ' '] ++ (m.2.text ++ (c :: tail))) := by
        simp [memberText]
      simp only [Option.bind_some, htail]
      rcases readAll_comma_space h₀ with ⟨ms, st, rfl⟩ | ⟨vs, st, rfl⟩ | ⟨acc, f, st, rfl⟩
      · rw [readAll_member m ms st tail hc, membersAt_key]
        cases hm : memberClean m with
        | false =>
            rw [List.all_cons, hm, Bool.false_and]
            by_cases htop : atTop st = true
            · rw [if_pos htop]
              rfl
            · rw [if_neg htop]
              rfl
        | true =>
            rw [if_pos rfl, ← htail, readAll_members new st [] rfl, List.all_cons, hm, Bool.true_and]
            have hins : insertEntries (insertEntry m.1 m.2.toJson ms) (new.map memberJson) =
                insertEntries ms ((m :: new).map memberJson) := rfl
            by_cases htop : atTop st = true
            · rw [if_pos htop, Option.bind_some]
              cases hnew : new.all memberClean with
              | false => rfl
              | true =>
                  rw [if_pos rfl, if_pos rfl, readAll_closeTop, if_pos htop, hins]
            · rw [if_neg htop, Option.bind_none]
              cases hnew : new.all memberClean with
              | false => rfl
              | true =>
                  rw [if_pos rfl, readAll_closeTop, if_neg htop]
      · -- at an item: the key would be an item, and no colon follows an item
        rw [hkeyText, readAll_quoted]
        split <;> rfl
      · -- inside a string: the quote of the key closes it, and the key stands outside
        rw [hkeyText]
        have hclose : readAll ⟨.str acc, f, st⟩
              (quoted m.1 ++ ([':', ' '] ++ (m.2.text ++ (c :: tail)))) =
            (acceptString (String.ofList acc) f st).bind fun r =>
              readAll r (bareEscape m.1.toList ++
                (['"'] ++ ([':', ' '] ++ (m.2.text ++ (c :: tail))))) := by
          simp [quoted, readAll, read]
        rw [hclose]
        cases ha : acceptString (String.ofList acc) f st with
        | none => rfl
        | some r =>
            have hgap : r = ⟨.gap, r.focus, r.stack⟩ := by
              unfold acceptString acceptValue at ha
              split at ha
              · rw [← Option.some.inj ha]
              · rw [← Option.some.inj ha]
              · obtain ⟨h, -, rfl⟩ := Option.map_eq_some_iff.1 ha
                rfl
            rw [Option.bind_some, hgap, hkey]
            rfl

end Json

end Paac
