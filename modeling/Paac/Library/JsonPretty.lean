import Paac.Library.JsonPrinted
import Paac.Library.JsonLayout

set_option autoImplicit false

/-!
# Indented JSON texts

`serde_json::to_string_pretty` puts each item and each member on a line of its own, indented by two
blanks a level, and writes empty containers without a line break. White space between lexemes says
nothing, so an indented text denotes what the compact one does.

The printer has a level as an argument, so the induction is over values at every level: inside a
value the reader stands at a deeper level, and what it has read so far is the same as for the
compact text. The compact printer's lemmas on strings, numbers and keys are used as they are.

## Main results

- `Delivered.newline`: a line break behind a value leaves it delivered.
- `readAll_itemLines`, `readAll_memberLines`: items and members, one a line.
- `readAll_prettyChars`: every value at every level, by induction on the value.
- `parse_toPretty`: an indented value parses to itself.
-/

namespace Paac

namespace Json

/-! ## Printing -/

/-- A line break and the indentation of the level. -/
def newline (level : Nat) : List Char := '\n' :: List.replicate (2 * level) ' '

mutual
/-- The indented text of a value at a level. -/
def prettyChars (level : Nat) : Json → List Char
  | .arr items =>
      if items.isEmpty then ['[', ']']
      else '[' :: (List.intercalate [','] (itemLines (level + 1) items) ++ newline level ++ [']'])
  | .obj ms =>
      if ms.isEmpty then ['\x7b', '\x7d']
      else '\x7b' :: (List.intercalate [','] (memberLines (level + 1) ms) ++ newline level ++
        ['\x7d'])
  | .null => (toText .null).toList
  | .bool b => (toText (.bool b)).toList
  | .num text => (toText (.num text)).toList
  | .str s => (toText (.str s)).toList

/-- The lines of the items of an array. -/
def itemLines (level : Nat) : List Json → List (List Char)
  | [] => []
  | v :: vs => (newline level ++ prettyChars level v) :: itemLines level vs

/-- The lines of the members of an object. -/
def memberLines (level : Nat) : List (String × Json) → List (List Char)
  | [] => []
  | (k, v) :: ms =>
      (newline level ++ ((quote k).toList ++ [':', ' '] ++ prettyChars level v)) ::
        memberLines level ms
end

/-- The indented text of a value (`serde_json::to_string_pretty`). -/
def toPretty (v : Json) : String := String.ofList (prettyChars 0 v)

/-! ## Reading -/

theorem readAll_newline (level : Nat) (f : Focus) (st : List Hole) :
    readAll ⟨.gap, f, st⟩ (newline level) = some ⟨.gap, f, st⟩ := by
  apply readAll_space
  rw [newline, List.all_cons, Bool.and_eq_true]
  refine ⟨rfl, List.all_eq_true.2 fun c hc => ?_⟩
  rw [List.eq_of_mem_replicate hc]
  rfl

/-- Behind a delivered value a line break is read as one. -/
theorem Delivered.newline {r₀ r : Reader} {f : Focus} {st : List Hole} {cs : List Char}
    (hcs : Json.readAll r₀ cs = some r) (h : Delivered r f st) (level : Nat) :
    Json.readAll r₀ (cs ++ Json.newline level) = some ⟨.gap, f, st⟩ := by
  have hbreak : Json.readAll r₀ (cs ++ ['\n']) = some ⟨.gap, f, st⟩ := h.readAll hcs rfl rfl
  have hblanks : Json.readAll ⟨.gap, f, st⟩ (List.replicate (2 * level) ' ') =
      some ⟨.gap, f, st⟩ := by
    apply readAll_space
    refine List.all_eq_true.2 fun c hc => ?_
    rw [List.eq_of_mem_replicate hc]
    rfl
  rw [Json.newline, List.append_cons, readAll_append, hbreak, Option.bind_some, hblanks]

/-- A key, its colon and the blank behind it. -/
theorem readAll_key_blank {f : Focus} {before : List (String × Json)} {st : List Hole}
    (hf : ∀ s, acceptString s f st = some ⟨.gap, .colon before s, st⟩) (k : String) :
    readAll ⟨.gap, f, st⟩ ((quote k).toList ++ [':', ' ']) =
      some ⟨.gap, .value (.member before k), st⟩ := by
  rw [readAll_append, readAll_quote, hf, Option.bind_some]
  rfl

theorem intercalate_cons_cons (sep a b : List Char) (rest : List (List Char)) :
    List.intercalate sep (a :: b :: rest) = a ++ sep ++ List.intercalate sep (b :: rest) := by
  simp [List.intercalate]

theorem intercalate_singleton (sep a : List Char) : List.intercalate sep [a] = a := by
  simp [List.intercalate]

/-- A container opens at a value. -/
theorem readAll_open {c : Char} {inner f : Focus} {h : Hole} {st : List Hole}
    (hopen : ∀ f st, stepGap c f st = f.hole.map fun h => ⟨.gap, inner, h :: st⟩)
    (hf : f.hole = some h) (cs : List Char) :
    readAll ⟨.gap, f, st⟩ (c :: cs) = readAll ⟨.gap, inner, h :: st⟩ cs := by
  rw [readAll]
  change (stepGap c f st).bind _ = _
  rw [hopen, hf]
  rfl

mutual
/-- The indented text of a value, read where a value is due, delivers the value. -/
theorem readAll_prettyChars : ∀ v : Json, v.Writable →
    ∀ (level : Nat) (f : Focus) (h : Hole) (st : List Hole), f.hole = some h →
      ∃ r, readAll ⟨.gap, f, st⟩ (prettyChars level v) = some r ∧ Delivered r (h.fill v) st
  | .null, hv, _, f, h, st, hf => readAll_toText .null hv f h st hf
  | .bool b, hv, _, f, h, st, hf => readAll_toText (.bool b) hv f h st hf
  | .num text, hv, _, f, h, st, hf => readAll_toText (.num text) hv f h st hf
  | .str s, hv, _, f, h, st, hf => readAll_toText (.str s) hv f h st hf
  | .arr items, hv, level, f, h, st, hf => by
      refine ⟨_, ?_, delivered_gap _ st⟩
      rw [prettyChars]
      by_cases hne : items = []
      · subst hne
        have hopen : readAll ⟨.gap, f, st⟩ ['[', ']'] =
            readAll ⟨.gap, .firstItem, h :: st⟩ [']'] := readAll_open (fun _ _ => rfl) hf _
        exact hopen
      · obtain ⟨r, hr, hdelivered⟩ :=
          readAll_itemLines items hv hne (level + 1) .firstItem [] (h :: st) rfl
        have hbreak := hdelivered.newline hr level
        rw [if_neg (by simpa using hne), readAll_open (fun _ _ => rfl) hf, readAll_append, hbreak]
        rfl
  | .obj ms, hv, level, f, h, st, hf => by
      refine ⟨_, ?_, delivered_gap _ st⟩
      rw [prettyChars]
      by_cases hne : ms = []
      · subst hne
        have hopen : readAll ⟨.gap, f, st⟩ ['\x7b', '\x7d'] =
            readAll ⟨.gap, .firstKey, h :: st⟩ ['\x7d'] := readAll_open (fun _ _ => rfl) hf _
        exact hopen
      · obtain ⟨r, hr, hdelivered⟩ :=
          readAll_memberLines ms hv.2 hne (level + 1) .firstKey [] (h :: st) (fun s => rfl)
        have hmembers : insertEntries [] ms = ms := insertEntries_of_nodup hv.1
        rw [hmembers] at hdelivered
        have hbreak := hdelivered.newline hr level
        rw [if_neg (by simpa using hne), readAll_open (fun _ _ => rfl) hf, readAll_append, hbreak]
        rfl

/-- The lines of items with commas deliver the items after those already there. -/
theorem readAll_itemLines : ∀ vs : List Json, ItemsWritable vs → vs ≠ [] →
    ∀ (level : Nat) (f : Focus) (before : List Json) (st : List Hole),
      f.hole = some (.item before) →
        ∃ r, readAll ⟨.gap, f, st⟩ (List.intercalate [','] (itemLines level vs)) = some r ∧
          Delivered r (.afterItem (before ++ vs)) st
  | [], _, hne, _, _, _, _, _ => absurd rfl hne
  | [v], hvs, _, level, f, before, st, hf => by
      obtain ⟨r, hr, hdelivered⟩ := readAll_prettyChars v hvs.1 level f _ st hf
      refine ⟨r, ?_, hdelivered⟩
      rw [itemLines, itemLines, intercalate_singleton, readAll_append, readAll_newline]
      exact hr
  | v :: w :: ws, hvs, _, level, f, before, st, hf => by
      obtain ⟨r, hr, hdelivered⟩ := readAll_prettyChars v hvs.1 level f _ st hf
      have hcomma : readAll ⟨.gap, f, st⟩ (prettyChars level v ++ [',']) =
          some ⟨.gap, .value (.item (before ++ [v])), st⟩ := hdelivered.readAll hr rfl rfl
      obtain ⟨r', hr', hdelivered'⟩ :=
        readAll_itemLines (w :: ws) hvs.2 (List.cons_ne_nil _ _) level
          (.value (.item (before ++ [v]))) (before ++ [v]) st rfl
      refine ⟨r', ?_, ?_⟩
      · rw [itemLines, itemLines, intercalate_cons_cons, ← itemLines, List.append_assoc,
          List.append_assoc, readAll_append, readAll_newline, Option.bind_some,
          ← List.append_assoc, readAll_append, hcomma, Option.bind_some, hr']
      · simpa using hdelivered'

/-- The lines of members with commas deliver the object with the members inserted. -/
theorem readAll_memberLines : ∀ ms : List (String × Json), MembersWritable ms → ms ≠ [] →
    ∀ (level : Nat) (f : Focus) (before : List (String × Json)) (st : List Hole),
      (∀ s, acceptString s f st = some ⟨.gap, .colon before s, st⟩) →
        ∃ r, readAll ⟨.gap, f, st⟩ (List.intercalate [','] (memberLines level ms)) = some r ∧
          Delivered r (.afterMember (insertEntries before ms)) st
  | [], _, hne, _, _, _, _, _ => absurd rfl hne
  | [(k, v)], hms, _, level, f, before, st, hf => by
      obtain ⟨r, hr, hdelivered⟩ :=
        readAll_prettyChars v hms.1 level (.value (.member before k)) _ st rfl
      refine ⟨r, ?_, hdelivered⟩
      rw [memberLines, memberLines, intercalate_singleton, readAll_append, readAll_newline,
        Option.bind_some, readAll_append, readAll_key_blank hf, Option.bind_some, hr]
  | (k, v) :: (k', v') :: ms, hms, _, level, f, before, st, hf => by
      obtain ⟨r, hr, hdelivered⟩ :=
        readAll_prettyChars v hms.1 level (.value (.member before k)) _ st rfl
      have hcomma : readAll ⟨.gap, .value (.member before k), st⟩ (prettyChars level v ++ [',']) =
          some ⟨.gap, .key (insertEntry k v before), st⟩ := hdelivered.readAll hr rfl rfl
      obtain ⟨r', hr', hdelivered'⟩ :=
        readAll_memberLines ((k', v') :: ms) hms.2 (List.cons_ne_nil _ _) level
          (.key (insertEntry k v before)) (insertEntry k v before) st (fun s => rfl)
      refine ⟨r', ?_, hdelivered'⟩
      rw [memberLines, memberLines, intercalate_cons_cons, ← memberLines, List.append_assoc,
        List.append_assoc, readAll_append, readAll_newline, Option.bind_some,
        List.append_assoc, readAll_append, readAll_key_blank hf, Option.bind_some,
        ← List.append_assoc, readAll_append, hcomma, Option.bind_some, hr']
end

/-- **An indented text is read back.** -/
theorem parse_toPretty (v : Json) (hv : v.Writable) : parse v.toPretty = some v := by
  obtain ⟨r, hr, hdelivered⟩ := readAll_prettyChars v hv 0 (.value .top) .top [] rfl
  rw [parse, toPretty, String.toList_ofList, Reader.init, hr, Option.bind_some, finish, hdelivered]
  rfl

end Json

end Paac
