import Paac.Library.JsonPrinted
import Paac.Library.Words

set_option autoImplicit false

/-!
# One JSON value a line

A printed value holds no control character: a string escapes them, and nothing else prints one. So a
text that is written value by value, each with a line feed behind it, has the texts of the values as
its lines, and a reader that goes line by line finds the values that were appended.

## Main results

- `noControl_toText`: a printed value holds no control character, by induction on the value, with
  `noControl_itemTexts` and `noControl_memberTexts` for what stands inside it.
- `lines_logText`: the lines of a log are the texts that were appended, in their order.
- `Json.toText_one_line`: the text of a value is one line of a log.
- `infix_first_member`: where the first member of a record stands in its line, so that a search for
  it in the text of the line finds it.
-/

namespace Paac

open Text (isControl)

namespace Json

/-! ## No control characters -/

/-- No character of the list is a control character. -/
def noControl (cs : List Char) : Bool := cs.all fun c => !isControl c

theorem noControl_append {cs ds : List Char} (hcs : noControl cs = true)
    (hds : noControl ds = true) : noControl (cs ++ ds) = true := by
  rw [noControl, List.all_append, Bool.and_eq_true]
  exact ⟨hcs, hds⟩

theorem isControl_hexDigit : ∀ d < 16, isControl (hexDigit d) = false := by decide

/-- An escaped character is no control character. -/
theorem noControl_escapeChar (c : Char) : noControl (escapeChar c) = true := by
  unfold escapeChar
  split_ifs with hquote hslash hnewline hreturn htab hback hfeed hcontrol
  · rfl
  · rfl
  · rfl
  · rfl
  · rfl
  · rfl
  · rfl
  · have hhigh := isControl_hexDigit (c.toNat / 16) (by omega)
    have hlow := isControl_hexDigit (c.toNat % 16) (by omega)
    have hlead : noControl ['\\', 'u', '0', '0'] = true := by decide
    apply noControl_append hlead
    simp [noControl, hhigh, hlow]
  · simpa [noControl, isControl] using hcontrol

theorem noControl_quote (s : String) : noControl (quote s).toList = true := by
  rw [quote, String.toList_append, String.toList_append]
  have hmark : noControl "\"".toList = true := by decide
  refine noControl_append (noControl_append hmark ?_) hmark
  rw [String.toList_ofList, noControl, List.all_flatMap, List.all_eq_true]
  exact fun c _ => noControl_escapeChar c

theorem noControl_isNumberChar {c : Char} (h : isNumberChar c = true) : isControl c = false := by
  by_contra hcontrol
  rw [Bool.not_eq_false, isControl, decide_eq_true_eq] at hcontrol
  have hsmall : ∀ n < 32, isNumberChar (Char.ofNat n) = false := by decide
  have hchar := hsmall c.toNat hcontrol
  rw [Char.ofNat_toNat, h] at hchar
  cases hchar

theorem noControl_number {cs : List Char} (h : isNumber cs = true) : noControl cs = true := by
  obtain ⟨d, ds, rfl, hd, hds⟩ := numberChars_of_isNumber h
  rw [noControl, List.all_eq_true]
  intro c hc
  rw [Bool.not_eq_true']
  apply noControl_isNumberChar
  rcases List.mem_cons.1 hc with rfl | hc
  · rw [Bool.or_eq_true] at hd
    rcases hd with hd | hd
    · simp [isNumberChar, hd]
    · simp [isNumberChar, of_decide_eq_true hd]
  · exact hds c hc

theorem noControl_join {ls : List String} (h : ∀ l ∈ ls, noControl l.toList = true) :
    noControl (Text.join "," ls).toList = true := by
  rw [noControl, List.all_eq_true]
  intro c hc
  rcases Text.mem_join hc with hc | ⟨l, hl, hc⟩
  · rw [List.mem_singleton.1 hc]
    rfl
  · exact List.all_eq_true.1 (h l hl) c hc

mutual
/-- A printed value holds no control character. -/
theorem noControl_toText : ∀ v : Json, v.Writable → noControl v.toText.toList = true
  | .null, _ => by decide
  | .bool true, _ => by decide
  | .bool false, _ => by decide
  | .num _, hv => noControl_number hv
  | .str s, _ => noControl_quote s
  | .arr items, hv => by
      rw [toText, String.toList_append, String.toList_append]
      have hitems := noControl_join (noControl_itemTexts items hv)
      exact noControl_append (noControl_append (by decide) hitems) (by decide)
  | .obj ms, hv => by
      rw [toText, String.toList_append, String.toList_append]
      have hmembers := noControl_join (noControl_memberTexts ms hv.2)
      exact noControl_append (noControl_append (by decide) hmembers) (by decide)

theorem noControl_itemTexts : ∀ vs : List Json, ItemsWritable vs →
    ∀ l ∈ itemTexts vs, noControl l.toList = true
  | [], _ => fun l hl => absurd hl List.not_mem_nil
  | v :: vs, hvs => by
      intro l hl
      rw [itemTexts] at hl
      rcases List.mem_cons.1 hl with rfl | hl
      · exact noControl_toText v hvs.1
      · exact noControl_itemTexts vs hvs.2 l hl

theorem noControl_memberTexts : ∀ ms : List (String × Json), MembersWritable ms →
    ∀ l ∈ memberTexts ms, noControl l.toList = true
  | [], _ => fun l hl => absurd hl List.not_mem_nil
  | (k, v) :: ms, hms => by
      intro l hl
      rw [memberTexts] at hl
      rcases List.mem_cons.1 hl with rfl | hl
      · rw [String.toList_append, String.toList_append]
        exact noControl_append (noControl_append (noControl_quote k) (by decide))
          (noControl_toText v hms.1)
      · exact noControl_memberTexts ms hms.2 l hl
end

/-- The text of the first value of an object is in the text of the object. -/
theorem infix_first_member (k : String) (v : Json) (ms : List (String × Json)) :
    v.toText.toList <:+: (Json.obj ((k, v) :: ms)).toText.toList := by
  have hjoin : v.toText.toList <:+: (Text.join "," (memberTexts ((k, v) :: ms))).toList := by
    rw [memberTexts]
    cases memberTexts ms with
    | nil =>
        rw [Text.join_singleton, String.toList_append]
        exact List.infix_append_right
    | cons l ls =>
        rw [Text.join_cons_cons, String.toList_append, String.toList_append]
        exact List.infix_append_of_infix_left List.infix_append_right
  rw [toText, String.toList_append, String.toList_append]
  exact List.infix_append_of_infix_left (List.infix_append_of_infix_right hjoin)

end Json

/-! ## Texts by lines -/

namespace Text

/-- Lines one after the other, each with a line feed behind it. -/
def logText (ls : List String) : String := ls.foldl (fun text l => text ++ l ++ "\n") ""

theorem logText_concat (ls : List String) (l : String) :
    logText (ls ++ [l]) = logText ls ++ l ++ "\n" := by
  rw [logText, List.foldl_append]
  rfl

theorem toList_logText (ls : List String) :
    (logText ls).toList = ls.flatMap fun l => l.toList ++ ['\n'] := by
  induction ls using List.reverseRecOn with
  | nil => rfl
  | append_singleton ls l ih =>
      rw [logText_concat, String.toList_append, String.toList_append, ih, List.flatMap_append,
        List.flatMap_singleton, List.append_assoc]
      rfl

theorem closeLines_cons {piece : List Char} {rest : List (List Char)} (h : rest ≠ []) :
    closeLines (piece :: rest) = dropCarriageReturn piece :: closeLines rest := by
  cases rest with
  | nil => exact absurd rfl h
  | cons r rs => rfl

theorem dropCarriageReturn_of_not_mem {cs : List Char} (h : '\r' ∉ cs) :
    dropCarriageReturn cs = cs := by
  unfold dropCarriageReturn
  split
  · rename_i rest hrest
    have hmem : '\r' ∈ cs.reverse := by rw [hrest]; exact List.mem_cons_self
    exact absurd (List.mem_reverse.1 hmem) h
  · rfl

/-- The lines of a log are the lines written, when none holds a line break. -/
theorem lines_logText {ls : List String} (h : ∀ l ∈ ls, '\n' ∉ l.toList ∧ '\r' ∉ l.toList) :
    lines (logText ls) = ls := by
  have hlines : ∀ ls : List String, (∀ l ∈ ls, '\n' ∉ l.toList ∧ '\r' ∉ l.toList) →
      closeLines (splitChars '\n' (ls.flatMap fun l => l.toList ++ ['\n'])) =
        ls.map String.toList := by
    intro ls
    induction ls with
    | nil => intro _; rfl
    | cons l ls ih =>
        intro h
        obtain ⟨hfeed, hreturn⟩ := h l List.mem_cons_self
        rw [List.flatMap_cons, List.append_assoc, List.singleton_append, splitChars_append hfeed,
          closeLines_cons (splitChars_ne_nil _ _), dropCarriageReturn_of_not_mem hreturn,
          ih fun l hl => h l (List.mem_cons_of_mem _ hl), List.map_cons]
  rw [lines, toList_logText, hlines ls h, List.map_map]
  simp

end Text

/-- A printed value is one line. -/
theorem Json.toText_one_line {v : Json} (h : v.Writable) :
    '\n' ∉ v.toText.toList ∧ '\r' ∉ v.toText.toList := by
  have hcontrol := List.all_eq_true.1 (Json.noControl_toText v h)
  constructor
  · exact fun hmem => absurd (hcontrol _ hmem) (by decide)
  · exact fun hmem => absurd (hcontrol _ hmem) (by decide)

end Paac
