import Mathlib

set_option autoImplicit false

/-!
# Strings as the Rust standard library handles them

The `str` operations that line-oriented parsers and text generators use, on Lean strings: each one
unpacks the string into its characters, so every definition is structurally recursive and evaluates
in the kernel. Whitespace is the Unicode `White_Space` property, as in `str::trim` and
`str::split_whitespace`; the case maps change ASCII letters only.

Each operation is named after the method it stands for, with the method in its docstring, and
follows the documented behaviour at the edges: splitting gives one piece more than there are
separators, a last line may lack its line feed, one carriage return in front of a line feed belongs
to the line end, and trimming by a prefix removes it as often as it stands there.

The lemmas here say of each operation what it takes from the text; how a text that was put together
is taken apart again is in `Words.lean`, and what stays a part of the text is in `Parts.lean`.
-/

namespace Paac.Text

/-! ## Characters -/

/-- The Unicode `White_Space` property, the whitespace of `char::is_whitespace`. -/
def isWhitespace (c : Char) : Bool :=
  let n := c.toNat
  (9 ≤ n && n ≤ 13) || n == 0x20 || n == 0x85 || n == 0xA0 || n == 0x1680 ||
    (0x2000 ≤ n && n ≤ 0x200A) || n == 0x2028 || n == 0x2029 || n == 0x202F || n == 0x205F ||
    n == 0x3000

/-- The C0 control characters, which a JSON string may not contain unescaped. -/
def isControl (c : Char) : Bool := c.toNat < 0x20

/-- `str::to_ascii_uppercase`. -/
def toAsciiUppercase (s : String) : String := String.ofList (s.toList.map Char.toUpper)

/-- `str::to_ascii_lowercase`. -/
def toAsciiLowercase (s : String) : String := String.ofList (s.toList.map Char.toLower)

/-- `str::eq_ignore_ascii_case`. -/
def eqIgnoreAsciiCase (s t : String) : Bool := toAsciiLowercase s == toAsciiLowercase t

/-! ## Trimming -/

/-- `str::trim`. -/
def trim (s : String) : String :=
  String.ofList (List.rdropWhile isWhitespace (s.toList.dropWhile isWhitespace))

/-- A trimmed string does not end in whitespace. -/
theorem trim_getLast {s : String} {c : Char} (h : (trim s).toList.getLast? = some c) :
    isWhitespace c = false := by
  rw [trim, String.toList_ofList] at h
  obtain ⟨hne, rfl⟩ := List.mem_getLast?_eq_getLast h
  exact Bool.eq_false_iff.2 (List.rdropWhile_last_not _ _ hne)

/-- A string that trims to nothing is whitespace. -/
theorem isWhitespace_of_trim_eq_empty {s : String} (h : trim s = "") :
    ∀ c ∈ s.toList, isWhitespace c = true := by
  rw [← String.toList_inj, trim, String.toList_ofList] at h
  have hdropped := List.rdropWhile_eq_nil_iff.1 h
  intro c hc
  rw [← List.takeWhile_append_dropWhile (p := isWhitespace) (l := s.toList), List.mem_append] at hc
  rcases hc with hc | hc
  · exact List.mem_takeWhile_imp hc
  · exact hdropped c hc

/-- `str::trim_start_matches` with a character. -/
def trimStartMatchesChar (c : Char) (s : String) : String :=
  String.ofList (s.toList.dropWhile (· == c))

/-- `str::trim_end_matches` with a character. -/
def trimEndMatchesChar (c : Char) (s : String) : String :=
  String.ofList (List.rdropWhile (· == c) s.toList)

/-- Remove the prefix `p` from a character list, when it is there. -/
def dropPrefix? : List Char → List Char → Option (List Char)
  | [], cs => some cs
  | _ :: _, [] => none
  | p :: ps, c :: cs => if p = c then dropPrefix? ps cs else none

/-- `str::strip_prefix`. -/
def stripPrefix (p s : String) : Option String :=
  (dropPrefix? p.toList s.toList).map String.ofList

theorem dropPrefix?_eq_some {p cs rest : List Char} (h : dropPrefix? p cs = some rest) :
    cs = p ++ rest := by
  induction p generalizing cs with
  | nil => simpa [dropPrefix?] using h
  | cons c p ih =>
      cases cs with
      | nil => cases h
      | cons d cs =>
          rw [dropPrefix?] at h
          split at h
          · rename_i hc
            rw [hc, ih h, List.cons_append]
          · cases h

theorem stripPrefix_eq_some {p s r : String} (h : stripPrefix p s = some r) : s = p ++ r := by
  obtain ⟨rest, hrest, rfl⟩ := Option.map_eq_some_iff.1 h
  rw [← String.toList_inj, String.toList_append, String.toList_ofList]
  exact dropPrefix?_eq_some hrest

theorem dropPrefix?_append (p cs : List Char) : dropPrefix? p (p ++ cs) = some cs := by
  induction p with
  | nil => rfl
  | cons c p ih => rw [List.cons_append, dropPrefix?, if_pos rfl, ih]

theorem stripPrefix_append (p s : String) : stripPrefix p (p ++ s) = some s := by
  rw [stripPrefix, String.toList_append, dropPrefix?_append, Option.map_some, String.ofList_toList]

/-- `str::strip_suffix`. -/
def stripSuffix (p s : String) : Option String :=
  (dropPrefix? p.toList.reverse s.toList.reverse).map fun cs => String.ofList cs.reverse

/-- `str::starts_with`. -/
def startsWith (p s : String) : Bool := (stripPrefix p s).isSome

/-- `str::ends_with`. -/
def endsWith (p s : String) : Bool := (stripSuffix p s).isSome

/-- Remove the non-empty prefix `p` as often as it occurs; `fuel` bounds the number of rounds. -/
def dropPrefixes (p : List Char) : Nat → List Char → List Char
  | 0, cs => cs
  | n + 1, cs =>
      match dropPrefix? p cs with
      | some rest => dropPrefixes p n rest
      | none => cs

/-- `str::trim_start_matches` with a non-empty string; each round removes a character at least,
so the length of the string bounds their number. -/
def trimStartMatches (p s : String) : String :=
  String.ofList (dropPrefixes p.toList s.length s.toList)

/-- `str::trim_end_matches` with a non-empty string. -/
def trimEndMatches (p s : String) : String :=
  String.ofList (dropPrefixes p.toList.reverse s.length s.toList.reverse).reverse

/-! ## Searching and splitting -/

/-- Does the character list `cs` contain `needle` as a contiguous part? -/
def containsChars (needle : List Char) : List Char → Bool
  | [] => needle.isEmpty
  | c :: cs => (dropPrefix? needle (c :: cs)).isSome || containsChars needle cs

/-- `str::contains` with a string pattern. -/
def contains (needle s : String) : Bool := containsChars needle.toList s.toList

/-- The characters before the first `c`, and those after it. -/
def splitOnceChars (c : Char) : List Char → Option (List Char × List Char)
  | [] => none
  | d :: ds =>
      if d = c then some ([], ds)
      else (splitOnceChars c ds).map fun r => (d :: r.1, r.2)

/-- `str::split_once` with a character. -/
def splitOnce (c : Char) (s : String) : Option (String × String) :=
  (splitOnceChars c s.toList).map fun r => (String.ofList r.1, String.ofList r.2)

/-- Split a character list at every `c`; the result has one piece more than there are `c`s. -/
def splitChars (c : Char) : List Char → List (List Char)
  | [] => [[]]
  | d :: ds =>
      if d = c then [] :: splitChars c ds
      else
        match splitChars c ds with
        | [] => [[d]]
        | piece :: rest => (d :: piece) :: rest

/-- `str::split` with a character. -/
def split (c : Char) (s : String) : List String := (splitChars c s.toList).map String.ofList

theorem splitChars_ne_nil (c : Char) (cs : List Char) : splitChars c cs ≠ [] := by
  cases cs with
  | nil => exact List.cons_ne_nil _ _
  | cons d ds =>
      rw [splitChars]
      split
      · exact List.cons_ne_nil _ _
      · split <;> exact List.cons_ne_nil _ _

theorem split_ne_nil (c : Char) (s : String) : split c s ≠ [] := by
  simpa [split] using splitChars_ne_nil c s.toList

/-- Split at every whitespace character and keep the non-empty pieces. -/
def splitWhitespaceChars : List Char → List (List Char)
  | [] => []
  | d :: ds =>
      if isWhitespace d then splitWhitespaceChars ds
      else
        match ds, splitWhitespaceChars ds with
        | [], _ => [[d]]
        | _ :: _, [] => [[d]]
        | e :: _, piece :: rest =>
            if isWhitespace e then [d] :: piece :: rest else (d :: piece) :: rest

/-- `str::split_whitespace`. -/
def splitWhitespace (s : String) : List String :=
  (splitWhitespaceChars s.toList).map String.ofList

/-- The line ending a `\n` closes may carry one `\r`, which is not part of the line. -/
def dropCarriageReturn (cs : List Char) : List Char :=
  match cs.reverse with
  | '\r' :: rest => rest.reverse
  | _ => cs

/-- The pieces between line feeds as lines: every piece but the last was closed by `\n`, and an
empty last piece is no line. -/
def closeLines : List (List Char) → List (List Char)
  | [] => []
  | [last] => if last.isEmpty then [] else [last]
  | piece :: rest => dropCarriageReturn piece :: closeLines rest

/-- `str::lines`. -/
def lines (s : String) : List String :=
  (closeLines (splitChars '\n' s.toList)).map String.ofList

/-- `str::replace` of one character by a string. -/
def replaceChar (c : Char) (repl : String) (s : String) : String :=
  String.ofList (s.toList.flatMap fun d => if d = c then repl.toList else [d])

/-- `[String]::join`. -/
def join (sep : String) (parts : List String) : String := String.intercalate sep parts

theorem join_singleton (sep a : String) : join sep [a] = a := by
  rw [← String.toList_inj, join, String.toList_intercalate]
  simp [List.intercalate]

theorem join_cons_cons (sep a b : String) (rest : List String) :
    join sep (a :: b :: rest) = a ++ (sep ++ join sep (b :: rest)) := by
  rw [← String.toList_inj]
  simp [join, String.toList_intercalate, String.toList_append, List.intercalate]

end Paac.Text
