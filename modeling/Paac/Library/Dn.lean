import Paac.Library.Words

set_option autoImplicit false

/-!
# Distinguished names

A distinguished name is a sequence of relative names, each a set of attributes with values. In its
text the relative names stand with commas between them, their attributes with plus signs, and a
character that the text uses itself is escaped by a backslash in a value.

Much code reads such a text by its first comma and the runs of attribute types in front: it splits
at the comma and removes `uid=` or `cn=` from the start, as often as it stands there. `FirstSpells`
says which value that finds in any text, and the second half of the module says when that value is
the one the name was printed with.

## Main results

- `trimStartMatches_eq_iff`: what is left when all leading copies of a text are removed, as a
  decomposition of the text rather than as a loop.
- `stripTypes_eq_iff`: the same for several attribute types, removed one after the other.
- `stripTypes_first_iff`: so what the first component of a text spells.
- `count_escapeChars`, `comma_escapeChars`: what escaping adds to a value and what not. A value with
  a comma keeps its comma, so that the first comma of the text is inside the value.
- `firstComponent_print`: the first component of a printed name.
- `firstSpells_print_iff`: a name whose first component is one attribute gives the value of it back
  exactly when the value needs no escape and does not look like one of the types itself.
-/

namespace Paac.Text

/-! ## Removing the runs of a text -/

/-- The text stands `k` times in front. -/
def runOf (p : String) (k : Nat) : List Char := (List.replicate k p.toList).flatten

theorem runOf_succ (p : String) (k : Nat) : runOf p (k + 1) = p.toList ++ runOf p k := rfl

/-- Removing the prefix as often as it occurs removes the longest run of it. -/
theorem dropPrefixes_runOf {p : String} {t : List Char} (hp : p ≠ "") (ht : ¬p.toList <+: t)
    (k : Nat) : ∀ n, (runOf p k ++ t).length ≤ n → dropPrefixes p.toList n (runOf p k ++ t) = t := by
  have hpos : 0 < p.toList.length := by
    rw [String.length_toList]
    exact Nat.pos_of_ne_zero fun hzero => hp (String.length_eq_zero_iff.1 hzero)
  induction k with
  | zero =>
      intro n _
      apply dropPrefixes_of_none
      rw [← Option.not_isSome_iff_eq_none, isSome_dropPrefix?]
      exact ht
  | succ k ih =>
      intro n hn
      rw [runOf_succ, List.append_assoc, List.length_append] at hn
      obtain ⟨m, rfl⟩ := Nat.exists_eq_succ_of_ne_zero (n := n) (by omega)
      rw [runOf_succ, List.append_assoc, dropPrefixes, dropPrefix?_append]
      exact ih m (by omega)

/-- What is left begins after a run, and with no further occurrence. -/
theorem exists_runOf {p : String} (hp : p ≠ "") :
    ∀ n cs, cs.length ≤ n →
      ∃ k, cs = runOf p k ++ dropPrefixes p.toList n cs ∧ ¬p.toList <+: dropPrefixes p.toList n cs := by
  have hpos : 0 < p.toList.length := by
    rw [String.length_toList]
    exact Nat.pos_of_ne_zero fun hzero => hp (String.length_eq_zero_iff.1 hzero)
  intro n
  induction n with
  | zero =>
      intro cs hcs
      obtain rfl := List.length_eq_zero_iff.1 (Nat.le_zero.1 hcs)
      refine ⟨0, rfl, fun h => ?_⟩
      have hle := h.length_le
      rw [dropPrefixes, List.length_nil] at hle
      omega
  | succ n ih =>
      intro cs hcs
      rw [dropPrefixes]
      cases hdrop : dropPrefix? p.toList cs with
      | none =>
          refine ⟨0, rfl, ?_⟩
          rw [← isSome_dropPrefix?, hdrop]
          exact Bool.false_ne_true
      | some rest =>
          -- a round removes one occurrence, and the rest is shorter
          have hcs' := dropPrefix?_eq_some hdrop
          have hlen := congrArg List.length hcs'
          rw [List.length_append] at hlen
          obtain ⟨k, hk, hnot⟩ := ih rest (by omega)
          refine ⟨k + 1, ?_, hnot⟩
          rw [runOf_succ, List.append_assoc, ← hk]
          exact hcs'

/-- **What `trim_start_matches` leaves.** -/
theorem trimStartMatches_eq_iff {p s t : String} (hp : p ≠ "") :
    trimStartMatches p s = t ↔ ∃ k, s.toList = runOf p k ++ t.toList ∧ ¬p.toList <+: t.toList := by
  rw [trimStartMatches]
  constructor
  · rintro rfl
    rw [String.toList_ofList]
    exact exists_runOf hp s.length s.toList (by rw [String.length_toList])
  · rintro ⟨k, hs, ht⟩
    rw [hs, dropPrefixes_runOf hp ht k _ (by rw [← hs, String.length_toList]), String.ofList_toList]

/-- The first piece ends at the first separator. -/
theorem splitChars_head (c : Char) (cs : List Char) :
    (splitChars c cs).head? = some (cs.takeWhile (· != c)) := by
  induction cs with
  | nil => rfl
  | cons d ds ih =>
      rw [splitChars, List.takeWhile_cons]
      by_cases h : d = c
      · rw [if_pos h, h, bne_self_eq_false]
        rfl
      · rw [if_neg h, bne_iff_ne.2 h]
        cases hsplit : splitChars c ds with
        | nil => exact absurd hsplit (splitChars_ne_nil c ds)
        | cons piece rest =>
            rw [hsplit] at ih
            rw [← Option.some.inj ih]
            rfl

theorem split_head (c : Char) (s : String) :
    (split c s).head? = some (String.ofList (s.toList.takeWhile (· != c))) := by
  rw [split, List.head?_map, splitChars_head]
  rfl

end Paac.Text

namespace Paac.Dn

open Text

/-! ## The first component -/

/-- Runs of the texts stand in front of the value, each as long as it can be. -/
def RunsBefore : List String → List Char → List Char → Prop
  | [], cs, v => cs = v
  | p :: ps, cs, v => ∃ k t, cs = runOf p k ++ t ∧ ¬p.toList <+: t ∧ RunsBefore ps t v

/-- Up to its first comma the text is runs of the attribute types and then the value. -/
def FirstSpells (types : List String) (dn value : String) : Prop :=
  ∃ piece rest, dn.toList = piece ++ rest ∧ ',' ∉ piece ∧ (∀ c ∈ rest.head?, c = ',') ∧
    RunsBefore types piece value.toList

/-- The text up to the first comma. -/
def firstComponent (dn : String) : String := ((split ',' dn).head?).getD dn

/-- Remove the types in front, one type after the other. -/
def stripTypes (types : List String) (s : String) : String :=
  types.foldl (fun s type => trimStartMatches type s) s

theorem firstComponent_toList (dn : String) :
    (firstComponent dn).toList = dn.toList.takeWhile (· != ',') := by
  rw [firstComponent, split_head, Option.getD_some, String.toList_ofList]

/-- What is left of a component after its runs of attribute types. -/
theorem stripTypes_eq_iff {types : List String} (htypes : ∀ p ∈ types, p ≠ "") :
    ∀ {s v : String}, stripTypes types s = v ↔ RunsBefore types s.toList v.toList := by
  induction types with
  | nil => exact String.toList_inj.symm
  | cons p ps ih =>
      intro s v
      rw [List.forall_mem_cons] at htypes
      rw [stripTypes, List.foldl_cons]
      refine (ih htypes.2).trans ⟨fun h => ?_, ?_⟩
      · obtain ⟨k, hk, hnot⟩ := (trimStartMatches_eq_iff htypes.1).1 (rfl : trimStartMatches p s = _)
        exact ⟨k, _, hk, hnot, h⟩
      · rintro ⟨k, t, hs, ht, hruns⟩
        have htrim : trimStartMatches p s = String.ofList t :=
          (trimStartMatches_eq_iff htypes.1).2 ⟨k, by rwa [String.toList_ofList],
            by rwa [String.toList_ofList]⟩
        rw [htrim, String.toList_ofList]
        exact hruns

/-- A text is its part before the first comma and the rest. -/
theorem takeWhile_unique {piece rest : List Char} (hpiece : ',' ∉ piece)
    (hrest : ∀ c ∈ rest.head?, c = ',') : (piece ++ rest).takeWhile (· != ',') = piece := by
  have hall : ∀ c ∈ piece, (c != ',') = true := by
    intro c hc
    rw [bne_iff_ne]
    rintro rfl
    exact hpiece hc
  rw [List.takeWhile_append_of_pos hall]
  cases rest with
  | nil => rw [List.takeWhile_nil, List.append_nil]
  | cons c rest =>
      rw [hrest c rfl, List.takeWhile_cons, bne_self_eq_false, if_neg Bool.false_ne_true,
        List.append_nil]

/-- **The value that stripping the first component finds.** -/
theorem stripTypes_first_iff {types : List String} (htypes : ∀ p ∈ types, p ≠ "") {dn v : String} :
    stripTypes types (firstComponent dn) = v ↔ FirstSpells types dn v := by
  rw [stripTypes_eq_iff htypes, firstComponent_toList]
  constructor
  · intro h
    refine ⟨_, dn.toList.dropWhile (· != ','), (List.takeWhile_append_dropWhile).symm, ?_, ?_, h⟩
    · intro hmem
      exact absurd (List.mem_takeWhile_imp hmem) (by decide)
    · intro c hc
      have hnot := List.head?_dropWhile_not (· != ',') dn.toList
      rw [Option.mem_def.1 hc] at hnot
      simpa using hnot
  · rintro ⟨piece, rest, hdn, hpiece, hrest, hruns⟩
    rw [hdn, takeWhile_unique hpiece hrest]
    exact hruns

/-! ## The text of a name -/

/-- An attribute type with a value. -/
structure Ava where
  type : String
  value : String

/-- A relative name: attributes of one entry among its siblings. -/
abbrev Rdn := List Ava

/-- The characters that are escaped wherever they stand. -/
def special : List Char := ['"', '+', ',', ';', '<', '>', '\\']

/-- Is the character escaped at this place of a value? -/
def escaped (atStart atEnd : Bool) (c : Char) : Bool :=
  special.contains c || (atStart && (c == ' ' || c == '#')) || (atEnd && c == ' ')

/-- One character of a value; the null character is written in hexadecimal. -/
def escapeChar (atStart atEnd : Bool) (c : Char) : List Char :=
  if c.toNat = 0 then ['\\', '0', '0'] else if escaped atStart atEnd c then ['\\', c] else [c]

/-- The characters of a value. -/
def escapeChars : Bool → List Char → List Char
  | _, [] => []
  | atStart, c :: cs => escapeChar atStart cs.isEmpty c ++ escapeChars false cs

/-- The text of a value. -/
def escape (value : String) : String := String.ofList (escapeChars true value.toList)

def Ava.print (ava : Ava) : String := ava.type ++ "=" ++ escape ava.value

def printRdn (rdn : Rdn) : String := join "+" (rdn.map Ava.print)

/-- The text of a distinguished name. -/
def print (name : List Rdn) : String := join "," (name.map printRdn)

/-- Escaping makes no equals sign. -/
theorem count_escapeChar (atStart atEnd : Bool) (c : Char) :
    (escapeChar atStart atEnd c).count '=' = [c].count '=' := by
  rw [escapeChar]
  split
  · have hc : c ≠ '=' := by
      rintro rfl
      contradiction
    rw [List.count_singleton, beq_false_of_ne hc]
    rfl
  · split
    · rw [List.count_cons]
      rfl
    · rfl

/-- No equals sign is escaped. -/
theorem count_escapeChars (cs : List Char) :
    ∀ atStart, (escapeChars atStart cs).count '=' = cs.count '=' := by
  induction cs with
  | nil => exact fun _ => rfl
  | cons c cs ih =>
      intro atStart
      rw [escapeChars, List.count_append, count_escapeChar, ih, ← List.count_append,
        List.singleton_append]

theorem comma_escapeChar {atStart atEnd : Bool} {c : Char} (h : c ≠ ',') :
    ',' ∉ escapeChar atStart atEnd c := by
  rw [escapeChar]
  split
  · decide
  · split
    · rw [List.mem_cons, List.mem_singleton, not_or]
      exact ⟨by decide, h.symm⟩
    · rw [List.mem_singleton]
      exact h.symm

/-- A value without a comma has none in its text. -/
theorem comma_escapeChars {cs : List Char} (h : ',' ∉ cs) :
    ∀ atStart, ',' ∉ escapeChars atStart cs := by
  induction cs with
  | nil => exact fun _ => List.not_mem_nil
  | cons c cs ih =>
      intro atStart
      rw [List.mem_cons, not_or] at h
      rw [escapeChars, List.mem_append, not_or]
      exact ⟨comma_escapeChar (Ne.symm h.1), ih h.2 false⟩

theorem length_escapeChar (atStart atEnd : Bool) (c : Char) :
    1 ≤ (escapeChar atStart atEnd c).length := by
  rw [escapeChar]
  split
  · decide
  · split <;> exact Nat.succ_le_succ (Nat.zero_le _)

theorem length_escapeChars (cs : List Char) :
    ∀ atStart, cs.length ≤ (escapeChars atStart cs).length := by
  induction cs with
  | nil => exact fun _ => Nat.le_refl _
  | cons c cs ih =>
      intro atStart
      have hc := length_escapeChar atStart cs.isEmpty c
      have hcs := ih false
      rw [escapeChars, List.length_append, List.length_cons]
      omega

/-- A value that is its own text has no comma. -/
theorem comma_of_escape {cs : List Char} :
    ∀ atStart, escapeChars atStart cs = cs → ',' ∉ cs := by
  induction cs with
  | nil => exact fun _ _ => List.not_mem_nil
  | cons c cs ih =>
      intro atStart h
      have hlen := congrArg List.length h
      have hc := length_escapeChar atStart cs.isEmpty c
      have hcs := length_escapeChars cs false
      rw [escapeChars, List.length_append, List.length_cons] at hlen
      -- the text of each character is that character
      have hone : (escapeChar atStart cs.isEmpty c).length = 1 := by omega
      have hsplit : escapeChar atStart cs.isEmpty c = [c] ∧ escapeChars false cs = cs :=
        List.append_inj (by rw [escapeChars] at h; exact h) hone
      rw [List.mem_cons, not_or]
      refine ⟨?_, ih false hsplit.2⟩
      rintro rfl
      have hescaped : escaped atStart cs.isEmpty ',' = true := by
        rw [escaped, Bool.or_assoc]
        rfl
      rw [escapeChar, if_neg (by decide), if_pos hescaped] at hone
      contradiction

/-- The first component of a name that starts with one attribute. -/
theorem firstComponent_print {type value : String} (htype : ',' ∉ type.toList)
    (hvalue : ',' ∉ value.toList) (rest : List Rdn) :
    firstComponent (print ([⟨type, value⟩] :: rest)) = type ++ "=" ++ escape value := by
  rw [← String.toList_inj, firstComponent_toList]
  have hescape : ',' ∉ (escape value).toList := by
    rw [escape, String.toList_ofList]
    exact comma_escapeChars hvalue true
  -- the first comma comes after the whole first component
  have hpiece : ',' ∉ (type ++ "=" ++ escape value).toList := by
    rw [String.toList_append, String.toList_append, List.mem_append, List.mem_append, not_or, not_or]
    exact ⟨⟨htype, by decide⟩, hescape⟩
  have hrdn : printRdn [⟨type, value⟩] = type ++ "=" ++ escape value := join_singleton _ _
  rw [print, List.map_cons, hrdn]
  cases rest with
  | nil =>
      rw [List.map_nil, join_singleton]
      rw [← List.append_nil (type ++ "=" ++ escape value).toList, takeWhile_unique hpiece, List.append_nil]
      exact fun c hc => absurd hc (Option.not_mem_none c)
  | cons r rest =>
      rw [List.map_cons, join_cons_cons, String.toList_append]
      apply takeWhile_unique hpiece
      intro c hc
      rw [String.toList_append] at hc
      exact (Option.some.inj hc).symm

/-! ## Names by one attribute -/

theorem count_runOf {p : String} (h : p.toList.count '=' = 1) (k : Nat) :
    (runOf p k).count '=' = k := by
  induction k with
  | zero => rfl
  | succ k ih => rw [runOf_succ, List.count_append, h, ih, Nat.add_comm]

/-- Removing runs removes no more than there is. -/
theorem RunsBefore.suffix {types : List String} :
    ∀ {cs v : List Char}, RunsBefore types cs v → v <:+ cs := by
  induction types with
  | nil => exact fun h => h ▸ List.suffix_refl _
  | cons p ps ih =>
      rintro cs v ⟨k, t, rfl, -, h⟩
      exact (ih h).trans (List.suffix_append _ _)

/-- Where no equals sign is lost, nothing is removed. -/
theorem RunsBefore.none {types : List String} (htypes : ∀ p ∈ types, p.toList.count '=' = 1) :
    ∀ {cs v : List Char}, RunsBefore types cs v → cs.count '=' = v.count '=' →
      cs = v ∧ ∀ p ∈ types, ¬p.toList <+: v := by
  induction types with
  | nil => exact fun h _ => ⟨h, fun p hp => absurd hp List.not_mem_nil⟩
  | cons p ps ih =>
      rw [List.forall_mem_cons] at htypes
      rintro cs v ⟨k, t, rfl, hnot, h⟩ hcount
      have hle := h.suffix.sublist.count_le '='
      rw [List.count_append, count_runOf htypes.1] at hcount
      obtain rfl : k = 0 := by omega
      obtain ⟨rfl, hps⟩ := ih htypes.2 h (by omega)
      exact ⟨rfl, List.forall_mem_cons.2 ⟨hnot, hps⟩⟩

theorem runsBefore_self {types : List String} {v : List Char} (h : ∀ p ∈ types, ¬p.toList <+: v) :
    RunsBefore types v v := by
  induction types with
  | nil => rfl
  | cons p ps ih =>
      rw [List.forall_mem_cons] at h
      exact ⟨0, v, rfl, h.1, ih h.2⟩

/-- **The names that give their value back.** A name whose first component is one attribute spells the
value of it, under the types that start with that one, exactly when the value needs no escape and does
not look like one of the types. -/
theorem firstSpells_print_iff {type value : String} {types : List String}
    (htype : ',' ∉ type.toList) (hequals : '=' ∉ type.toList)
    (htypes : ∀ p ∈ types, p.toList.count '=' = 1) (rest : List Rdn) :
    FirstSpells ((type ++ "=") :: types) (print ([⟨type, value⟩] :: rest)) value ↔
      escape value = value ∧ ∀ p ∈ (type ++ "=") :: types, ¬p.toList <+: value.toList := by
  have hone : (type ++ "=").toList.count '=' = 1 := by
    rw [String.toList_append, List.count_append, List.count_eq_zero_of_not_mem hequals]
    rfl
  have hne : ∀ p ∈ (type ++ "=") :: types, p ≠ "" := by
    intro p hp hempty
    have hcount : p.toList.count '=' = 1 := by
      rcases List.mem_cons.1 hp with rfl | hp
      · exact hone
      · exact htypes p hp
    rw [hempty] at hcount
    contradiction
  rw [← stripTypes_first_iff hne, stripTypes_eq_iff hne]
  constructor
  · intro h
    have hvalue : ',' ∉ value.toList := by
      intro hmem
      have hfirst := h.suffix.subset hmem
      rw [firstComponent_toList] at hfirst
      exact absurd (List.mem_takeWhile_imp hfirst) (by decide)
    rw [firstComponent_print htype hvalue, String.toList_append] at h
    obtain ⟨k, t, hcs, hnot, hruns⟩ := h
    -- the value has the equals signs of its text, so one run of one type is removed
    have hcount := congrArg (List.count '=') hcs
    have hle := hruns.suffix.sublist.count_le '='
    rw [List.count_append, List.count_append, hone, count_runOf hone, escape, String.toList_ofList,
      count_escapeChars] at hcount
    have hk : k ≠ 0 := by
      rintro rfl
      rw [show runOf (type ++ "=") 0 ++ t = t from rfl] at hcs
      exact hnot (hcs ▸ List.prefix_append _ _)
    obtain rfl : k = 1 := by omega
    obtain ⟨rfl, hps⟩ := hruns.none htypes (by omega)
    rw [runOf_succ, show runOf (type ++ "=") 0 = [] from rfl, List.append_nil] at hcs
    refine ⟨String.toList_inj.1 (List.append_cancel_left hcs), List.forall_mem_cons.2 ⟨hnot, hps⟩⟩
  · rintro ⟨hescape, hnot⟩
    have hvalue : ',' ∉ value.toList := by
      apply comma_of_escape true
      rw [← String.toList_ofList (l := escapeChars true value.toList)]
      exact congrArg String.toList hescape
    rw [List.forall_mem_cons] at hnot
    rw [firstComponent_print htype hvalue, hescape, String.toList_append]
    refine ⟨1, value.toList, ?_, hnot.1, runsBefore_self hnot.2⟩
    rw [runOf_succ, show runOf (type ++ "=") 0 = [] from rfl, List.append_nil]

end Paac.Dn
