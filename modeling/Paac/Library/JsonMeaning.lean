import Mathlib.Algebra.Field.Rat
import Paac.Library.Serde

set_option autoImplicit false

/-!
# What a JSON value means

Two JSON texts can write the same value in different ways. What a value means (`Json.Meaning`) does
not tell them apart: a number means a rational, however it is written, and an object means a finite
map, whatever the order of its members, in which a later member replaces an earlier one of its name.
Two values are the same (`Json.Same`) when they mean the same.

A reader into dynamic values (`Serde.value`) keeps integers of 64 bits and reads every other number
as a double, which may print as another number; minus zero is a double. How doubles print is a
parameter of this module (`Serde.Doubles`), and nothing is assumed of it: it may print a number as
another one, and refuse numbers that are out of range.

## Main results

- `Json.membersMeaning_ofList`: a map that is read member by member means the object.
- `Serde.membersMeaning_cons_iff`: two objects with the same names mean the same, member by member,
  where a member that is replaced by a later one does not count.
- `Serde.number_same_iff`: a number means what it did exactly when it is kept.
- `Serde.value_same_iff`: the value read means the value given exactly when every number in it,
  apart from those in members that are replaced, is an integer of 64 bits or a double that prints as
  the same number (`Serde.NumbersKept`). The proof is an induction on the value.
-/

namespace Paac

namespace Json

/-! ## Numbers -/

/-- The number that decimal digits write. -/
def digitsValue (cs : List Char) : ℕ := cs.foldl (fun n c => 10 * n + (c.toNat - 48)) 0

/-- The exponent behind its mark. -/
def exponentValue : List Char → ℤ
  | '-' :: cs => -(digitsValue cs : ℤ)
  | '+' :: cs => digitsValue cs
  | cs => digitsValue cs

/-- The number that whole part, fraction and exponent write. -/
def unsignedValue (cs : List Char) : ℚ :=
  let mantissa := cs.takeWhile fun c => c ≠ 'e' && c ≠ 'E'
  let exponent := (cs.dropWhile fun c => c ≠ 'e' && c ≠ 'E').tail
  let whole := mantissa.takeWhile (· ≠ '.')
  let fraction := (mantissa.dropWhile (· ≠ '.')).tail
  digitsValue (whole ++ fraction) * 10 ^ (exponentValue exponent - fraction.length)

/-- The rational that the text of a number writes. -/
def numberValue (text : String) : Option ℚ :=
  if isNumber text.toList then
    match text.toList with
    | '-' :: cs => some (-unsignedValue cs)
    | cs => some (unsignedValue cs)
  else none

/-! ## Values -/

/-- The meaning of a JSON value. A text that is no number means none. -/
inductive Meaning where
  | null
  | bool (b : Bool)
  | num (q : Option ℚ)
  | str (s : String)
  | arr (items : List Meaning)
  | obj (members : String → Option Meaning)

mutual
/-- What a value means. -/
def meaning : Json → Meaning
  | .null => .null
  | .bool b => .bool b
  | .num text => .num (numberValue text)
  | .str s => .str s
  | .arr items => .arr (itemsMeaning items)
  | .obj ms => .obj (membersMeaning ms)

/-- What the items of an array mean. -/
def itemsMeaning : List Json → List Meaning
  | [] => []
  | v :: vs => v.meaning :: itemsMeaning vs

/-- What the members of an object mean: the last one of a name counts. -/
def membersMeaning : List (String × Json) → String → Option Meaning
  | [], _ => none
  | (k, v) :: ms, name => (membersMeaning ms name).or (if k = name then some v.meaning else none)
end

/-- The two values are one and the same, written in two ways perhaps. -/
def Same (v w : Json) : Prop := v.meaning = w.meaning

theorem Same.refl (v : Json) : v.Same v := rfl

theorem membersMeaning_eq (ms : List (String × Json)) (name : String) :
    membersMeaning ms name = (lookupEntry name ms.reverse).map meaning := by
  induction ms with
  | nil => rfl
  | cons m ms ih =>
      obtain ⟨k, v⟩ := m
      rw [membersMeaning, ih, List.reverse_cons, lookupEntry_append]
      cases lookupEntry name ms.reverse with
      | some w => rfl
      | none =>
          by_cases hk : k = name
          · simp [lookupEntry, hk]
          · simp [lookupEntry, hk]

/-- **A map that is read member by member** means the object. -/
theorem membersMeaning_ofList (ms : List (String × Json)) :
    membersMeaning (IndexMap.ofList ms).entries = membersMeaning ms := by
  funext name
  have hentries : (IndexMap.ofList ms).entries = insertEntries [] ms :=
    IndexMap.entries_foldl_insert ms .empty
  rw [membersMeaning_eq, membersMeaning_eq, lookupEntry_reverse (IndexMap.ofList ms).nodup, hentries,
    lookupEntry_insertEntries]
  cases lookupEntry name ms.reverse <;> rfl

/-- The names of an object are those of its members. -/
theorem membersMeaning_eq_none_iff (ms : List (String × Json)) (name : String) :
    membersMeaning ms name = none ↔ name ∉ ms.map Prod.fst := by
  rw [membersMeaning_eq, Option.map_eq_none_iff, lookupEntry_eq_none_iff, List.map_reverse,
    List.mem_reverse]

end Json

namespace Serde

open Json (itemsMeaning membersMeaning numberValue)

/-! ## Dynamic values -/

/-- The text that a number prints as once it was read as a double, none when it is out of range. -/
abbrev Doubles : Type := String → Option String

/-- An integer in the range of `u64` or of `i64`. Minus zero is a double. -/
def isInteger64 (text : String) : Bool :=
  match text.toList with
  | '-' :: cs => cs.all Char.isDigit && 0 < Json.digitsValue cs && Json.digitsValue cs ≤ 2 ^ 63
  | cs => cs.all Char.isDigit && Json.digitsValue cs < 2 ^ 64

variable (doubles : Doubles)

/-- A number: an integer of 64 bits prints as it is written, any other number as a double. -/
def number (text : String) : Decoded String :=
  if isInteger64 text then .ok text
  else
    match doubles text with
    | some printed => .ok printed
    | none => .error (.invalidType "a number in range")

mutual
/-- `Value`: numbers are read, and the members of an object are put into a map. -/
def value : Json → Decoded Json
  | .null => .ok .null
  | .bool b => .ok (.bool b)
  | .num text => do return .num (← number doubles text)
  | .str s => .ok (.str s)
  | .arr items => do return .arr (← values items)
  | .obj ms => do return .obj (IndexMap.ofList (← memberValues ms)).entries

/-- The values of the items of an array. -/
def values : List Json → Decoded (List Json)
  | [] => .ok []
  | v :: vs => do return (← value v) :: (← values vs)

/-- The values of the members of an object. -/
def memberValues : List (String × Json) → Decoded (List (String × Json))
  | [] => .ok []
  | (k, v) :: ms => do return (k, ← value v) :: (← memberValues ms)
end

/-- The number prints as the same number again. -/
def NumberKept (text : String) : Prop :=
  isInteger64 text = true ∨
    ∃ printed, doubles text = some printed ∧ numberValue printed = numberValue text

mutual
/-- Every number prints as the same number again, but for those in members that are replaced. -/
def NumbersKept : Json → Prop
  | .null => True
  | .bool _ => True
  | .num text => NumberKept doubles text
  | .str _ => True
  | .arr items => ItemsKept items
  | .obj ms => MembersKept ms

def ItemsKept : List Json → Prop
  | [] => True
  | v :: vs => NumbersKept v ∧ ItemsKept vs

def MembersKept : List (String × Json) → Prop
  | [] => True
  | (k, v) :: ms => (k ∈ ms.map Prod.fst ∨ NumbersKept v) ∧ MembersKept ms
end

variable {doubles}

theorem number_same_iff {text printed : String} (h : number doubles text = .ok printed) :
    numberValue printed = numberValue text ↔ NumberKept doubles text := by
  unfold number at h
  split at h
  · rename_i hint
    obtain rfl := Except.ok.inj h
    exact iff_of_true rfl (Or.inl hint)
  · rename_i hint
    split at h
    · rename_i t ht
      obtain rfl := Except.ok.inj h
      simp [NumberKept, hint, ht]
    · cases h

/-- A member in front of others: the one of its name behind it replaces it. -/
theorem membersMeaning_cons_iff {k : String} {v w : Json} {ms ns : List (String × Json)}
    (hkeys : ns.map Prod.fst = ms.map Prod.fst) :
    membersMeaning ((k, w) :: ns) = membersMeaning ((k, v) :: ms) ↔
      (k ∈ ms.map Prod.fst ∨ w.Same v) ∧ membersMeaning ns = membersMeaning ms := by
  have hnone : ∀ name, membersMeaning ns name = none ↔ membersMeaning ms name = none := fun name => by
    rw [Json.membersMeaning_eq_none_iff, Json.membersMeaning_eq_none_iff, hkeys]
  constructor
  · intro h
    have hat := fun name => congrFun h name
    simp only [membersMeaning] at hat
    refine ⟨?_, funext fun name => ?_⟩
    · rw [or_iff_not_imp_left]
      intro hmem
      have hms := (Json.membersMeaning_eq_none_iff ms k).2 hmem
      have hk := hat k
      rw [hms, (hnone k).2 hms] at hk
      simpa [Json.Same] using hk
    · -- where the rest has no member of the name, neither has what was read of it
      cases hms : membersMeaning ms name with
      | none => exact (hnone name).2 hms
      | some x =>
          obtain ⟨y, hns⟩ : ∃ y, membersMeaning ns name = some y := by
            rw [← Option.ne_none_iff_exists']
            intro hns
            rw [(hnone name).1 hns] at hms
            cases hms
          have hname := hat name
          rw [hms, hns] at hname
          rw [hns]
          exact hname
  · rintro ⟨hhead, hrest⟩
    funext name
    rw [membersMeaning, membersMeaning, hrest]
    rcases hhead with hmem | hsame
    · by_cases hk : k = name
      · have hsome : membersMeaning ms name ≠ none := by
          rw [← hk, Ne, Json.membersMeaning_eq_none_iff, not_not]
          exact hmem
        obtain ⟨x, hx⟩ := Option.ne_none_iff_exists'.1 hsome
        rw [hx]
        rfl
      · rw [if_neg hk, if_neg hk]
    · rw [show w.meaning = v.meaning from hsame]

mutual
/-- **The value read is the value given** exactly when its numbers are kept. -/
theorem value_same_iff : ∀ {v w : Json}, value doubles v = .ok w →
    (w.Same v ↔ NumbersKept doubles v)
  | .null, w, h => by
      rw [← Except.ok.inj h]
      exact iff_of_true rfl trivial
  | .bool b, w, h => by
      rw [← Except.ok.inj h]
      exact iff_of_true rfl trivial
  | .str s, w, h => by
      rw [← Except.ok.inj h]
      exact iff_of_true rfl trivial
  | .num text, w, h => by
      rw [value] at h
      obtain ⟨printed, hprinted, h⟩ := bind_eq_ok.1 h
      rw [← Except.ok.inj h, NumbersKept, ← number_same_iff hprinted]
      simp [Json.Same, Json.meaning]
  | .arr items, w, h => by
      rw [value] at h
      obtain ⟨ws, hws, h⟩ := bind_eq_ok.1 h
      rw [← Except.ok.inj h, NumbersKept, ← values_same_iff hws]
      simp [Json.Same, Json.meaning]
  | .obj ms, w, h => by
      rw [value] at h
      obtain ⟨ns, hns, h⟩ := bind_eq_ok.1 h
      rw [← Except.ok.inj h, NumbersKept, ← (memberValues_same_iff hns).2]
      simp [Json.Same, Json.meaning, Json.membersMeaning_ofList]

theorem values_same_iff : ∀ {vs ws : List Json}, values doubles vs = .ok ws →
    (itemsMeaning ws = itemsMeaning vs ↔ ItemsKept doubles vs)
  | [], ws, h => by
      rw [← Except.ok.inj h]
      exact iff_of_true rfl trivial
  | v :: vs, ws, h => by
      rw [values] at h
      obtain ⟨w, hw, h⟩ := bind_eq_ok.1 h
      obtain ⟨ws', hws, h⟩ := bind_eq_ok.1 h
      rw [← Except.ok.inj h, ItemsKept, ← value_same_iff hw, ← values_same_iff hws]
      simp [itemsMeaning, Json.Same]

theorem memberValues_same_iff : ∀ {ms ns : List (String × Json)},
    memberValues doubles ms = .ok ns → ns.map Prod.fst = ms.map Prod.fst ∧
      (membersMeaning ns = membersMeaning ms ↔ MembersKept doubles ms)
  | [], ns, h => by
      rw [← Except.ok.inj h]
      exact ⟨rfl, iff_of_true rfl trivial⟩
  | (k, v) :: ms, ns, h => by
      rw [memberValues] at h
      obtain ⟨w, hw, h⟩ := bind_eq_ok.1 h
      obtain ⟨ns', hns, h⟩ := bind_eq_ok.1 h
      obtain ⟨hkeys, hrest⟩ := memberValues_same_iff hns
      rw [← Except.ok.inj h, membersMeaning_cons_iff hkeys, MembersKept, value_same_iff hw, hrest]
      exact ⟨by simp [hkeys], Iff.rfl⟩
end

/-- The items of a typed list of dynamic values. -/
theorem items_same_iff {items ws : List Json}
    (h : List.Forall₂ (fun item w => value doubles item = .ok w) items ws) :
    (Json.arr ws).Same (.arr items) ↔ NumbersKept doubles (.arr items) := by
  have hvalues : values doubles items = .ok ws := by
    induction h with
    | nil => rfl
    | cons hitem _ ih =>
        rw [values, hitem, ih]
        rfl
  apply value_same_iff
  rw [value, hvalues]
  rfl

end Serde

end Paac
