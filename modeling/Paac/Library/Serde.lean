import Paac.Library.Effect
import Paac.Library.JsonPrinted

set_option autoImplicit false

/-!
# Derived encodings

The JSON forms that derived serializers write and derived deserializers read: a struct is an object
with one member for each field, in order. Reading ignores members it does not know, accepts an array
of the fields in order, and fails on a required field that is missing. Where several things are
wrong, only that reading fails is modelled, not which of them is reported.

Each type of the source has a writer and a reader made of these functions, field by field, so a
reader can compare the two with the struct's attributes: `required` for a field without a default,
`defaulted` for one with `#[serde(default)]`, `optional` for an `Option`.

## Main results

- `string_ok`, `boolean_ok`, `option_ok`, `vec_ok`: what a value was read from, so that a caller
  never unfolds a reader.
- `required_ok`, `defaulted_ok`, `optional_ok`: the same of a field: the value it has, and that
  every member of its name is what was read.
- `u64_ofU64`, `option_ofOption`, `vec_ofList`, `indexMap_ofIndexMap`: each reader undoes its
  writer.
- `fromText_toText`: a value is read back from its text when its encoding can be printed.
- `writable_u64`, `writable_ofOption`, `writable_ofList`, `writable_ofIndexMap`: which encodings
  can.
-/

namespace Paac

namespace Serde

inductive Error where
  | notJson
  | missingField (name : String)
  | duplicateField (name : String)
  | unknownVariant (name : String)
  | invalidType (expected : String)
  | invalidLength (found : Nat)
  deriving DecidableEq, Repr

abbrev Decoded (α : Type) : Type := Except Error α

variable {α β : Type}

/-- `from_str`. -/
def fromText (read : Json → Decoded α) (text : String) : Decoded α :=
  match Json.parse text with
  | some j => read j
  | none => .error .notJson

/-! ## Values -/

/-- `String`. -/
def string : Json → Decoded String
  | .str s => .ok s
  | _ => .error (.invalidType "a string")

/-- `bool`. -/
def boolean : Json → Decoded Bool
  | .bool b => .ok b
  | _ => .error (.invalidType "a boolean")

/-- `u64`. -/
def u64 : Json → Decoded UInt64
  | .num text =>
      match text.toNat? with
      | some n => if h : n < 2 ^ 64 then .ok (.ofNatLT n h) else .error (.invalidType "u64")
      | none => .error (.invalidType "u64")
  | _ => .error (.invalidType "u64")

/-- `Option`: null is none. -/
def option (read : Json → Decoded α) : Json → Decoded (Option α)
  | .null => .ok none
  | v => some <$> read v

/-- `Vec`. -/
def vec (read : Json → Decoded α) : Json → Decoded (List α)
  | .arr items => items.mapM read
  | _ => .error (.invalidType "a sequence")

/-- The values of the members of an object. -/
def readMembers (read : Json → Decoded α) : List (String × Json) → Decoded (List (String × α))
  | [] => .ok []
  | (k, v) :: ms => do return (k, ← read v) :: (← readMembers read ms)

/-- `IndexMap`: a later member replaces an earlier one of its name. -/
def indexMap (read : Json → Decoded α) : Json → Decoded (IndexMap α)
  | .obj ms => IndexMap.ofList <$> readMembers read ms
  | _ => .error (.invalidType "a map")

/-- A unit variant: its name, or an object with that name and null. -/
def variant (table : List (String × α)) : Json → Decoded α
  | .str s => ((lookupEntry s table).map Except.ok).getD (.error (.unknownVariant s))
  | .obj [(s, .null)] => ((lookupEntry s table).map Except.ok).getD (.error (.unknownVariant s))
  | _ => .error (.invalidType "string or map")

/-! ## Structs -/

/-- The fields of a struct by name; of an array, the first ones are needed. -/
def fields (names : List String) (needed : Nat) : Json → Decoded (List (String × Json))
  | .obj ms => .ok ms
  | .arr items =>
      if needed ≤ items.length ∧ items.length ≤ names.length then .ok (names.zip items)
      else .error (.invalidLength items.length)
  | _ => .error (.invalidType "a struct")

/-- The member of a name. -/
def member (name : String) (ms : List (String × Json)) : Decoded (Option Json) :=
  match ms.filter fun m => m.1 = name with
  | [] => .ok none
  | [m] => .ok (some m.2)
  | _ => .error (.duplicateField name)

/-- A field without a default. -/
def required (name : String) (read : Json → Decoded α) (ms : List (String × Json)) : Decoded α := do
  match ← member name ms with
  | some v => read v
  | none => .error (.missingField name)

/-- A field with a default. -/
def defaulted (name : String) (read : Json → Decoded α) (default : α) (ms : List (String × Json)) :
    Decoded α := do
  match ← member name ms with
  | some v => read v
  | none => .ok default

/-- An optional field: one that is missing is none, with `#[serde(default)]` or without. -/
def optional (name : String) (read : Json → Decoded α) (ms : List (String × Json)) :
    Decoded (Option α) := defaulted name (option read) none ms

/-- The value of a field, in an object or in an array of the fields; null when it is missing. -/
def fieldValue (names : List String) (name : String) (j : Json) : Json :=
  ((fields names 0 j).toOption.bind (lookupEntry name)).getD .null

/-! ## What was read -/

theorem string_ok {j : Json} {s : String} (h : string j = .ok s) : j = .str s := by
  unfold string at h
  split at h
  · rw [Except.ok.inj h]
  · cases h

theorem boolean_ok {j : Json} {b : Bool} (h : boolean j = .ok b) : j = .bool b := by
  unfold boolean at h
  split at h
  · rw [Except.ok.inj h]
  · cases h

/-- Null is read as nothing, everything else by the reader. -/
theorem option_ok {read : Json → Decoded α} {j : Json} {o : Option α}
    (h : option read j = .ok o) :
    (j = .null ∧ o = none) ∨ ∃ a, j ≠ .null ∧ o = some a ∧ read j = .ok a := by
  unfold option at h
  split at h
  · exact Or.inl ⟨rfl, (Except.ok.inj h).symm⟩
  · rename_i hnull
    cases hr : read j with
    | error e =>
        rw [hr] at h
        cases h
    | ok a =>
        rw [hr] at h
        exact Or.inr ⟨a, hnull, (Except.ok.inj h).symm, rfl⟩

/-- A sequence is read item by item. -/
theorem vec_ok {read : Json → Decoded α} {j : Json} {as : List α} (h : vec read j = .ok as) :
    ∃ items, j = .arr items ∧ List.Forall₂ (fun item a => read item = .ok a) items as := by
  unfold vec at h
  split at h
  · rename_i items
    refine ⟨items, rfl, ?_⟩
    induction items generalizing as with
    | nil =>
        obtain rfl := Except.ok.inj h
        exact .nil
    | cons item items ih =>
        -- every item is read
        rw [List.mapM_cons] at h
        cases hr : read item with
        | error e =>
            rw [hr] at h
            cases h
        | ok a =>
            cases hrest : items.mapM read with
            | error e =>
                rw [hr, hrest] at h
                cases h
            | ok rest =>
                rw [hr, hrest] at h
                obtain rfl := Except.ok.inj h
                exact .cons hr (ih hrest)
  · cases h

/-- The one member of a name is found, and it is the only one. -/
theorem member_ok {name : String} {ms : List (String × Json)} {o : Option Json}
    (h : member name ms = .ok o) :
    lookupEntry name ms = o ∧ ∀ v, (name, v) ∈ ms → o = some v := by
  have hlookup : ∀ ms : List (String × Json),
      lookupEntry name ms = ((ms.filter fun m => m.1 = name).head?).map Prod.snd := by
    intro ms
    induction ms with
    | nil => rfl
    | cons m ms ih =>
        rcases m with ⟨k, v⟩
        by_cases hk : k = name
        · simp [lookupEntry, hk]
        · simp [lookupEntry, hk, ih]
  have hmem : ∀ v, (name, v) ∈ ms → (name, v) ∈ ms.filter fun m => m.1 = name := by
    intro v hv
    exact List.mem_filter.2 ⟨hv, by simp⟩
  unfold member at h
  rw [hlookup]
  split at h
  · rename_i hnil
    obtain rfl := Except.ok.inj h
    rw [hnil] at hmem ⊢
    exact ⟨rfl, fun v hv => absurd (hmem v hv) List.not_mem_nil⟩
  · rename_i m hone
    obtain rfl := Except.ok.inj h
    rw [hone] at hmem ⊢
    refine ⟨rfl, fun v hv => ?_⟩
    rw [← List.mem_singleton.1 (hmem v hv)]
  · cases h

/-- Fewer members may be needed. -/
theorem fields_zero {names : List String} {needed : Nat} {j : Json} {ms : List (String × Json)}
    (h : fields names needed j = .ok ms) : fields names 0 j = .ok ms := by
  unfold fields at h ⊢
  split at h
  · exact h
  · split at h
    · rename_i hlen
      rw [if_pos ⟨Nat.zero_le _, hlen.2⟩]
      exact h
    · cases h
  · cases h

/-- A member that is there is read, with or without a default. -/
theorem defaulted_ok {name : String} {read : Json → Decoded α} {ms : List (String × Json)}
    {default a : α} (h : defaulted name read default ms = .ok a) :
    ∀ v, (name, v) ∈ ms → read v = .ok a := by
  unfold defaulted at h
  cases hm : member name ms with
  | error e =>
      rw [hm] at h
      cases h
  | ok o =>
      rw [hm] at h
      obtain ⟨-, honly⟩ := member_ok hm
      intro v hv
      obtain rfl := honly v hv
      exact h

section

variable {names : List String} {needed : Nat} {name : String} {read : Json → Decoded α} {j : Json}
  {ms : List (String × Json)} (hms : fields names needed j = .ok ms)

include hms

theorem fieldValue_of_fields : fieldValue names name j = (lookupEntry name ms).getD .null := by
  rw [fieldValue, fields_zero hms]
  rfl

/-- A field is read from its value, wherever it stands. -/
theorem required_ok {a : α} (h : required name read ms = .ok a) :
    read (fieldValue names name j) = .ok a ∧ ∀ v, (name, v) ∈ ms → read v = .ok a := by
  unfold required at h
  cases hm : member name ms with
  | error e =>
      rw [hm] at h
      cases h
  | ok o =>
      rw [hm] at h
      obtain ⟨hlookup, honly⟩ := member_ok hm
      cases o with
      | none => cases h
      | some v =>
          rw [fieldValue_of_fields hms, hlookup]
          refine ⟨h, fun v' hv' => ?_⟩
          rw [← Option.some.inj (honly v' hv')]
          exact h

/-- A missing optional field is read as null. -/
theorem optional_ok {o : Option α} (h : optional name read ms = .ok o) :
    option read (fieldValue names name j) = .ok o ∧
      ∀ v, (name, v) ∈ ms → option read v = .ok o := by
  refine ⟨?_, defaulted_ok h⟩
  unfold optional defaulted at h
  cases hm : member name ms with
  | error e =>
      rw [hm] at h
      cases h
  | ok m =>
      rw [hm] at h
      rw [fieldValue_of_fields hms, (member_ok hm).1]
      cases m with
      | none => exact h
      | some v => exact h

end

/-! ## Encodings -/

/-- An optional value. -/
def ofOption (write : α → Json) : Option α → Json
  | some a => write a
  | none => .null

/-- A sequence. -/
def ofList (write : α → Json) (as : List α) : Json := .arr (as.map write)

/-- A map. -/
def ofIndexMap (write : α → Json) (m : IndexMap α) : Json :=
  .obj (m.entries.map fun e => (e.1, write e.2))

/-- An unsigned number. -/
def ofU64 (n : UInt64) : Json := .num (toString n.toNat)

/-! ## Round trips -/

/-- What was printed is read as the value it was printed from. -/
theorem fromText_toText (read : Json → Decoded α) {j : Json} (h : j.Writable) :
    fromText read j.toText = read j := by
  rw [fromText, Json.parse_toText j h]

theorem u64_ofU64 (n : UInt64) : u64 (ofU64 n) = .ok n := by
  have hread : (toString n.toNat).toNat? = some n.toNat := Nat.toNat?_repr _
  simp only [ofU64, u64, hread]
  rw [dif_pos n.toNat_lt]
  rfl

/-- Null is written for none only. -/
theorem option_ofOption {read : Json → Decoded α} {write : α → Json}
    (h : ∀ a, read (write a) = .ok a) (hnull : ∀ a, write a ≠ .null) (o : Option α) :
    option read (ofOption write o) = .ok o := by
  cases o with
  | none => rfl
  | some a =>
      have hoption : ∀ v : Json, v ≠ .null → option read v = some <$> read v := by
        intro v hv
        cases v <;> first | rfl | exact absurd rfl hv
      rw [ofOption, hoption _ (hnull a), h a]
      rfl

/-- A list is read back when its items are. -/
theorem vec_ofList {read : Json → Decoded α} {write : α → Json} {as : List α}
    (h : ∀ a ∈ as, read (write a) = .ok a) : vec read (ofList write as) = .ok as := by
  unfold vec ofList
  induction as with
  | nil => rfl
  | cons a as ih =>
      have htail := ih fun b hb => h b (List.mem_cons_of_mem _ hb)
      simp only at htail
      simp only [List.map_cons, List.mapM_cons, h a List.mem_cons_self, htail]
      rfl

/-- Members are read back when their values are. -/
theorem readMembers_map {read : Json → Decoded α} {write : α → Json}
    (h : ∀ a, read (write a) = .ok a) (es : List (String × α)) :
    readMembers read (es.map fun e => (e.1, write e.2)) = .ok es := by
  induction es with
  | nil => rfl
  | cons e es ih =>
      rw [List.map_cons, readMembers, h, ih]
      rfl

theorem indexMap_ofIndexMap {read : Json → Decoded α} {write : α → Json}
    (h : ∀ a, read (write a) = .ok a) (m : IndexMap α) :
    indexMap read (ofIndexMap write m) = .ok m := by
  rw [ofIndexMap, indexMap, readMembers_map h]
  exact congrArg Except.ok (IndexMap.ofList_entries m)

/-! ## What is written can be read -/

theorem skipDigits_digits {ds : List Char} (h : ∀ c ∈ ds, c.isDigit = true) :
    (Json.skipDigits ds).2 = [] := by
  induction ds with
  | nil => rfl
  | cons d ds ih =>
      rw [Json.skipDigits, if_pos (h d List.mem_cons_self)]
      exact ih fun c hc => h c (List.mem_cons_of_mem d hc)

/-- Digits are a number when no zero leads them. -/
theorem isNumber_digits {d : Char} {ds : List Char} (h : ∀ c ∈ d :: ds, c.isDigit = true)
    (hlead : d = '0' → ds = []) : Json.isNumber (d :: ds) = true := by
  have hd := h d List.mem_cons_self
  unfold Json.isNumber
  split
  · rename_i digits hdigits
    rw [List.cons.injEq] at hdigits
    rw [hdigits.1] at hd
    cases hd
  · dsimp only
    split
    · rename_i rest heq
      rw [List.cons.injEq] at heq
      rw [← heq.2, hlead heq.1]
      rfl
    · rename_i c rest _ heq
      rw [List.cons.injEq] at heq
      rw [← heq.1, ← heq.2, hd, skipDigits_digits fun c hc => h c (List.mem_cons_of_mem d hc)]
      rfl
    · rename_i heq
      cases heq

/-- Only the numeral of zero starts with a zero. -/
theorem head_toDigits {n : Nat} (h : 0 < n) : (Nat.toDigits 10 n).head? ≠ some '0' := by
  induction n using Nat.strong_induction_on with
  | _ n ih =>
      by_cases hn : n < 10
      · rw [Nat.toDigits_of_lt_base hn, List.head?_cons, Ne, Option.some.injEq,
          Nat.digitChar_eq_zero]
        omega
      · have hdiv := ih (n / 10) (by omega) (by omega)
        rw [Nat.toDigits_of_base_le (by decide) (by omega),
          List.head?_append_of_ne_nil _ Nat.toDigits_ne_nil]
        exact hdiv

/-- A 64-bit integer can be printed. -/
theorem writable_u64 (n : UInt64) : (ofU64 n).Writable := by
  have htext : (toString n.toNat).toList = Nat.toDigits 10 n.toNat := Nat.toList_repr
  show Json.isNumber (toString n.toNat).toList = true
  rw [htext]
  have hdigits : ∀ c ∈ Nat.toDigits 10 n.toNat, c.isDigit = true :=
    fun c hc => Nat.isDigit_of_mem_toDigits (by decide) (by decide) hc
  cases hcs : Nat.toDigits 10 n.toNat with
  | nil => exact absurd hcs Nat.toDigits_ne_nil
  | cons d ds =>
      rw [hcs] at hdigits
      apply isNumber_digits hdigits
      intro hd
      by_cases hzero : n.toNat = 0
      · rw [hzero, Nat.toDigits_zero, List.cons.injEq] at hcs
        exact hcs.2.symm
      · have hhead := head_toDigits (Nat.pos_of_ne_zero hzero)
        rw [hcs, List.head?_cons, hd] at hhead
        exact absurd rfl hhead

theorem writable_ofOption {write : α → Json} (h : ∀ a, (write a).Writable) (o : Option α) :
    (ofOption write o).Writable := by
  cases o with
  | none => trivial
  | some a => exact h a

theorem writable_ofList {write : α → Json} (h : ∀ a, (write a).Writable) (as : List α) :
    (ofList write as).Writable :=
  Json.itemsWritable_map h as

theorem writable_ofIndexMap {write : α → Json} (h : ∀ a, (write a).Writable) (m : IndexMap α) :
    (ofIndexMap write m).Writable := by
  refine ⟨?_, Json.membersWritable_map h m.entries⟩
  rw [List.map_map]
  exact m.nodup

end Serde

end Paac
