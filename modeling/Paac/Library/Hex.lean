import Paac.Library.Text

set_option autoImplicit false

/-!
# Bytes and hexadecimal text

Byte strings, arrays of a fixed number of bytes as a subtype that carries its length, and the
hexadecimal text that keys and digests are stored as: two lower-case digits for each byte, the high
one first. A slice becomes a fixed array only when its length fits, so no array of another length
can be built.

## Main results

- `encode_injective`: hexadecimal text determines the bytes, so two digests with one text are equal.
- `length_encode`, `isDigit_of_mem_encode`: how long the text is, and which characters it has.
- `trim_encode`: the text has no white space at its ends, so a key file that is read and trimmed is
  the text that was written.
-/

namespace Paac

abbrev Bytes : Type := List UInt8

/-- An array of `n` bytes. -/
abbrev FixedBytes (n : Nat) : Type := { bs : Bytes // bs.length = n }

/-- `TryInto` from a slice: the length must fit. -/
def FixedBytes.ofBytes? (n : Nat) (bs : Bytes) : Option (FixedBytes n) :=
  if h : bs.length = n then some ⟨bs, h⟩ else none

theorem FixedBytes.ofBytes?_coe {n : Nat} (bs : FixedBytes n) : ofBytes? n bs = some bs := by
  rw [ofBytes?, dif_pos bs.2]

namespace Hex

/-- The digit of a number below 16. -/
def digit (n : Nat) : Char := if n < 10 then Char.ofNat (48 + n) else Char.ofNat (87 + n)

/-- `hex::encode`: two lower-case digits for each byte. -/
def encode (bs : Bytes) : String :=
  String.ofList (bs.flatMap fun b => [digit (b.toNat / 16), digit (b.toNat % 16)])

/-- The digits `encode` uses. -/
def isDigit (c : Char) : Bool := ('0' ≤ c && c ≤ '9') || ('a' ≤ c && c ≤ 'f')

theorem isDigit_digit {n : Nat} (h : n < 16) : isDigit (digit n) = true := by
  interval_cases n <;> decide

theorem digit_injective {m n : Nat} (hm : m < 16) (hn : n < 16) (h : digit m = digit n) :
    m = n := by
  have hall : ∀ i < 16, ∀ j < 16, digit i = digit j → i = j := by decide
  exact hall m hm n hn h

theorem digits_lt (b : UInt8) : b.toNat / 16 < 16 ∧ b.toNat % 16 < 16 := by
  have hlt : b.toNat < 256 := b.toNat_lt
  omega

theorem encode_cons (b : UInt8) (bs : Bytes) : (encode (b :: bs)).toList =
    digit (b.toNat / 16) :: digit (b.toNat % 16) :: (encode bs).toList := by
  simp only [encode, String.toList_ofList, List.flatMap_cons, List.cons_append, List.nil_append]

theorem length_encode (bs : Bytes) : (encode bs).toList.length = 2 * bs.length := by
  induction bs with
  | nil => rfl
  | cons b bs ih =>
      rw [encode_cons, List.length_cons, List.length_cons, ih, List.length_cons]
      omega

theorem isDigit_of_mem_encode {bs : Bytes} {c : Char} (h : c ∈ (encode bs).toList) :
    isDigit c = true := by
  induction bs with
  | nil => cases h
  | cons b bs ih =>
      rw [encode_cons] at h
      rcases List.mem_cons.1 h with rfl | h
      · exact isDigit_digit (digits_lt b).1
      · rcases List.mem_cons.1 h with rfl | h
        · exact isDigit_digit (digits_lt b).2
        · exact ih h

/-- **Hexadecimal text determines the bytes.** -/
theorem encode_injective {bs bs' : Bytes} (h : encode bs = encode bs') : bs = bs' := by
  rw [← String.toList_inj] at h
  induction bs generalizing bs' with
  | nil =>
      cases bs' with
      | nil => rfl
      | cons b' bs' =>
          rw [encode_cons] at h
          cases h
  | cons b bs ih =>
      cases bs' with
      | nil =>
          rw [encode_cons] at h
          cases h
      | cons b' bs' =>
          rw [encode_cons, encode_cons, List.cons.injEq, List.cons.injEq] at h
          obtain ⟨hhigh, hlow, hrest⟩ := h
          have hdiv := digit_injective (digits_lt b).1 (digits_lt b').1 hhigh
          have hmod := digit_injective (digits_lt b).2 (digits_lt b').2 hlow
          have hb : b.toNat = b'.toNat := by omega
          rw [UInt8.toNat_inj.1 hb, ih hrest]

/-- A hexadecimal digit is no whitespace. -/
theorem isWhitespace_of_isDigit {c : Char} (h : isDigit c = true) :
    Text.isWhitespace c = false := by
  have hrange : (48 ≤ c.toNat ∧ c.toNat ≤ 57) ∨ (97 ≤ c.toNat ∧ c.toNat ≤ 102) := by
    simp only [isDigit, Bool.or_eq_true, Bool.and_eq_true, decide_eq_true_eq] at h
    rcases h with ⟨h₁, h₂⟩ | ⟨h₁, h₂⟩
    · exact Or.inl ⟨h₁, h₂⟩
    · exact Or.inr ⟨h₁, h₂⟩
  simp only [Text.isWhitespace, Bool.or_eq_false_iff, Bool.and_eq_false_iff,
    decide_eq_false_iff_not, beq_eq_false_iff_ne]
  omega

/-- Hexadecimal text has nothing to trim. -/
theorem trim_encode (bs : Bytes) : Text.trim (encode bs) = encode bs := by
  have hnone : ∀ c ∈ (encode bs).toList, ¬Text.isWhitespace c = true := by
    intro c hc
    rw [isWhitespace_of_isDigit (isDigit_of_mem_encode hc)]
    exact Bool.false_ne_true
  have hstart : (encode bs).toList.dropWhile Text.isWhitespace = (encode bs).toList := by
    rw [List.dropWhile_eq_self_iff]
    exact fun hlen => hnone _ (List.getElem_mem hlen)
  have hend : List.rdropWhile Text.isWhitespace (encode bs).toList = (encode bs).toList := by
    rw [List.rdropWhile_eq_self_iff]
    exact fun hne => hnone _ (List.getLast_mem hne)
  rw [Text.trim, hstart, hend, String.ofList_toList]

end Hex

end Paac
