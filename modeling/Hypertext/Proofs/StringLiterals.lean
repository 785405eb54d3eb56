import Hypertext.Proofs.Barren
import Hypertext.Script.Escape

set_option autoImplicit false

/-! # String literals mean their text

A text is written as a string literal character by character, and the escapes of templates are
replaced in the same way. This file proves that each written character is read as itself, whatever
follows (`Escape.cookFrom_escapeLiteral`). So the body of a literal means its text, and since the
scanner takes exactly the literal from any script that begins with it, no two texts have literals
that can be taken for each other (`stringLiteral_faithful`).
-/

namespace Hypertext
namespace Script

/-! ## Four hexadecimal digits -/

theorem hexDigit?_digitChar {d : Nat} (h : d < 16) :
    Text.hexDigit? (Nat.digitChar d) = some d := by
  have hall : ∀ d < 16, Text.hexDigit? (Nat.digitChar d) = some d := by decide
  exact hall d h

/-- A number with zeros in front of it, from its last digit. -/
theorem padded_concat {k : Nat} (hk : 0 < k) (n : Nat) :
    List.replicate (k + 1 - (Text.ofNatHex n).length) '0' ++ Text.ofNatHex n
      = List.replicate (k - (Text.ofNatHex (n / 16)).length) '0' ++ Text.ofNatHex (n / 16)
        ++ [Nat.digitChar (n % 16)] := by
  unfold Text.ofNatHex
  by_cases hn : n < 16
  · -- the number has one digit, and what stands before it are zeros only
    obtain ⟨k, rfl⟩ := Nat.exists_eq_add_of_lt hk
    rw [Nat.toDigits_of_lt_base hn, Nat.div_eq_of_lt hn, Nat.mod_eq_of_lt hn]
    simp [List.replicate_succ']
  · rw [Nat.toDigits_of_base_le (by decide) (Nat.le_of_not_lt hn)]
    simp

theorem fourDigits_eq {n : Nat} (h : n < 0x10000) :
    fourDigits n = [n / 16 / 16 / 16, n / 16 / 16 % 16, n / 16 % 16, n % 16].map Nat.digitChar := by
  have hlead : Text.ofNatHex (n / 16 / 16 / 16) = [Nat.digitChar (n / 16 / 16 / 16)] :=
    Nat.toDigits_of_lt_base (by omega)
  rw [fourDigits, padded_concat (by decide), padded_concat (by decide), padded_concat (by decide),
    hlead]
  rfl

namespace Escape

/-- **Four digits are read back** as the number that they were written for. -/
theorem hexDigits?_fourDigits {n : Nat} (h : n < 0x10000) (t : Text) :
    hexDigits? 4 0 (fourDigits n ++ t) = some (UInt32.ofNat n, t) := by
  have hsum : n
      = ((n / 16 / 16 / 16 * 16 + n / 16 / 16 % 16) * 16 + n / 16 % 16) * 16 + n % 16 := by
    omega
  rw [fourDigits_eq h]
  simp only [hexDigits?, List.map_cons, List.map_nil, List.cons_append, List.nil_append]
  rw [hexDigit?_digitChar (by omega : n / 16 / 16 / 16 < 16),
    hexDigit?_digitChar (by omega : n / 16 / 16 % 16 < 16),
    hexDigit?_digitChar (by omega : n / 16 % 16 < 16), hexDigit?_digitChar (by omega : n % 16 < 16)]
  conv_rhs => rw [hsum]
  simp

/-- The code point of four digits, if it cannot be the first half of a pair. -/
theorem codePoint?_fourDigits {n : Nat} (h : n < 0xD800) (t : Text) :
    codePoint? (fourDigits n ++ t) = some (UInt32.ofNat n, t) := by
  have hdigits := hexDigits?_fourDigits (by omega : n < 0x10000) t
  have hlead : ¬(0xD800 ≤ UInt32.ofNat n ∧ UInt32.ofNat n < 0xDC00) := by
    rintro ⟨hle, -⟩
    rw [UInt32.le_iff_toNat_le,
      UInt32.toNat_ofNat_of_lt' (by simp only [UInt32.size]; omega)] at hle
    exact absurd hle (by simpa using h)
  unfold codePoint?
  split
  · next rest heq =>
      -- an opening brace is no digit
      rw [fourDigits_eq (by omega)] at heq
      have hbrace := hexDigit?_digitChar (by omega : n / 16 / 16 / 16 < 16)
      rw [(List.cons.inj heq).1] at hbrace
      cases hbrace
  · rw [hdigits]
    exact if_neg hlead

/-! ## One character -/

theorem charOfCode?_toNat (c : Char) : Text.charOfCode? c.toNat = some c := by
  have hvalid : c.toNat.isValidChar := c.valid
  rw [Text.charOfCode?, dif_pos hvalid]
  rfl

/-- A character written as an escape of four digits means itself. -/
theorem meaning?_fourDigits {c : Char} (h : c.toNat < 0xD800) (t : Text) :
    meaning? 'u' (fourDigits c.toNat ++ t) = some ([c], t) := by
  have hcode : (UInt32.ofNat c.toNat).toNat = c.toNat :=
    UInt32.toNat_ofNat_of_lt' (by simp only [UInt32.size]; omega)
  simp only [meaning?, codePoint?_fourDigits h t, hcode, charOfCode?_toNat, Option.bind_eq_bind,
    Option.bind_some]
  rfl

theorem cookFrom_escape {size : Nat} {c : Char} {t text after : Text}
    (h : meaning? c t = some (text, after)) :
    cookFrom size ('\\' :: c :: t) = (cookFrom size after).map (text ++ ·) := by
  rw [cookFrom]
  split
  · next hnone =>
      rw [h] at hnone
      cases hnone
  · next hsome =>
      rw [h] at hsome
      cases hsome
      rfl

theorem cookFrom_plain {size : Nat} {c : Char} (hescape : c ≠ '\\') (hreturn : c ≠ '\r')
    (t : Text) :
    cookFrom size (c :: t) = (cookFrom size t).map (c :: ·) := by
  rw [cookFrom]
  · exact fun _ heq _ => hreturn heq
  · exact hreturn
  · exact fun heq _ => hescape heq
  · exact fun _ _ heq _ => hescape heq

theorem cookFrom_named {size : Nat} {letter c : Char} {t : Text}
    (h : meaning? letter t = some ([c], t)) :
    cookFrom size (['\\', letter] ++ t) = (cookFrom size t).map (c :: ·) :=
  cookFrom_escape h

/-- **A written character means itself,** whatever follows. -/
theorem cookFrom_escapeLiteral (size : Nat) (c : Char) (t : Text) :
    cookFrom size (escapeLiteral c ++ t) = (cookFrom size t).map (c :: ·) := by
  unfold escapeLiteral
  split_ifs with hescape hquote hfeed hreturn htab hcoded
  · rw [beq_iff_eq.mp hescape]
    exact cookFrom_named rfl
  · rw [beq_iff_eq.mp hquote]
    exact cookFrom_named rfl
  · rw [beq_iff_eq.mp hfeed]
    exact cookFrom_named rfl
  · rw [beq_iff_eq.mp hreturn]
    exact cookFrom_named rfl
  · rw [beq_iff_eq.mp htab]
    exact cookFrom_named rfl
  · have hsmall : c.toNat < 0xD800 := by
      simp only [isControl, Bool.or_eq_true, beq_iff_eq, decide_eq_true_eq, Bool.and_eq_true]
        at hcoded
      rcases hcoded with (rfl | rfl) | hcontrol
      · decide
      · decide
      · omega
    exact cookFrom_escape (meaning?_fourDigits hsmall t)
  · exact cookFrom_plain (by simpa using hescape) (by simpa using hreturn) t

end Escape

/-! ## Whole literals -/

/-- **The body of a literal means its text.** -/
theorem cook_escapeLiteral (s : Text) : cook (s.flatMap escapeLiteral) = .ok s := by
  have hfrom : ∀ size, Escape.cookFrom size (s.flatMap escapeLiteral) = .ok s := by
    intro size
    induction s with
    | nil => rw [List.flatMap_nil, Escape.cookFrom]
    | cons c s ih =>
        rw [List.flatMap_cons, Escape.cookFrom_escapeLiteral, ih]
        rfl
  exact hfrom _

theorem stringLiteral_injective : Function.Injective stringLiteral := by
  intro s t h
  have hbody : s.flatMap escapeLiteral = t.flatMap escapeLiteral :=
    List.append_cancel_right (List.cons.inj h).2
  have hcook := cook_escapeLiteral s
  rw [hbody, cook_escapeLiteral] at hcook
  exact (Except.ok.inj hcook).symm

/-- The literal at the front of a script is told from what follows it. -/
theorem stringLiteral_append_inj {s t rest rest' : Text}
    (h : stringLiteral s ++ rest = stringLiteral t ++ rest') : s = t ∧ rest = rest' := by
  have hread := string_stringLiteral s rest
  rw [h, string_stringLiteral t rest', Option.some.injEq, Prod.mk.injEq] at hread
  exact ⟨stringLiteral_injective hread.1.symm, hread.2.symm⟩

/-- **String literals are faithful.** The literal of a text is one string in double quotes, whose
body means the text. In every script that begins with it the literal is what is read as the first
string, and the scanner passes over exactly it. So a script begins with the literal of at most one
text. -/
theorem stringLiteral_faithful (s : Text) :
    (∃ body, stringLiteral s = '"' :: (body ++ ['"']) ∧ cook body = .ok s) ∧
    (∀ rest, Lexeme.string (stringLiteral s ++ rest) = some (stringLiteral s, rest)) ∧
    (∀ offset rest, Rule.item.Reads ⟨offset, stringLiteral s ++ rest⟩ none
      ⟨offset + (stringLiteral s).byteSize, rest⟩) ∧
    (∀ t rest rest', stringLiteral s ++ rest = stringLiteral t ++ rest' →
      s = t ∧ rest = rest') := by
  refine ⟨⟨s.flatMap escapeLiteral, rfl, cook_escapeLiteral s⟩, string_stringLiteral s,
    fun offset rest => item_reads_literal s rest offset, fun t rest rest' h => ?_⟩
  exact stringLiteral_append_inj h

end Script
end Hypertext
