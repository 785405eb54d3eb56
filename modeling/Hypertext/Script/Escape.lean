import Hypertext.Script.Error

set_option autoImplicit false

/-! # Escapes in templates

The text that a static part of a template stands for. Escape sequences are replaced by what they
mean, and every line break by a line feed. -/

namespace Hypertext
namespace Script
namespace Escape

/-- The number of the given count of hexadecimal digits, after the digits that make `value`. -/
def hexDigits? : Nat → UInt32 → Text → Option (UInt32 × Text)
  | 0, value, t => some (value, t)
  | _ + 1, _, [] => none
  | count + 1, value, c :: t =>
    match Text.hexDigit? c with
    | none => none
    | some digit => hexDigits? count (value * 16 + digit.toUInt32) t

/-- The number of the hexadecimal digits before a closing brace, after `count` digits that make
`value`. There must be a digit. None may follow once the number is no code point, so it stays far
below the end of its range. The count has 32 bits with a sign, and after the greatest one it is
negative. -/
def bracedDigits? (count : Int32) (value : UInt32) : Text → Option (UInt32 × Text)
  | [] => none
  | c :: t =>
    if c == '\x7d' && 0 < count then some (value, t)
    else
      match Text.hexDigit? c with
      | none => none
      | some digit =>
        if value ≤ 0x10FFFF then bracedDigits? (count + 1) (value * 16 + digit.toUInt32) t
        else none

/-- The code point of an escape that begins with `u`: digits in braces, or four digits, of which two
escapes in a row can make a pair. -/
def codePoint? : Text → Option (UInt32 × Text)
  | '\x7b' :: t => bracedDigits? 0 0 t
  | t =>
    match hexDigits? 4 0 t with
    | none => none
    | some (lead, rest) =>
      if 0xD800 ≤ lead ∧ lead < 0xDC00 then
        match Text.after? "\\u".toList rest with
        | none => some (lead, rest)
        | some second =>
          match hexDigits? 4 0 second with
          | none => none
          | some (trail, after) =>
            if 0xDC00 ≤ trail ∧ trail < 0xE000 then
              some (0x10000 + (lead - 0xD800) * 0x400 + (trail - 0xDC00), after)
            else none
      else some (lead, rest)

/-- The text that an escape stands for, and the text after it. `c` is the character after the
backslash. -/
def meaning? (c : Char) (t : Text) : Option (Text × Text) :=
  match c with
  | 'n' => some (['\n'], t)
  | 't' => some (['\t'], t)
  | 'r' => some (['\r'], t)
  | 'b' => some (['\x08'], t)
  | 'f' => some (['\x0c'], t)
  | 'v' => some (['\x0b'], t)
  | '\r' => match t with
    | '\n' :: rest => some ([], rest)
    | _ => some ([], t)
  | '\n' => some ([], t)
  | '\u2028' => some ([], t)
  | '\u2029' => some ([], t)
  | 'x' => do
    let (code, rest) ← hexDigits? 2 0 t
    let char ← Text.charOfCode? code.toNat
    return ([char], rest)
  | 'u' => do
    let (code, rest) ← codePoint? t
    let char ← Text.charOfCode? code.toNat
    return ([char], rest)
  | c =>
    if c == '0' && !(t.head?.any Char.isDigit) then some (['\x00'], t)
    else if c.isDigit then none
    else some ([c], t)

theorem hexDigits?_length {count : Nat} {value code : UInt32} {t rest : Text}
    (h : hexDigits? count value t = some (code, rest)) : rest.length ≤ t.length := by
  induction count generalizing value t with
  | zero =>
    simp only [hexDigits?, Option.some.injEq, Prod.mk.injEq] at h
    exact Nat.le_of_eq (congrArg List.length h.2.symm)
  | succ count ih =>
    cases t with
    | nil => simp [hexDigits?] at h
    | cons c t =>
      simp only [hexDigits?] at h
      split at h
      · simp at h
      · have := ih h
        simp only [List.length_cons]
        omega

theorem bracedDigits?_length {count : Int32} {value code : UInt32} {t rest : Text}
    (h : bracedDigits? count value t = some (code, rest)) : rest.length ≤ t.length := by
  induction t generalizing count value with
  | nil => simp [bracedDigits?] at h
  | cons c t ih =>
    simp only [bracedDigits?] at h
    simp only [List.length_cons]
    split at h
    · simp only [Option.some.injEq, Prod.mk.injEq] at h
      rw [h.2]
      omega
    · split at h
      · simp at h
      · split at h
        · have := ih h
          omega
        · simp at h

theorem after?_length {start t rest : Text} (h : Text.after? start t = some rest) :
    rest.length ≤ t.length := by
  rw [Text.after?_eq_some_iff.1 h]
  simp

theorem codePoint?_length {code : UInt32} {t rest : Text} (h : codePoint? t = some (code, rest)) :
    rest.length ≤ t.length := by
  unfold codePoint? at h
  split at h
  · have := bracedDigits?_length h
    simp only [List.length_cons]
    omega
  · split at h
    · simp at h
    · next hlead =>
      have hle := hexDigits?_length hlead
      split at h
      · split at h
        · simp only [Option.some.injEq, Prod.mk.injEq] at h
          rw [← h.2]
          exact hle
        · next hsecond =>
          have hmid := after?_length hsecond
          split at h
          · simp at h
          · next htrail =>
            have := hexDigits?_length htrail
            split at h
            · simp only [Option.some.injEq, Prod.mk.injEq] at h
              rw [← h.2]
              omega
            · simp at h
      · simp only [Option.some.injEq, Prod.mk.injEq] at h
        rw [← h.2]
        exact hle

theorem meaning?_length {c : Char} {t text rest : Text} (h : meaning? c t = some (text, rest)) :
    rest.length ≤ t.length := by
  unfold meaning? at h
  split at h
  case h_7 =>
    split at h <;> cases h <;> simp
  case h_11 =>
    simp only [Option.bind_eq_bind, Option.bind_eq_some_iff] at h
    obtain ⟨⟨code, after⟩, hcode, char, -, h⟩ := h
    cases h
    exact hexDigits?_length hcode
  case h_12 =>
    simp only [Option.bind_eq_bind, Option.bind_eq_some_iff] at h
    obtain ⟨⟨code, after⟩, hcode, char, -, h⟩ := h
    cases h
    exact codePoint?_length hcode
  case h_13 =>
    split at h
    · cases h
      exact Nat.le_refl _
    · split at h
      · cases h
      · cases h
        exact Nat.le_refl _
  all_goals
    cases h
    exact Nat.le_refl _

/-- The text that ends a static part of `size` bytes, with its escapes replaced. A sequence that
means nothing is reported with the character after its backslash. -/
def cookFrom (size : Nat) (t : Text) : Except ScanError Text :=
  match t with
  | [] => .ok []
  | '\r' :: '\n' :: rest => (cookFrom size rest).map ('\n' :: ·)
  | '\r' :: rest => (cookFrom size rest).map ('\n' :: ·)
  | ['\\'] => .error (.invalidEscape (size - 1) ['\\'])
  | '\\' :: c :: rest =>
    match h : meaning? c rest with
    | none => .error (.invalidEscape (size - Text.byteSize ('\\' :: c :: rest)) ['\\', c])
    | some (text, after) =>
      have := meaning?_length h
      (cookFrom size after).map (text ++ ·)
  | c :: rest => (cookFrom size rest).map (c :: ·)
termination_by t.length

end Escape

/-- The text that a static part of a template stands for. Offsets of errors are relative to it. -/
def cook (raw : Text) : Except ScanError Text := Escape.cookFrom raw.byteSize raw

end Script
end Hypertext
