import Hypertext.Proofs.EscapeSeams

set_option autoImplicit false

/-! # The escape that an error names

The reader of escapes notices a fault after it has looked at some of the characters that follow, but
it reports the backslash and at most one character. This file proves that these are the first escape
without a meaning in the text: what stands before them can be cooked.

A text that can be cooked does not end in the middle of an escape (`Escape.Atoms.whole`). The static
parts that a scan finds do not either, so there is always a character behind the backslash in them.
-/

namespace Hypertext
namespace Script
namespace Escape

theorem Atoms.whole {raw s : Text} (h : Atoms raw s) : isEscaped raw = false := by
  induction h with
  | nil => rfl
  | cons hatom _ _ ih => rw [isEscaped_append _ _ hatom.whole, ih]

/-- The characters that an escape can begin with and still have no meaning. -/
def CanFail (c : Char) : Prop := c = 'x' ∨ c = 'u' ∨ c.isDigit = true

theorem canFail_of_meaning? {c : Char} {rest : Text} (h : meaning? c rest = none) : CanFail c := by
  unfold meaning? at h
  split at h
  case h_7 =>
    split at h
    · cases h
    · cases h
  case h_11 => exact .inl rfl
  case h_12 => exact .inr (.inl rfl)
  case h_13 =>
    split at h
    · cases h
    · split at h
      · next hdigit => exact .inr (.inr hdigit)
      · cases h
  all_goals cases h

/-- What is reported of an escape without a meaning: the backslash alone at the end of the text, or
the backslash and a character. -/
theorem Bad.sequence {bad : Text} (h : Bad bad) :
    (bad = ['\\'] ∧ bad.take 2 = ['\\']) ∨
      ∃ c, CanFail c ∧ bad.take 2 = ['\\', c] ∧ bad = ['\\', c] ++ bad.drop 2 := by
  cases h with
  | alone => exact .inl ⟨rfl, rfl⟩
  | @meaningless c rest hmeaning => exact .inr ⟨c, canFail_of_meaning? hmeaning, rfl, rfl⟩

end Escape

/-- The text up to the first escape without a meaning, and what is reported of that escape. -/
theorem cook_error_split {raw : Text} {e : ScanError} (h : cook raw = .error e) :
    ∃ before bad, raw = before ++ bad ∧ Escape.Bad bad ∧ (∃ s, Escape.Atoms before s) ∧
      e = .invalidEscape before.byteSize (bad.take 2) := by
  rcases Escape.cookFrom_cases raw with ⟨s, -, hcook⟩ | ⟨before, s, bad, rfl, hatoms, hbad, hcook⟩
  · rw [cook, hcook] at h
    cases h
  · refine ⟨before, bad, rfl, hbad, ⟨s, hatoms⟩, ?_⟩
    rw [cook, hcook, Text.byteSize_append, Nat.add_sub_cancel] at h
    exact (Except.error.inj h).symm

/-- **Errors in escapes are located exactly.** A text that cannot be cooked is refused for an escape
that stands in it at the offset reported, and that is the first one without a meaning: the text
before it can be cooked. What is reported is a backslash at the very end of the text, or a backslash
and one character, which is `x`, `u` or a digit. In the static parts that a scan finds the backslash
never stands at the end. -/
theorem cook_error_located :
    (∀ raw e, cook raw = .error e → ∃ before sequence after,
      e = .invalidEscape before.byteSize sequence ∧ raw = before ++ (sequence ++ after) ∧
      (∃ s, cook before = .ok s) ∧
      (sequence = ['\\'] ∧ after = [] ∨
        ∃ c, sequence = ['\\', c] ∧ (c = 'x' ∨ c = 'u' ∨ c.isDigit = true))) ∧
    ∀ source items literal quasi offset sequence, scan source = .ok items →
      .template literal ∈ items → quasi ∈ literal.quasis →
      cook quasi.text = .error (.invalidEscape offset sequence) →
      ∃ c, sequence = ['\\', c] ∧ (c = 'x' ∨ c = 'u' ∨ c.isDigit = true) := by
  constructor
  · intro raw e h
    obtain ⟨before, bad, rfl, hbad, ⟨s, hatoms⟩, rfl⟩ := cook_error_split h
    have hbefore : cook before = .ok s := hatoms.cookFrom_eq _
    rcases hbad.sequence with ⟨hlast, htake⟩ | ⟨c, hc, htake, hrest⟩
    · refine ⟨before, ['\\'], [], by rw [htake], by rw [hlast]; rfl, ⟨s, hbefore⟩, .inl ⟨rfl, rfl⟩⟩
    · refine ⟨before, ['\\', c], bad.drop 2, by rw [htake], by rw [← hrest], ⟨s, hbefore⟩, ?_⟩
      exact .inr ⟨c, rfl, hc⟩
  · intro source items literal quasi offset sequence hscan hmem hquasi h
    obtain ⟨before, bad, htext, hbad, ⟨s, hatoms⟩, he⟩ := cook_error_split h
    obtain ⟨-, rfl⟩ := ScanError.invalidEscape.inj he
    rcases hbad.sequence with ⟨hlast, -⟩ | ⟨c, hc, htake, -⟩
    · -- a backslash at the end of a static part is escaped, but what stands before it is whole
      have hpart : IsQuasi quasi.text :=
        (((tiles_of_scan hscan).tiling.exact literal hmem).quasis quasi hquasi).1
      have hescaped := hpart.backslash before (by rw [htext, hlast])
      rw [hatoms.whole] at hescaped
      cases hescaped
    · exact ⟨c, htake, hc⟩

/-- Half a surrogate pair after a character of two bytes, and the static part of a template. -/
theorem cook_error_located_pair :
    let raw := "é\\uD83D\\u0041".toList
    let source := "\x60\\0\\8\x60".toList
    let literal : TemplateLiteral := ⟨none, ⟨0, 6⟩, [⟨"\\0\\8".toList, ⟨1, 5⟩⟩], []⟩
    cook raw = .error (.invalidEscape 2 "\\u".toList) ∧
    (∃ before after, raw = before ++ ("\\u".toList ++ after) ∧ Text.byteSize before = 2 ∧
      ∃ s, cook before = .ok s) ∧
    scan source = .ok [.template literal] ∧
    cook "\\0\\8".toList = .error (.invalidEscape 2 "\\8".toList) ∧
    ∃ c, "\\8".toList = ['\\', c] ∧ (c = 'x' ∨ c = 'u' ∨ c.isDigit = true) := by
  intro raw source literal
  have hraw : cook raw = .error (.invalidEscape 2 "\\u".toList) := by decide +kernel
  have hscan : scan source = .ok [.template literal] := by decide +kernel
  have hpart : cook "\\0\\8".toList = .error (.invalidEscape 2 "\\8".toList) := by
    decide +kernel
  refine ⟨hraw, ?_, hscan, hpart, ?_⟩
  · obtain ⟨before, sequence, after, he, htext, hbefore, -⟩ := cook_error_located.1 raw _ hraw
    obtain ⟨hoffset, rfl⟩ := ScanError.invalidEscape.inj he
    exact ⟨before, after, htext, hoffset.symm, hbefore⟩
  · exact cook_error_located.2 source _ literal _ 2 _ hscan List.mem_cons_self
      List.mem_cons_self hpart

end Script
end Hypertext
