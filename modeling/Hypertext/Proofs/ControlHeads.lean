import Hypertext.Proofs.Hygiene
import Hypertext.Proofs.LineContinuation
import Hypertext.Proofs.NormalChildren
import Hypertext.Proofs.QuotedText
import Mathlib.Data.List.Infix

set_option autoImplicit false

/-! # Heads of statements

A template behind `if (ok)` is a statement of its own, behind `f(ok)` it would be an argument. Both
lines end in a parenthesis, so the text is scanned backwards for the place where it was opened, and
the word before it decides. This file proves that the place is found however deep parentheses nest
between the two, whatever else stands there, and that the word is read as it is written
(`closesControlHead_matched`).

The scan keeps one number, of the parentheses that are closed behind it and not yet opened. Over a
stretch of text the number changes by what is closed and opened there (`closesControlHead_append`),
so over an enclosed text it does not change. The word is found before blanks because no character of
a word is one, which the tables of characters show (`isBlank_of_isCodeWordChar`).
-/

namespace Hypertext

/-! ## Words hold no blanks -/

theorem alphabeticBeyondAscii_avoidsBlanks :
    alphabeticBeyondAscii.ranges.toList.all avoidsBlanks = true := by
  unfold alphabeticBeyondAscii
  apply CodePoints.of_lines fun ranges => ranges.all avoidsBlanks = true
  · iterate 83
      apply List.Forall₂.cons
      · rfl
    exact .nil
  · decide +kernel

theorem numberBeyondAscii_avoidsBlanks :
    numberBeyondAscii.ranges.toList.all avoidsBlanks = true := by
  unfold numberBeyondAscii
  iterate 18 refine CodePoints.all_ofRanges_cons rfl (by decide) ?_
  rfl

theorem toNat_of_isAlpha {c : Char} (h : c.isAlpha = true) : 32 < c.toNat := by
  rcases Bool.or_eq_true_iff.mp h with hupper | hlower
  · have := isUpper_iff.mp hupper
    omega
  · have := isLower_iff.mp hlower
    omega

namespace Script

theorem isBlank_of_isCodeWordChar {c : Char} (h : isCodeWordChar c = true) : isBlank c = false := by
  simp only [isCodeWordChar, isAlphanumeric, Bool.or_eq_true, beq_iff_eq] at h
  rcases h with (rfl | rfl) | h | h
  · decide
  · decide
  · exact isBlank_of_table (fun _ => toNat_of_isAlpha) alphabeticBeyondAscii_avoidsBlanks h
  · exact isBlank_of_table (fun _ => toNat_of_isDigit) numberBeyondAscii_avoidsBlanks h

/-- A run of word characters ends a text as a word if none stands before it. -/
theorem endsInWord_append {before word : Text} (hword : word ≠ [])
    (hchars : ∀ c ∈ word, isCodeWordChar c = true)
    (hbefore : ∀ c ∈ before.getLast?, isCodeWordChar c = false) :
    EndsInWord (before ++ word) word where
  whole := ⟨before, rfl, hbefore⟩
  chars := hchars
  visible := by
    refine ⟨word.getLast hword, List.getLast?_eq_some_getLast hword, ?_⟩
    exact isBlank_of_isCodeWordChar (hchars _ (List.getLast_mem hword))

/-! ## The scan for the parenthesis -/

/-- **A stretch of text.** If the scan does not find the parenthesis there, it goes on before the
stretch with the parentheses that were open and those that are closed there, less those that are
opened there. -/
theorem closesControlHead_append {depth : Nat} {u : Text}
    (hu : ∀ start, start <+: u → start.count '(' ≤ start.count ')' + depth) (r : Text) :
    closesControlHead (depth + 1) (u ++ r)
      = closesControlHead (depth + u.count ')' - u.count '(' + 1) r := by
  induction u generalizing depth with
  | nil => simp
  | cons c u ih =>
      have hfirst : [c].count '(' ≤ depth + [c].count ')' := by
        rw [Nat.add_comm]
        exact hu [c] (List.prefix_append [c] u)
      have hstep := Nat.sub_add_cancel hfirst
      have hrest : ∀ start, start <+: u →
          start.count '(' ≤ start.count ')' + (depth + [c].count ')' - [c].count '(') := by
        intro start hprefix
        have hle := hu (c :: start) (List.cons_prefix_cons.mpr ⟨rfl, hprefix⟩)
        rw [count_cons_eq c '(' start, count_cons_eq c ')' start] at hle
        omega
      calc closesControlHead (depth + 1) (c :: u ++ r)
          = closesControlHead (depth + [c].count ')' - [c].count '(' + 1) (u ++ r) :=
            closesControlHead_cons hstep (u ++ r)
        _ = closesControlHead
              (depth + [c].count ')' - [c].count '(' + u.count ')' - u.count '(' + 1) r := ih hrest
        _ = closesControlHead (depth + (c :: u).count ')' - (c :: u).count '(' + 1) r := by
            rw [count_cons_eq c '(' u, count_cons_eq c ')' u]
            congr 1
            omega

/-- Whether parentheses are enclosed can be checked, ending by ending. -/
instance (t : Text) : Decidable (Enclosed t) :=
  decidable_of_iff
    (t.count '(' = t.count ')' ∧ ∀ ending ∈ t.tails, ending.count '(' ≤ ending.count ')')
    (by simp only [Enclosed, List.mem_tails])

/-- From the parenthesis that ends a text the scan passes over an enclosed text to its partner, and
looks at the word before that. -/
theorem closesControlHead_enclosed {inner : Text} (h : Enclosed inner) (t : Text) :
    closesControlHead 0 (t ++ "(".toList ++ inner ++ ")".toList).reverse
      = controlHeads.contains (trailingWord (t.reverse.dropWhile isBlank)) := by
  have hreverse : (t ++ "(".toList ++ inner ++ ")".toList).reverse
      = ')' :: (inner.reverse ++ '(' :: t.reverse) := by
    simp
  have hstart : ∀ start, start <+: inner.reverse → start.count '(' ≤ start.count ')' + 0 := by
    intro start hprefix
    have hle := h.2 start.reverse (List.reverse_prefix.mp (by rwa [List.reverse_reverse]))
    rwa [List.count_reverse, List.count_reverse] at hle
  -- as many are opened as closed, so that one is open again
  have hsame : 0 + inner.reverse.count ')' - inner.reverse.count '(' + 1 = 1 := by
    rw [List.count_reverse, List.count_reverse, h.1]
    omega
  calc closesControlHead 0 (t ++ "(".toList ++ inner ++ ")".toList).reverse
      = closesControlHead 1 (inner.reverse ++ '(' :: t.reverse) := by
        rw [hreverse]
        rfl
    _ = closesControlHead 1 ('(' :: t.reverse) := by
        rw [closesControlHead_append hstart, hsame]
    _ = controlHeads.contains (trailingWord (t.reverse.dropWhile isBlank)) := rfl

/-- **Heads of statements are recognized through nested parentheses.** A text ends in a word, blanks
and parentheses around an enclosed text. Then its last parenthesis closes the head of a statement if
and only if the word is one of the four that have one, and a template on the next line is separated
from the text if and only if it does not. -/
theorem closesControlHead_matched (before word blanks inner : Text)
    (hbefore : ∀ c ∈ before.getLast?, isCodeWordChar c = false) (hword : word ≠ [])
    (hchars : ∀ c ∈ word, isCodeWordChar c = true) (hblanks : ∀ c ∈ blanks, isBlank c = true)
    (hinner : Enclosed inner) :
    let text := before ++ word ++ blanks ++ "(".toList ++ inner ++ ")".toList
    (closesControlHead 0 text.reverse = true ↔
      word ∈ ["for".toList, "if".toList, "while".toList, "with".toList]) ∧
    needsSeparator (text ++ ['\n']) = !closesControlHead 0 text.reverse := by
  intro text
  have hends : EndsInWord (before ++ word) word := endsInWord_append hword hchars hbefore
  constructor
  · rw [closesControlHead_enclosed hinner, hends.trailingWord_blanks hblanks,
      List.contains_iff_mem]
    rfl
  · -- the line feed is passed over, and the text before it ends in a parenthesis
    have hreverse : text.reverse
        = ')' :: (before ++ word ++ blanks ++ "(".toList ++ inner).reverse := List.reverse_concat
    rw [hreverse, ← goesOn_parenthesis]
    exact needsSeparator_mark List.mem_cons_self

/-- A loop whose head holds calls and a character of two bytes is told from a call of a function
whose name ends like the word of the loop. -/
theorem closesControlHead_matched_nested :
    let inner := "f((ü), g(1)()) > 0".toList
    let loop := "x;".toList ++ "while".toList ++ " \t".toList ++ "(".toList ++ inner ++ ")".toList
    let call := "x;".toList ++ "awhile".toList ++ [] ++ "(".toList ++ inner ++ ")".toList
    Enclosed inner ∧
    (closesControlHead 0 loop.reverse = true ∧ needsSeparator (loop ++ ['\n']) = false) ∧
    closesControlHead 0 call.reverse = false ∧ needsSeparator (call ++ ['\n']) = true := by
  intro inner loop call
  have hinner : Enclosed inner := by decide
  have hbefore : ∀ c ∈ "x;".toList.getLast?, isCodeWordChar c = false := by
    intro c hc
    cases hc
    decide
  obtain ⟨hloop, hloopLine⟩ := closesControlHead_matched "x;".toList "while".toList " \t".toList
    inner hbefore (by decide) (List.all_eq_true.mp (by decide)) (List.all_eq_true.mp (by decide))
    hinner
  obtain ⟨hcall, hcallLine⟩ := closesControlHead_matched "x;".toList "awhile".toList [] inner
    hbefore (by decide) (List.all_eq_true.mp (by decide)) (List.all_eq_true.mp (by decide)) hinner
  have hwhile : closesControlHead 0 loop.reverse = true := hloop.mpr (by decide)
  have hawhile : closesControlHead 0 call.reverse = false :=
    Bool.eq_false_iff.mpr fun h => absurd (hcall.mp h) (by decide)
  refine ⟨hinner, ⟨hwhile, ?_⟩, hawhile, ?_⟩
  · rw [hloopLine, hwhile]
    rfl
  · rw [hcallLine, hawhile]
    rfl

end Script
end Hypertext
