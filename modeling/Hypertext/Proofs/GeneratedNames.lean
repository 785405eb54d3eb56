import Hypertext.Proofs.Hygiene
import Mathlib.Data.List.DropRight

set_option autoImplicit false

/-! # Generated names are identifiers

The name of a node is printed into every statement about the node as it is. It is made from a
hint, which can be any text: an id or a class in camel case, a tag, a key. Only the stem of the hint
gets into the name, followed by a number. This file says what a stem looks like (`IsStem`), so that
every name is an identifier and no reserved word, and that a text which looks like that is its own
stem (`stem_of_isStem`). Since a stem does not end in a digit, stem and number can be told from the
name (`candidate_inj`).
-/

namespace Hypertext

/-! ## Stems -/

/-- What stems look like: a letter or `$` first, then letters, digits, `_` and `$`, and no digit at
the end. -/
structure IsStem (base : Text) : Prop where
  first : ∃ c ∈ base.head?, c.isAlpha = true ∨ c = '$'
  chars : ∀ c ∈ base, isStemChar c = true
  last : ∃ c ∈ base.getLast?, c.isDigit = false

theorem IsStem.ne_nil {base : Text} (h : IsStem base) : base ≠ [] := by
  rintro rfl
  obtain ⟨c, hc, -⟩ := h.first
  cases hc

/-- No digits can be dropped at the end of a stem. -/
theorem IsStem.rdropWhile {base : Text} (h : IsStem base) :
    base.rdropWhile Char.isDigit = base := by
  rw [List.rdropWhile_eq_self_iff]
  intro hne
  obtain ⟨c, hc, hdigit⟩ := h.last
  rw [List.getLast?_eq_some_getLast hne, Option.mem_some_iff] at hc
  rw [hc, hdigit]
  exact Bool.false_ne_true

/-- The characters that begin a stem are those that are not dropped at the start of a hint. -/
theorem leads_stem_iff {c : Char} :
    (isStemChar c && !(c.isDigit || c == '_')) = true ↔ c.isAlpha = true ∨ c = '$' := by
  simp only [isStemChar, Char.isAlphanum, Bool.and_eq_true, Bool.or_eq_true, Bool.not_eq_true',
    Bool.or_eq_false_iff, beq_iff_eq, beq_eq_false_iff_ne]
  constructor
  · rintro ⟨((halpha | hdigit) | hunderscore) | hdollar, hnot⟩
    · exact .inl halpha
    · rw [hnot.1] at hdigit
      cases hdigit
    · exact absurd hunderscore hnot.2
    · exact .inr hdollar
  · rintro (halpha | rfl)
    · have hrange : (65 ≤ c.toNat ∧ c.toNat ≤ 90) ∨ (97 ≤ c.toNat ∧ c.toNat ≤ 122) :=
        (Bool.or_eq_true_iff.mp halpha).imp isUpper_iff.mp isLower_iff.mp
      refine ⟨.inl (.inl (.inl halpha)), ?_, ?_⟩
      · rw [Bool.eq_false_iff]
        intro hdigit
        have := isDigit_iff.mp hdigit
        omega
      · rintro rfl
        revert hrange
        decide
    · decide

theorem stemChars_first (hint : Text) :
    ∀ c ∈ (stemChars hint).head?, c.isAlpha = true ∨ c = '$' := by
  induction hint with
  | nil =>
      intro c hc
      cases hc
  | cons d hint ih =>
      intro c hc
      rw [stemChars] at hc
      split at hc
      · next hd =>
          cases hc
          exact leads_stem_iff.mp hd
      · exact ih c hc

theorem stem_eq (hint : Text) :
    stem hint = if (stemChars hint).rdropWhile Char.isDigit = [] then "ref".toList
      else (stemChars hint).rdropWhile Char.isDigit := by
  unfold stem
  split
  · next h => exact (if_pos h).symm
  · next h => exact (if_neg h).symm

/-- **The stem of any hint is a stem.** -/
theorem isStem_stem (hint : Text) : IsStem (stem hint) := by
  refine ⟨?_, stem_all hint, ?_⟩
  · rw [stem_eq]
    split
    · exact ⟨'r', rfl, by decide⟩
    · next hne =>
        -- what is dropped stands at the end, so the first character stays
        obtain ⟨c, base, hbase⟩ := List.exists_cons_of_ne_nil hne
        obtain ⟨more, hmore⟩ := List.rdropWhile_prefix Char.isDigit (stemChars hint)
        rw [hbase] at hmore ⊢
        exact ⟨c, rfl, stemChars_first hint c (by rw [← hmore]; rfl)⟩
  · rw [stem_eq]
    split
    · exact ⟨'f', rfl, by decide⟩
    · next hne =>
        exact ⟨_, List.getLast?_eq_some_getLast hne,
          Bool.eq_false_iff.mpr (List.rdropWhile_last_not _ _ hne)⟩

theorem stemTail_of_all {t : Text} (h : ∀ c ∈ t, isStemChar c = true) : stemTail false t = t := by
  induction t with
  | nil => rfl
  | cons c t ih =>
      rw [stemTail, if_pos (h c List.mem_cons_self), ih fun d hd => h d (List.mem_cons_of_mem _ hd)]
      rfl

/-- **A stem is its own stem.** -/
theorem stem_of_isStem {base : Text} (h : IsStem base) : stem base = base := by
  have hchars : stemChars base = base := by
    obtain ⟨c, hc, hfirst⟩ := h.first
    cases base with
    | nil => cases hc
    | cons d rest =>
        cases hc
        rw [stemChars, if_pos (leads_stem_iff.mpr hfirst),
          stemTail_of_all fun e he => h.chars e (List.mem_cons_of_mem _ he)]
  rw [stem_eq, hchars, h.rdropWhile, if_neg h.ne_nil]

/-! ## Names -/

/-- Dropping the digits at its end gives the stem of a name back. -/
theorem rdropWhile_candidate {base : Text} (h : IsStem base) (i : Nat) :
    (candidate base i).tail.rdropWhile Char.isDigit = base := by
  show (if i = 0 then base else base ++ Text.ofNat (i + 1)).rdropWhile Char.isDigit = base
  split
  · exact h.rdropWhile
  · have hdigits : ∀ c ∈ (Text.ofNat (i + 1)).reverse, c.isDigit = true := fun c hc =>
      Nat.isDigit_of_mem_toDigits (by decide) (by decide) (List.mem_reverse.mp hc)
    rw [List.rdropWhile, List.reverse_append, List.dropWhile_append_of_pos hdigits]
    exact h.rdropWhile

/-- **A name shows its stem and its number.** -/
theorem candidate_inj {base other : Text} (hbase : IsStem base) (hother : IsStem other)
    {i k : Nat} : candidate base i = candidate other k ↔ base = other ∧ i = k := by
  constructor
  · intro h
    obtain rfl : base = other := by
      rw [← rdropWhile_candidate hbase i, h, rdropWhile_candidate hother]
    exact ⟨rfl, candidate_injective base h⟩
  · rintro ⟨rfl, rfl⟩
    rfl

/-- The texts that match `_[A-Za-z$][A-Za-z0-9_$]*`. -/
def IsGeneratedName (name : Text) : Prop :=
  ∃ c rest, name = '_' :: c :: rest ∧ (c.isAlpha = true ∨ c = '$') ∧
    ∀ d ∈ rest, d.isAlphanum = true ∨ d = '_' ∨ d = '$'

theorem isGeneratedName_candidate {base : Text} (h : IsStem base) (i : Nat) :
    IsGeneratedName (candidate base i) := by
  have hchars := candidate_all h.chars i
  obtain ⟨c, hc, hfirst⟩ := h.first
  obtain ⟨rest, hrest⟩ : ∃ rest, candidate base i = '_' :: c :: rest := by
    cases base with
    | nil => cases hc
    | cons d base =>
        cases hc
        unfold candidate
        split
        · exact ⟨base, rfl⟩
        · exact ⟨base ++ Text.ofNat (i + 1), rfl⟩
  rw [hrest] at hchars
  refine ⟨c, rest, hrest, hfirst, fun d hd => ?_⟩
  have hd := hchars d (List.mem_cons_of_mem _ (List.mem_cons_of_mem _ hd))
  simpa [isStemChar, or_assoc] using hd

namespace Script

/-- The words that cannot name a variable in a script or in a module. -/
def reservedWords : List Text :=
  ["arguments", "await", "break", "case", "catch", "class", "const", "continue", "debugger",
    "default", "delete", "do", "else", "enum", "eval", "export", "extends", "false", "finally",
    "for", "function", "if", "implements", "import", "in", "instanceof", "interface", "let", "new",
    "null", "package", "private", "protected", "public", "return", "static", "super", "switch",
    "this", "throw", "true", "try", "typeof", "var", "void", "while", "with", "yield"].map
    String.toList

theorem not_mem_reservedWords {name : Text} (h : IsGeneratedName name) : name ∉ reservedWords := by
  obtain ⟨c, rest, rfl, -⟩ := h
  have hfirst : ∀ word ∈ reservedWords, word.head? ≠ some '_' := by decide
  exact fun hmem => hfirst _ hmem rfl

end Script

namespace Scope

/-- **Generated names are identifiers.** The name that a scope, whatever is taken in it, gives an
element with any attributes and any tag matches `_[A-Za-z$][A-Za-z0-9_$]*`, so it is a name and no
reserved word. The same holds for the name for any hint. The stem of a hint begins with a letter or
`$` and does not end in a digit, and it is its own stem. -/
theorem fresh_isGeneratedName (scope : Scope) :
    (∀ (attributes : Attributes) (tag : Text),
      IsGeneratedName (scope.fresh (elementHint attributes tag)).1.name) ∧
    (∀ hint : Text, IsGeneratedName (scope.fresh hint).1.name ∧
      Script.isName (scope.fresh hint).1.name = true ∧
      (scope.fresh hint).1.name ∉ Script.reservedWords) ∧
    ∀ hint : Text, stem (stem hint) = stem hint ∧ stem hint ≠ [] ∧
      (∃ c ∈ (stem hint).head?, c.isAlpha = true ∨ c = '$') ∧
      ∃ c ∈ (stem hint).getLast?, c.isDigit = false := by
  have hname : ∀ hint, ∃ i, (scope.fresh hint).1.name = candidate (stem hint) i := by
    intro hint
    obtain ⟨i, -, hname, -⟩ := scope.freeName_spec (stem hint)
    exact ⟨i, hname⟩
  have hgenerated : ∀ hint, IsGeneratedName (scope.fresh hint).1.name := by
    intro hint
    obtain ⟨i, hi⟩ := hname hint
    rw [hi]
    exact isGeneratedName_candidate (isStem_stem hint) i
  refine ⟨fun attributes tag => hgenerated _, fun hint => ⟨hgenerated hint, ?_, ?_⟩, fun hint => ?_⟩
  · obtain ⟨i, hi⟩ := hname hint
    rw [hi]
    exact Script.isName_candidate hint i
  · exact Script.not_mem_reservedWords (hgenerated hint)
  · have hstem := isStem_stem hint
    exact ⟨stem_of_isStem hstem, hstem.ne_nil, hstem.first, hstem.last⟩

end Scope
end Hypertext
