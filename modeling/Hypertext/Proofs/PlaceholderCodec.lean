import Hypertext.Proofs.Expressions

set_option autoImplicit false

/-! # Splitting any raw text

Raw text can hold anything: single NUL characters, tokens that share one, digits of other scripts,
numbers that are no index. This file describes what splitting takes from the front of a text, which
is either a token with an index or something that stays literal (`Skips`), and packs the recursion
into one induction (`split_induction`). All laws of splitting follow from it, and it inverts the
joining of static parts (`split_join`).
-/

namespace Hypertext

/-- The ways to write a fragment: a literal as it is, a placeholder as the decimal digits of its
index, with any number of zeros before them, between two NUL characters. -/
def Fragment.Spells : Fragment → Text → Prop
  | .literal text, t => t = text
  | .placeholder index, t => ∃ digits : Text, digits ≠ [] ∧ (∀ c ∈ digits, c.isDigit = true) ∧
      Nat.ofDigitChars 10 digits 0 = index ∧ t = '\x00' :: (digits ++ ['\x00'])

namespace Placeholder

/-- Literals and placeholders in turn, a literal first and last. -/
inductive Alternates : List Fragment → Prop where
  | last (text : Text) : Alternates [.literal text]
  | next (text : Text) (index : Nat) {fragments : List Fragment} (h : Alternates fragments) :
      Alternates (.literal text :: .placeholder index :: fragments)

/-! ## Tokens -/

/-- Where no token is read, none is read in a shorter text. -/
theorem token?_of_append {t more : Text} (h : token? (t ++ more) = none) : token? t = none := by
  rw [Option.eq_none_iff_forall_ne_some] at h ⊢
  rintro ⟨digits, rest⟩ hsome
  obtain ⟨hdigits, rfl⟩ := token?_eq_some_iff.mp hsome
  exact h (digits, rest ++ more) (token?_eq_some_iff.mpr ⟨hdigits, by simp⟩)

/-- The digits of an index are ASCII digits, and the index is their number. -/
theorem index?_eq_some {digits : Text} {i : Nat} (h : index? digits = some i) :
    (∀ c ∈ digits, c.isDigit = true) ∧ Nat.ofDigitChars 10 digits 0 = i := by
  unfold index? at h
  dsimp only at h
  split at h
  · next hfits =>
      cases h
      refine ⟨List.all_eq_true.mp hfits.1, ?_⟩
      simp only [Nat.ofDigitChars, Nat.mul_comm 10]
  · cases h

/-! ## The recursion of splitting -/

/-- What stays literal at the front of a text: a character where no token begins, or a token whose
digits are no index. -/
inductive Skips : Text → Text → Prop where
  | char {c : Char} {after : Text} (h : token? (c :: after) = none) : Skips [c] after
  | token {digits : Text} (after : Text) (hdigits : IsDigits digits) (h : index? digits = none) :
      Skips ('\x00' :: (digits ++ ['\x00'])) after

theorem Skips.split {start after : Text} (h : Skips start after) :
    Placeholder.split (start ++ after) = prependLiteral start (Placeholder.split after) := by
  cases h with
  | char h => exact split_of_no_token h
  | @token digits _ hdigits h =>
      have htoken : token? ('\x00' :: (digits ++ ['\x00']) ++ after) = some (digits, after) :=
        token?_eq_some_iff.mpr ⟨hdigits, by simp⟩
      rw [split_of_token htoken, prependToken, h]

/-- What stays literal does so in front of any start of the text that follows. -/
theorem Skips.of_append {start after more : Text} (h : Skips start (after ++ more)) :
    Skips start after := by
  generalize htext : after ++ more = text at h
  cases h with
  | char h =>
      subst htext
      exact .char (token?_of_append h)
  | token _ hdigits h => exact .token after hdigits h

/-- **Induction over the splitting of a text.** From the front of a text either a token with an
index is taken, or something that becomes the beginning of the first literal. -/
theorem split_induction {motive : Text → List Fragment → Prop} (nil : motive [] [.literal []])
    (token : ∀ digits after i, IsDigits digits → index? digits = some i →
      motive after (split after) →
      motive ('\x00' :: (digits ++ '\x00' :: after)) (.literal [] :: .placeholder i :: split after))
    (skip : ∀ start after text fragments, Skips start after →
      split after = .literal text :: fragments → motive after (.literal text :: fragments) →
      motive (start ++ after) (.literal (start ++ text) :: fragments))
    (t : Text) : motive t (split t) := by
  have hskip : ∀ start after, Skips start after → motive after (split after) →
      motive (start ++ after) (split (start ++ after)) := by
    intro start after hskips ih
    obtain ⟨text, fragments, hsplit⟩ := split_head after
    rw [hsplit] at ih
    rw [hskips.split, hsplit]
    exact skip start after text fragments hskips hsplit ih
  induction hlength : t.length using Nat.strong_induction_on generalizing t with
  | h n ih =>
      subst hlength
      cases t with
      | nil =>
          rw [split]
          exact nil
      | cons c t =>
          cases htoken : token? (c :: t) with
          | none => exact hskip [c] t (.char htoken) (ih _ (Nat.lt_succ_self _) t rfl)
          | some result =>
              obtain ⟨digits, after⟩ := result
              have hafter := ih _ (token?_length htoken) after rfl
              obtain ⟨hdigits, htext⟩ := token?_eq_some_iff.mp htoken
              cases hindex : index? digits with
              | some i =>
                  rw [split_of_token htoken, prependToken, hindex, htext]
                  exact token digits after i hdigits hindex hafter
              | none =>
                  have hwhole : c :: t = ('\x00' :: (digits ++ ['\x00'])) ++ after := by
                    rw [htext]
                    simp
                  rw [hwhole]
                  exact hskip _ after (.token after hdigits hindex) hafter

/-! ## Laws for every text -/

theorem alternates_split (raw : Text) : Alternates (split raw) := by
  induction raw using split_induction with
  | nil => exact .last []
  | token digits after i _ _ ih => exact .next [] i ih
  | skip start after text fragments _ _ ih =>
      cases ih with
      | last => exact .last _
      | next _ i h => exact .next _ i h

/-- **Fragments make up the text.** -/
theorem exists_spelling (raw : Text) :
    ∃ pieces, List.Forall₂ Fragment.Spells (split raw) pieces ∧ raw = pieces.flatten := by
  induction raw using split_induction with
  | nil => exact ⟨[[]], .cons rfl .nil, rfl⟩
  | token digits after i hdigits hindex ih =>
      obtain ⟨pieces, hpieces, hafter⟩ := ih
      obtain ⟨hascii, hvalue⟩ := index?_eq_some hindex
      refine ⟨[] :: ('\x00' :: (digits ++ ['\x00'])) :: pieces,
        .cons rfl (.cons ⟨digits, hdigits.1, hascii, hvalue, rfl⟩ hpieces), ?_⟩
      conv_lhs => rw [hafter]
      simp
  | skip start after text fragments _ _ ih =>
      obtain ⟨pieces, hpieces, hafter⟩ := ih
      cases hpieces with
      | @cons _ piece _ pieces hpiece hpieces =>
          refine ⟨(start ++ piece) :: pieces, .cons (congrArg (start ++ ·) hpiece) hpieces, ?_⟩
          rw [hafter]
          simp

/-- The first literal is a start of the text. -/
theorem eq_append_of_split {raw text : Text} {fragments : List Fragment}
    (h : split raw = .literal text :: fragments) : ∃ more, raw = text ++ more := by
  obtain ⟨pieces, hpieces, hraw⟩ := exists_spelling raw
  rw [h] at hpieces
  cases hpieces with
  | @cons _ piece _ pieces hpiece hpieces =>
      cases hpiece
      exact ⟨pieces.flatten, hraw⟩

/-- **Literals stay literals** when they are split again. -/
theorem split_literal (raw : Text) : ∀ t, .literal t ∈ split raw → split t = [.literal t] := by
  induction raw using split_induction with
  | nil =>
      intro t ht
      cases List.mem_singleton.mp ht
      rw [split]
  | token digits after i _ _ ih =>
      intro t ht
      rcases List.mem_cons.mp ht with ht | ht
      · cases ht
        rw [split]
      · rcases List.mem_cons.mp ht with ht | ht
        · cases ht
        · exact ih t ht
  | skip start after text fragments hskips hsplit ih =>
      intro t ht
      rcases List.mem_cons.mp ht with ht | ht
      · -- what was skipped stays literal in front of the literal too, which is a start of `after`
        cases ht
        obtain ⟨more, rfl⟩ := eq_append_of_split hsplit
        rw [hskips.of_append.split, ih text List.mem_cons_self]
        rfl
      · exact ih t (List.mem_cons_of_mem _ ht)

theorem contained_append (start : Text) {t : Text} (h : contained t = true) :
    contained (start ++ t) = true := by
  induction start with
  | nil => exact h
  | cons c start ih => rw [List.cons_append, contained, ih, Bool.or_true]

/-- Where a placeholder is split off, a token is found. -/
theorem contained_of_split (raw : Text) :
    ∀ i, .placeholder i ∈ split raw → contained raw = true := by
  induction raw using split_induction with
  | nil =>
      intro i hi
      cases List.mem_singleton.mp hi
  | token digits after i hdigits _ _ =>
      intro _ _
      rw [contained, token?_eq_some_iff.mpr ⟨hdigits, rfl⟩]
      rfl
  | skip start after text fragments _ _ ih =>
      intro i hi
      rcases List.mem_cons.mp hi with hi | hi
      · cases hi
      · exact contained_append start (ih i (List.mem_cons_of_mem _ hi))

/-! ## Joined static parts -/

theorem split_append {plain : Text} (h : '\x00' ∉ plain) (t : Text) :
    split (plain ++ t) = prependLiteral plain (split t) := by
  obtain ⟨text, fragments, hsplit⟩ := split_head t
  induction plain with
  | nil =>
      rw [List.nil_append, hsplit]
      rfl
  | cons c plain ih =>
      obtain ⟨hc, hplain⟩ := not_or.mp (mt List.mem_cons.mpr h)
      rw [List.cons_append, split_char (Ne.symm hc), ih hplain, hsplit]
      rfl

/-- The fragments of static parts that follow an expression each, where the first of these
expressions has number `i`. -/
def following (i : Nat) (quasis : List Text) : List Fragment :=
  (quasis.zipIdx i).flatMap fun part => [.placeholder part.2, .literal part.1]

theorem split_joinFrom {i : Nat} {quasis : List Text} (hplain : ∀ quasi ∈ quasis, '\x00' ∉ quasi)
    (hcount : i + quasis.length ≤ indexLimit) :
    split (joinFrom i quasis) = .literal [] :: following i quasis := by
  induction quasis generalizing i with
  | nil =>
      rw [joinFrom, split]
      rfl
  | cons quasi quasis ih =>
      rw [List.length_cons] at hcount
      have hrest := ih (fun other h => hplain other (List.mem_cons_of_mem _ h))
        (by omega : i + 1 + quasis.length ≤ indexLimit)
      rw [joinFrom, List.append_assoc, split_encode (by omega),
        split_append (hplain quasi List.mem_cons_self), hrest]
      simp [prependLiteral, following]

/-- **Splitting undoes joining.** -/
theorem split_join {first : Text} {others : List Text}
    (hplain : ∀ quasi ∈ first :: others, '\x00' ∉ quasi) (hcount : others.length ≤ indexLimit) :
    split (join (first :: others)) = .literal first :: following 0 others := by
  have hrest := split_joinFrom (fun other h => hplain other (List.mem_cons_of_mem _ h))
    (by omega : 0 + others.length ≤ indexLimit)
  rw [join, split_append (hplain first List.mem_cons_self), hrest]
  simp [prependLiteral]

/-- **The placeholder codec.** Static parts without NUL, at most as many after the first as there
are indices, are joined and split back into themselves, with the expressions in order between them.
Whatever a raw text holds, its fragments are literals and placeholders in turn, a literal first and
last, and one after the other they make up the text; its literals are not split any further; and if
there is a placeholder among them, the text counts as one with a token. -/
theorem split_laws :
    (∀ (first : Text) (others : List Text), (∀ quasi ∈ first :: others, '\x00' ∉ quasi) →
      others.length ≤ indexLimit →
      split (join (first :: others))
        = .literal first :: others.zipIdx.flatMap fun part =>
          [.placeholder part.2, .literal part.1]) ∧
    ∀ raw : Text,
      Alternates (split raw) ∧
      (∃ pieces, List.Forall₂ Fragment.Spells (split raw) pieces ∧ raw = pieces.flatten) ∧
      (∀ t, .literal t ∈ split raw → split t = [.literal t]) ∧
      ((∃ i, .placeholder i ∈ split raw) → contained raw = true) := by
  refine ⟨fun first others hplain hcount => split_join hplain hcount, fun raw => ?_⟩
  exact ⟨alternates_split raw, exists_spelling raw, split_literal raw,
    fun ⟨i, hi⟩ => contained_of_split raw i hi⟩

/-- Two expressions with nothing between them, and a number that is no index: its token uses up the
NUL character with which the token behind it would begin. -/
theorem split_laws_shared_delimiter :
    (∀ quasi ∈ ["a".toList, [], "b".toList], '\x00' ∉ quasi) ∧
    split (join ["a".toList, [], "b".toList])
      = [.literal "a".toList, .placeholder 0, .literal [], .placeholder 1, .literal "b".toList] ∧
    let raw := "\x0018446744073709551616\x007\x00".toList
    .literal raw ∈ split raw ∧ split raw = [.literal raw] := by
  have hplain : ∀ quasi ∈ ["a".toList, [], "b".toList], '\x00' ∉ quasi := by simp
  refine ⟨hplain, split_laws.1 _ _ hplain (by decide), ?_⟩
  intro raw
  have hmem : .literal raw ∈ split raw := by decide +kernel
  exact ⟨hmem, (split_laws.2 raw).2.2.1 raw hmem⟩

end Placeholder
end Hypertext
