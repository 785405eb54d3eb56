import Hypertext.Placeholder
import Hypertext.Proofs.FreshNames
import Mathlib.Data.List.TakeWhile

set_option autoImplicit false

/-! # Texts with placeholders

A text can be made of characters other than NUL and of whole tokens (`Carries`). The static parts of
a template, joined by tokens, make such a text (`carries_join`). It can be cut in front of any
character that is in no token (`Carries.cut`). No part of a token is left over when it is split
(`Carries.intact`), and it splits into exactly the expressions whose tokens it is made of
(`Carries.indices`).
-/

namespace Hypertext

namespace Fragment

/-- The expression that a fragment stands for. -/
def index? : Fragment → Option Nat
  | .literal _ => none
  | .placeholder index => some index

/-- A literal without any part of a token, or one of the first `n` expressions. -/
def Sound (n : Nat) : Fragment → Prop
  | .literal text => '\x00' ∉ text
  | .placeholder index => index < n

end Fragment

namespace Placeholder

/-- The expressions in a raw text, in order. -/
def indices (t : Text) : List Nat := (split t).filterMap Fragment.index?

/-- A raw text without any part of a token, that holds some of the first `n` expressions. -/
def Intact (n : Nat) (t : Text) : Prop := ∀ fragment ∈ split t, fragment.Sound n

/-- A text of characters and whole tokens, and the expressions of its tokens, which are among the
first `n`. -/
inductive Carries (n : Nat) : Text → List Nat → Prop where
  | nil : Carries n [] []
  | char {c : Char} {t : Text} {row : List Nat} (hc : c ≠ '\x00') (h : Carries n t row) :
      Carries n (c :: t) row
  | token {i : Nat} {t : Text} {row : List Nat} (hi : i < n) (h : Carries n t row) :
      Carries n (encode i ++ t) (i :: row)

/-! ## Putting texts together -/

theorem Carries.plain_append {n : Nat} {plain t : Text} {row : List Nat} (hplain : '\x00' ∉ plain)
    (h : Carries n t row) : Carries n (plain ++ t) row := by
  induction plain with
  | nil => exact h
  | cons c plain ih =>
      obtain ⟨hc, hrest⟩ := not_or.mp (mt List.mem_cons.mpr hplain)
      exact .char (Ne.symm hc) (ih hrest)

theorem carries_plain (n : Nat) {t : Text} (h : '\x00' ∉ t) : Carries n t [] := by
  rw [← List.append_nil t]
  exact Carries.nil.plain_append h

theorem carries_joinFrom {n i : Nat} {quasis : List Text}
    (hplain : ∀ quasi ∈ quasis, '\x00' ∉ quasi) (hn : i + quasis.length ≤ n) :
    Carries n (joinFrom i quasis) (List.range' i quasis.length) := by
  induction quasis generalizing i with
  | nil => exact .nil
  | cons quasi quasis ih =>
      rw [List.length_cons] at hn ⊢
      have hrest : Carries n (joinFrom (i + 1) quasis) (List.range' (i + 1) quasis.length) :=
        ih (fun other h => hplain other (List.mem_cons_of_mem _ h)) (by omega)
      rw [joinFrom, List.append_assoc, List.range'_succ]
      exact .token (by omega) (hrest.plain_append (hplain quasi List.mem_cons_self))

/-- **Joined static parts** carry each expression between them once, in order. -/
theorem carries_join {n : Nat} {quasis : List Text} (hlength : quasis.length = n + 1)
    (hplain : ∀ quasi ∈ quasis, '\x00' ∉ quasi) : Carries n (join quasis) (List.range n) := by
  cases quasis with
  | nil => cases hlength
  | cons quasi quasis =>
      have hcount : quasis.length = n := Nat.succ.inj hlength
      have hrest : Carries n (joinFrom 0 quasis) (List.range' 0 quasis.length) :=
        carries_joinFrom (fun other h => hplain other (List.mem_cons_of_mem _ h)) (by omega)
      rw [hcount, ← List.range_eq_range'] at hrest
      exact hrest.plain_append (hplain quasi List.mem_cons_self)

/-! ## Cutting texts -/

/-- The characters of tokens. -/
def isTokenChar (c : Char) : Bool := c == '\x00' || c.isDigit

theorem isTokenChar_of_mem_encode {i : Nat} {c : Char} (h : c ∈ encode i) :
    isTokenChar c = true := by
  rcases List.mem_cons.mp h with rfl | h
  · rfl
  · rcases List.mem_append.mp h with h | h
    · have hdigit : c.isDigit = true := Nat.isDigit_of_mem_toDigits (by decide) (by decide) h
      rw [isTokenChar, hdigit, Bool.or_true]
    · rw [List.mem_singleton.mp h]
      rfl

theorem Carries.of_cons {n : Nat} {c : Char} {t : Text} {row : List Nat} (hc : c ≠ '\x00')
    (h : Carries n (c :: t) row) : Carries n t row := by
  generalize htext : c :: t = u at h
  cases h with
  | nil => cases htext
  | char _ h =>
      cases htext
      exact h
  | token _ _ => exact absurd (List.cons.inj htext).1 hc

/-- **No cut goes through a token** if what follows it begins with a character of no token. -/
theorem Carries.cut {n : Nat} {before after : Text} {row : List Nat}
    (h : Carries n (before ++ after) row)
    (hafter : ∀ c, after.head? = some c → isTokenChar c = false) :
    ∃ first second, row = first ++ second ∧ Carries n before first ∧ Carries n after second := by
  generalize htext : before ++ after = t at h
  induction h generalizing before with
  | nil =>
      obtain ⟨rfl, rfl⟩ := List.append_eq_nil_iff.mp htext
      exact ⟨[], [], rfl, .nil, .nil⟩
  | @char c t row hc h ih =>
      cases before with
      | nil =>
          subst htext
          exact ⟨[], row, rfl, .nil, .char hc h⟩
      | cons d before =>
          obtain ⟨rfl, rfl⟩ := List.cons.inj htext
          obtain ⟨first, second, rfl, hfirst, hsecond⟩ := ih rfl
          exact ⟨first, second, rfl, .char hc hfirst, hsecond⟩
  | @token i t row hi h ih =>
      rcases List.append_eq_append_iff.mp htext with ⟨middle, hencode, rfl⟩ | ⟨start, rfl, rfl⟩
      · cases middle with
        | nil =>
            rw [List.append_nil] at hencode
            subst hencode
            exact ⟨[i], row, rfl, by simpa using Carries.token hi .nil, h⟩
        | cons c middle =>
            -- a character of the token would follow the cut
            have hmem : c ∈ encode i := by simp [hencode]
            have hnot := hafter c rfl
            rw [isTokenChar_of_mem_encode hmem] at hnot
            cases hnot
      · obtain ⟨first, second, rfl, hfirst, hsecond⟩ := ih rfl
        exact ⟨i :: first, second, rfl, .token hi hfirst, hsecond⟩

section

variable {n : Nat} {t : Text} {row : List Nat}

/-- A cut at the first character that does not satisfy `p`, where the characters of tokens do. -/
theorem Carries.span {p : Char → Bool} (hp : ∀ c, p c = false → isTokenChar c = false)
    (h : Carries n t row) :
    ∃ first second, row = first ++ second ∧ Carries n (t.takeWhile p) first ∧
      Carries n (t.dropWhile p) second := by
  rw [← List.takeWhile_append_dropWhile (p := p) (l := t)] at h
  refine h.cut fun c hc => hp c ?_
  have hnot := List.head?_dropWhile_not p t
  rw [hc] at hnot
  exact hnot

theorem Carries.breakAt {stop : Text → Bool}
    (hstop : ∀ c t, stop (c :: t) = true → isTokenChar c = false) (h : Carries n t row) :
    ∃ first second, row = first ++ second ∧ Carries n (Text.breakAt stop t).1 first ∧
      Carries n (Text.breakAt stop t).2 second := by
  rw [← Text.breakAt_append stop t] at h
  refine h.cut fun c hc => ?_
  rcases Text.breakAt_stop stop t with hnil | hstopped
  · rw [hnil] at hc
    cases hc
  · obtain ⟨rest, hrest⟩ := List.head?_eq_some_iff.mp hc
    rw [hrest] at hstopped
    exact hstop c rest hstopped

theorem Carries.dropWhile {p : Char → Bool} (hp : p '\x00' = false) (h : Carries n t row) :
    Carries n (t.dropWhile p) row := by
  induction t with
  | nil => exact h
  | cons c t ih =>
      by_cases hc : p c = true
      · have hne : c ≠ '\x00' := by
          rintro rfl
          rw [hp] at hc
          cases hc
        rw [List.dropWhile_cons_of_pos hc]
        exact ih (h.of_cons hne)
      · rw [List.dropWhile_cons_of_neg hc]
        exact h

end

/-! ## Splitting texts -/

theorem isDecimalDigit_of_isDigit {c : Char} (h : c.isDigit = true) : isDecimalDigit c = true := by
  have hascii : c.toNat < 128 := by
    simp only [Char.isDigit, Bool.and_eq_true, decide_eq_true_eq, ge_iff_le,
      UInt32.le_iff_toNat_le] at h
    have hle : c.toNat ≤ 57 := h.2
    omega
  rw [isDecimalDigit, if_pos hascii]
  exact h

/-- The digits of a token, in any script. -/
def IsDigits (digits : Text) : Prop := digits ≠ [] ∧ ∀ c ∈ digits, isDecimalDigit c = true

/-- A token is read exactly where its NUL characters and digits stand. -/
theorem token?_eq_some_iff {t digits rest : Text} :
    token? t = some (digits, rest) ↔
      IsDigits digits ∧ t = '\x00' :: (digits ++ '\x00' :: rest) := by
  constructor
  · intro h
    unfold token? at h
    split at h
    · split at h
      · next htake hdrop =>
          cases h
          refine ⟨⟨List.cons_ne_nil _ _, fun c hc => ?_⟩, ?_⟩
          · rw [← htake] at hc
            exact List.mem_takeWhile_imp hc
          · rw [← htake, ← hdrop, List.takeWhile_append_dropWhile]
      · cases h
    · cases h
  · rintro ⟨⟨hne, hdigits⟩, rfl⟩
    obtain ⟨d, ds, rfl⟩ := List.exists_cons_of_ne_nil hne
    have htake : (d :: ds ++ '\x00' :: rest).takeWhile isDecimalDigit = d :: ds := by
      rw [List.takeWhile_append_of_pos hdigits, List.takeWhile_cons_of_neg (by decide),
        List.append_nil]
    have hdrop : (d :: ds ++ '\x00' :: rest).dropWhile isDecimalDigit = '\x00' :: rest := by
      rw [List.dropWhile_append_of_pos hdigits, List.dropWhile_cons_of_neg (by decide)]
    rw [token?, htake, hdrop]
    rfl

/-- The token of an expression is read back. -/
theorem token?_encode (i : Nat) (t : Text) :
    token? (encode i ++ t) = some (Text.ofNat i, t) := by
  refine token?_eq_some_iff.mpr ⟨⟨Text.ofNat_ne_nil i, fun c hc => ?_⟩, by simp [encode]⟩
  exact isDecimalDigit_of_isDigit (Nat.isDigit_of_mem_toDigits (by decide) (by decide) hc)

theorem index?_ofNat {i : Nat} (h : i < indexLimit) : index? (Text.ofNat i) = some i := by
  have hdigits : (Text.ofNat i).all Char.isDigit = true :=
    List.all_eq_true.mpr fun c hc => Nat.isDigit_of_mem_toDigits (by decide) (by decide) hc
  have hvalue : (Text.ofNat i).foldl (fun n c => n * 10 + (c.toNat - '0'.toNat)) 0 = i := by
    have hread := Nat.ofDigitChars_toDigits (b := 10) (n := i) (by decide) (by decide)
    simp only [Nat.ofDigitChars, Nat.mul_comm 10] at hread
    exact hread
  unfold index?
  simp only [hvalue, hdigits, h, and_self, if_true]

theorem split_of_token {t digits after : Text} (h : token? t = some (digits, after)) :
    split t = prependToken digits (split after) := by
  cases t with
  | nil => cases h
  | cons c t =>
      rw [split]
      split
      · next hsome =>
          rw [h] at hsome
          cases hsome
          rfl
      · next hnone =>
          rw [h] at hnone
          cases hnone

theorem split_of_no_token {c : Char} {t : Text} (h : token? (c :: t) = none) :
    split (c :: t) = prependLiteral [c] (split t) := by
  rw [split]
  split
  · next hsome =>
      rw [h] at hsome
      cases hsome
  · rfl

theorem split_encode {i : Nat} (h : i < indexLimit) (t : Text) :
    split (encode i ++ t) = .literal [] :: .placeholder i :: split t := by
  rw [split_of_token (token?_encode i t), prependToken, index?_ofNat h]

theorem split_char {c : Char} (hc : c ≠ '\x00') (t : Text) :
    split (c :: t) = prependLiteral [c] (split t) := by
  refine split_of_no_token (Option.eq_none_iff_forall_ne_some.mpr fun result hsome => ?_)
  exact hc (List.cons.inj (token?_eq_some_iff.mp hsome).2).1

theorem filterMap_prependLiteral (t : Text) (fragments : List Fragment) :
    (prependLiteral t fragments).filterMap Fragment.index?
      = fragments.filterMap Fragment.index? := by
  unfold prependLiteral
  split <;> rfl

theorem sound_prependLiteral {n : Nat} {t : Text} {fragments : List Fragment} (ht : '\x00' ∉ t)
    (h : ∀ fragment ∈ fragments, fragment.Sound n) :
    ∀ fragment ∈ prependLiteral t fragments, fragment.Sound n := by
  unfold prependLiteral
  split
  · next u rest =>
      have hu : '\x00' ∉ u := h (.literal u) List.mem_cons_self
      intro fragment hfragment
      rcases List.mem_cons.mp hfragment with rfl | hfragment
      · simp [Fragment.Sound, ht, hu]
      · exact h fragment (List.mem_cons_of_mem _ hfragment)
  · intro fragment hfragment
    rcases List.mem_cons.mp hfragment with rfl | hfragment
    · exact ht
    · exact h fragment hfragment

section

variable {n : Nat} {t : Text} {row : List Nat}

/-- **Such a text is split at its tokens.** -/
theorem Carries.split (hn : n ≤ indexLimit) (h : Carries n t row) :
    Intact n t ∧ indices t = row := by
  unfold Intact indices
  induction h with
  | nil =>
      rw [Placeholder.split]
      refine ⟨fun fragment hfragment => ?_, rfl⟩
      rw [List.mem_singleton.mp hfragment]
      exact List.not_mem_nil
  | @char c t row hc _ ih =>
      rw [split_char hc, filterMap_prependLiteral]
      exact ⟨sound_prependLiteral (by simpa using Ne.symm hc) ih.1, ih.2⟩
  | @token i t row hi _ ih =>
      rw [split_encode (Nat.lt_of_lt_of_le hi hn)]
      refine ⟨fun fragment hfragment => ?_, ?_⟩
      · rcases List.mem_cons.mp hfragment with rfl | hfragment
        · exact List.not_mem_nil
        · rcases List.mem_cons.mp hfragment with rfl | hfragment
          · exact hi
          · exact ih.1 fragment hfragment
      · rw [← ih.2]
        rfl

theorem Carries.intact (hn : n ≤ indexLimit) (h : Carries n t row) : Intact n t := (h.split hn).1

theorem Carries.indices (hn : n ≤ indexLimit) (h : Carries n t row) : Placeholder.indices t = row :=
  (h.split hn).2

theorem indices_plain (h : '\x00' ∉ t) : indices t = [] :=
  (carries_plain 0 h).indices (Nat.zero_le _)

/-- Such a text, if it holds no token, holds no part of one. -/
theorem Carries.plain (h : Carries n t row) (hstatic : contained t = false) :
    '\x00' ∉ t ∧ row = [] := by
  induction h with
  | nil => exact ⟨List.not_mem_nil, rfl⟩
  | @char c t row hc _ ih =>
      rw [contained, Bool.or_eq_false_iff] at hstatic
      obtain ⟨hplain, hrow⟩ := ih hstatic.2
      exact ⟨by simp [Ne.symm hc, hplain], hrow⟩
  | @token i t row hi _ _ =>
      have htoken := token?_encode i t
      obtain ⟨c, u, htext⟩ : ∃ c u, encode i ++ t = c :: u := ⟨_, _, rfl⟩
      rw [htext] at hstatic htoken
      rw [contained, htoken] at hstatic
      cases hstatic

end

end Placeholder
end Hypertext
