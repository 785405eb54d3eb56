import Hypertext.Proofs.PlaceholderCodec

set_option autoImplicit false

/-! # The text of composed values

A raw text is split into fragments, and the fragments are put together to a value in one of two
ways: all of them as text (`Value.composed`), or a single one as it is (`Value.soleOrJoined`). When
the code runs, every expression has a text. This file says what text the values then have
(`Value.text?`): the raw text with each token replaced by the text of its expression
(`Placeholder.substitute`), whichever way the value was put together (`Value.composed_text`).
-/

namespace Hypertext

/-- The text of a fragment, where `texts` gives the text of each expression. -/
def Fragment.textWith (texts : Nat → Text) : Fragment → Text
  | .literal text => text
  | .placeholder index => texts index

/-! ## Replacing tokens -/

namespace Placeholder

/-- What stands for a token: the text of its expression. What looks like a token but has no index
stays. -/
def tokenText (texts : Nat → Text) (digits : Text) : Text :=
  match index? digits with
  | some i => texts i
  | none => '\x00' :: (digits ++ ['\x00'])

/-- A raw text in which each token is replaced by the text of its expression. -/
def substitute (texts : Nat → Text) (raw : Text) : Text :=
  match raw with
  | [] => []
  | c :: rest =>
    match h : token? (c :: rest) with
    | some (digits, after) =>
      have : after.length ≤ rest.length := Nat.le_of_lt_succ (token?_length h)
      tokenText texts digits ++ substitute texts after
    | none => c :: substitute texts rest
termination_by raw.length

theorem substitute_token (texts : Nat → Text) {digits : Text} (hdigits : IsDigits digits)
    (after : Text) : substitute texts ('\x00' :: (digits ++ '\x00' :: after))
      = tokenText texts digits ++ substitute texts after := by
  have htoken : token? ('\x00' :: (digits ++ '\x00' :: after)) = some (digits, after) :=
    token?_eq_some_iff.mpr ⟨hdigits, rfl⟩
  rw [substitute]
  split
  · next h =>
      rw [htoken] at h
      cases h
      rfl
  · next h =>
      rw [htoken] at h
      cases h

theorem Skips.substitute (texts : Nat → Text) {start after : Text} (h : Skips start after) :
    Placeholder.substitute texts (start ++ after)
      = start ++ Placeholder.substitute texts after := by
  cases h with
  | char h =>
      rw [List.singleton_append, Placeholder.substitute]
      split
      · next hsome =>
          rw [h] at hsome
          cases hsome
      · rfl
  | @token digits _ hdigits hindex =>
      have hwhole : '\x00' :: (digits ++ ['\x00']) ++ after
          = '\x00' :: (digits ++ '\x00' :: after) := by simp
      rw [hwhole, substitute_token texts hdigits, tokenText, hindex]

/-- **Replacing tokens is putting fragments together** with the texts of the expressions between
them. -/
theorem flatMap_split (texts : Nat → Text) (raw : Text) :
    (split raw).flatMap (Fragment.textWith texts) = substitute texts raw := by
  induction raw using split_induction with
  | nil =>
      rw [substitute]
      rfl
  | token digits after i hdigits hindex ih =>
      rw [substitute_token texts hdigits, tokenText, hindex, ← ih]
      rfl
  | skip start after text fragments hskips _ ih =>
      rw [hskips.substitute, ← ih]
      simp [Fragment.textWith]

theorem flatMap_nonEmpty (texts : Nat → Text) (fragments : List Fragment) :
    (nonEmpty fragments).flatMap (Fragment.textWith texts)
      = fragments.flatMap (Fragment.textWith texts) := by
  induction fragments with
  | nil => rfl
  | cons fragment rest ih =>
      unfold nonEmpty at ih ⊢
      by_cases h : fragment = .literal []
      · subst h
        exact ih
      · rw [List.filter_cons_of_pos (by simpa using h), List.flatMap_cons, List.flatMap_cons, ih]

end Placeholder

/-! ## Values as text -/

namespace Value

/-- The text that a value has or is converted to. A node has none. -/
def text? (texts : Nat → Text) : Value → Option Text
  | .str text => some text
  | .expr index => some (texts index)
  | .ref _ => none
  | .toText value => value.text? texts
  | .concat left right =>
    match left.text? texts, right.text? texts with
    | some first, some second => some (first ++ second)
    | _, _ => none

variable (texts : Nat → Text)

@[simp] theorem text?_ofFragment (fragment : Fragment) :
    (ofFragment fragment).text? texts = some (fragment.textWith texts) := by
  cases fragment <;> rfl

/-- A value has the same text after it is converted. -/
@[simp] theorem text?_asText (value : Value) : value.asText.text? texts = value.text? texts := by
  cases value <;> rfl

theorem text?_foldl {value : Value} {text : Text} (h : value.text? texts = some text)
    (fragments : List Fragment) :
    ((fragments.map fun fragment => (ofFragment fragment).asText).foldl .concat value).text? texts
      = some (text ++ fragments.flatMap (Fragment.textWith texts)) := by
  induction fragments generalizing value text with
  | nil => simpa using h
  | cons fragment rest ih =>
      have hfirst : (Value.concat value (ofFragment fragment).asText).text? texts
          = some (text ++ fragment.textWith texts) := by
        rw [text?, h, text?_asText, text?_ofFragment]
      rw [List.map_cons, List.foldl_cons, ih hfirst, List.flatMap_cons, List.append_assoc]

theorem text?_composed (fragments : List Fragment) :
    (composed fragments).text? texts = some (fragments.flatMap (Fragment.textWith texts)) := by
  cases fragments with
  | nil => rfl
  | cons fragment rest =>
      have hfirst : (ofFragment fragment).asText.text? texts = some (fragment.textWith texts) := by
        rw [text?_asText, text?_ofFragment]
      rw [composed, List.map_cons, concatAll, Option.getD_some, text?_foldl texts hfirst,
        List.flatMap_cons]

/-- Leaving a single fragment as it is, and empty literals out, does not change the text. -/
theorem text?_soleOrJoined (fragments : List Fragment) :
    (soleOrJoined fragments).text? texts = some (fragments.flatMap (Fragment.textWith texts)) := by
  rw [soleOrJoined, ← Placeholder.flatMap_nonEmpty]
  split
  · next only heq => rw [heq, text?_ofFragment, List.flatMap_singleton]
  · exact text?_composed texts _

/-- **The text of composed values.** Whatever text each expression has, both values that are put
together from a raw text have as text the raw text with its tokens replaced, and both evaluate the
expressions of the raw text, in order. -/
theorem composed_text (raw : Text) :
    let fragments := Placeholder.split raw
    (composed fragments).text? texts = some (Placeholder.substitute texts raw) ∧
    (soleOrJoined fragments).asText.text? texts = some (Placeholder.substitute texts raw) ∧
    (composed fragments).expressions = fragments.filterMap Fragment.index? ∧
    (soleOrJoined fragments).expressions = fragments.filterMap Fragment.index? := by
  refine ⟨?_, ?_, expressions_composed _, expressions_soleOrJoined _⟩
  · rw [text?_composed, Placeholder.flatMap_split]
  · rw [text?_asText, text?_soleOrJoined, Placeholder.flatMap_split]

/-- Zeros in front of a number belong to its token. A NUL character that begins no token stays. -/
example : Placeholder.substitute (fun i => Text.ofNat (10 * i)) "\x00007\x00 \x00\x001\x00x".toList
    = "70 \x0010x".toList := by
  decide +kernel

end Value
end Hypertext
