import Hypertext.Text.Number

set_option autoImplicit false

/-! # Placeholders

While the static parts of a template are read as markup, expression `i` is represented by a token:
the number `i` in decimal between two NUL characters. Any raw text taken from the markup is then
split back into literal text and expression indices.

Indices are 64-bit words. A token with digits of another script, or with a number that does not fit,
is literal text, and its two NUL characters belong to it. -/

namespace Hypertext

/-- A piece of raw text. -/
inductive Fragment where
  | literal (text : Text)
  | placeholder (index : Nat)
  deriving DecidableEq, Repr

namespace Placeholder

/-- Indices are below this bound. -/
def indexLimit : Nat := UInt64.size

/-- The token of an expression. -/
def encode (index : Nat) : Text := '\x00' :: (Text.ofNat index ++ ['\x00'])

/-- The digits of the token at the start of a text, and what follows it. -/
def token? : Text → Option (Text × Text)
  | '\x00' :: t =>
    match t.takeWhile isDecimalDigit, t.dropWhile isDecimalDigit with
    | d :: digits, '\x00' :: rest => some (d :: digits, rest)
    | _, _ => none
  | _ => none

theorem token?_length {t digits rest : Text} (h : token? t = some (digits, rest)) :
    rest.length < t.length := by
  unfold token? at h
  split at h
  · next t =>
    split at h
    · next hdrop =>
      have hle := Text.dropWhile_length_le isDecimalDigit t
      rw [hdrop] at hle
      simp only [Option.some.injEq, Prod.mk.injEq] at h
      obtain ⟨-, rfl⟩ := h
      simp only [List.length_cons] at hle ⊢
      omega
    · simp at h
  · simp at h

/-- The number that the digits of a token stand for. -/
def index? (digits : Text) : Option Nat :=
  let n := digits.foldl (fun n c => n * 10 + (c.toNat - '0'.toNat)) 0
  if digits.all Char.isDigit ∧ n < indexLimit then some n else none

/-- Whether a text holds a token, one that stays literal included. -/
def contained : Text → Bool
  | [] => false
  | c :: t => (token? (c :: t)).isSome || contained t

/-- Puts text in front of the first literal. -/
def prependLiteral (t : Text) : List Fragment → List Fragment
  | .literal u :: fragments => .literal (t ++ u) :: fragments
  | fragments => .literal t :: fragments

/-- Puts what a token with these digits stands for in front of fragments. -/
def prependToken (digits : Text) (fragments : List Fragment) : List Fragment :=
  match index? digits with
  | some i => .literal [] :: .placeholder i :: fragments
  | none => prependLiteral ('\x00' :: (digits ++ ['\x00'])) fragments

/-- The fragments of a raw text: literals and placeholders in turn, a literal first and last. -/
def split (t : Text) : List Fragment :=
  match t with
  | [] => [.literal []]
  | c :: rest =>
    match h : token? (c :: rest) with
    | some (digits, after) =>
      have : after.length ≤ rest.length := Nat.le_of_lt_succ (token?_length h)
      prependToken digits (split after)
    | none => prependLiteral [c] (split rest)
termination_by t.length

/-- The fragments without the empty literals. -/
def nonEmpty (fragments : List Fragment) : List Fragment :=
  fragments.filter fun fragment => fragment != .literal []

/-- The static parts that follow the expression before number `i`, each after its token. -/
def joinFrom (i : Nat) : List Text → Text
  | [] => []
  | quasi :: quasis => encode i ++ quasi ++ joinFrom (i + 1) quasis

/-- Static parts joined by the tokens of the expressions between them. -/
def join : List Text → Text
  | [] => []
  | quasi :: quasis => quasi ++ joinFrom 0 quasis

end Placeholder
end Hypertext
