import Hypertext.Text.Basic

set_option autoImplicit false

/-! # Sets of code points

The Unicode properties are long lists of ranges. A set is written as text, in hexadecimal:
`41-5A 61-7A AA` holds the letters of ASCII and U+00AA. The ranges are disjoint and ascending, so
membership is a binary search. -/

namespace Hypertext

/-- A set of code points as ascending, disjoint ranges with both ends included. -/
structure CodePoints where
  ranges : Array (Nat × Nat)

namespace CodePoints

/-- The number written in hexadecimal digits; other characters count as zero. -/
def readHex (t : Text) : Nat := t.foldl (fun n c => n * 16 + (Text.hexDigit? c).getD 0) 0

/-- The parts of a text between the characters that satisfy `cut`, without the empty ones. -/
def pieces (cut : Char → Bool) (t : Text) : List Text :=
  (Text.splitOn cut t).filter fun piece => !piece.isEmpty

/-- One range, `41-5A`, or a single code point, `AA`. -/
def readRange (t : Text) : Nat × Nat :=
  match pieces (· == '-') t with
  | [low, high] => (readHex low, readHex high)
  | _ => (readHex t, readHex t)

/-- The set written as lines of ranges. -/
def ofRanges (lines : List String) : CodePoints :=
  ⟨((lines.flatMap fun line => pieces (· == ' ') line.toList).map readRange).toArray⟩

/-- Binary search among the ranges from index `low` up to `high`. -/
def search (ranges : Array (Nat × Nat)) (n low high : Nat) : Bool :=
  if low < high then
    let middle := (low + high) / 2
    let range := ranges.getD middle (0, 0)
    if n < range.1 then search ranges n low middle
    else if range.2 < n then search ranges n (middle + 1) high
    else true
  else false
termination_by high - low

/-- Whether a character belongs to the set. -/
def has (set : CodePoints) (c : Char) : Bool := search set.ranges c.toNat 0 set.ranges.size

end CodePoints
end Hypertext
