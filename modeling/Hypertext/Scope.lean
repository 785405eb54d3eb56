import Hypertext.Value

set_option autoImplicit false

/-! # Scopes

All templates of one script share a scope: the names that are taken, the values that are
declared once for all of them, and the number of the next lifecycle handler. -/

namespace Hypertext

/-! ## Helpers and shared values -/

/-- The functions that generated code calls. -/
inductive Helper where
  /-- Appends values to an element. -/
  | appendChild
  /-- Sets an attribute whose name is known only when the code runs. -/
  | setAttribute
  /-- Calls handlers when an element comes and goes. -/
  | onLoad
  deriving DecidableEq, Repr

/-- The key of a helper among the shared values, and the hint for its name. -/
def Helper.key : Helper → Text
  | .appendChild => "appendChild".toList
  | .setAttribute => "setAttribute".toList
  | .onLoad => "onload".toList

/-- What a shared value is initialised with. -/
inductive SharedInit where
  | literal (text : Text)
  | helper (helper : Helper)
  deriving DecidableEq, Repr

/-- A shared value. -/
structure Shared where
  key : Text
  binding : Binding
  init : SharedInit
  deriving DecidableEq, Repr

/-! ## Names -/

/-- The characters of a hint that a name can keep. -/
def isStemChar (c : Char) : Bool := c.isAlphanum || c == '_' || c == '$'

/-- The kept characters after the first, where `upper` says that a character was dropped just
before. -/
def stemTail (upper : Bool) : Text → Text
  | [] => []
  | c :: t =>
    if isStemChar c then (if upper then c.toUpper else c) :: stemTail false t
    else stemTail true t

/-- The kept characters of a hint. Those before the first letter or `$` are dropped. -/
def stemChars : Text → Text
  | [] => []
  | c :: t =>
    if isStemChar c && !(c.isDigit || c == '_') then c :: stemTail false t else stemChars t

/-- The stem of a name for a hint: what remains of it as part of an identifier, with no digit at the
end, or `ref` if nothing does. -/
def stem (hint : Text) : Text :=
  match ((stemChars hint).reverse.dropWhile Char.isDigit).reverse with
  | [] => "ref".toList
  | base => base

/-- The names for a stem: `_p`, `_p2`, `_p3` and so on. -/
def candidate (base : Text) (i : Nat) : Text :=
  '_' :: (if i = 0 then base else base ++ Text.ofNat (i + 1))

/-- The greatest number in a name. The search for a name counts in 32 bits with a sign, and does not
end if all names up to this one are taken. -/
def maxNumber : Nat := 2147483647

/-! ## The scope -/

/-- The state shared by the templates of one script: the names that are taken, each once, the shared
values in the order of their declaration, and the next number of a lifecycle handler, in 32 bits. -/
structure Scope where
  taken : List Text
  shared : List Shared
  generation : UInt32
  /-- Whether some search for a name does not end, so that there is no answer from then on. -/
  exhausted : Bool
  deriving Repr

namespace Scope

/-- A scope in which no name is taken. -/
def empty : Scope := ⟨[], [], 1, false⟩

/-- Takes a name. -/
def take (name : Text) (scope : Scope) : Scope :=
  { scope with taken := scope.taken.insert name }

/-- Takes names that the script uses itself. -/
def reserve (names : List Text) (scope : Scope) : Scope :=
  names.foldl (fun scope name => scope.take name) scope

/-- Whether a name is taken. -/
def isTaken (scope : Scope) (name : Text) : Bool := scope.taken.contains name

/-- The place of the first candidate that is not taken. One candidate more than there are taken
names is enough to find it among. -/
def freePlace (scope : Scope) (base : Text) : Nat :=
  ((List.range (scope.taken.length + 1)).find? fun i => !scope.isTaken (candidate base i)).getD
    (scope.taken.length + 1)

/-- The first candidate that is not taken. -/
def freeName (scope : Scope) (base : Text) : Text := candidate base (scope.freePlace base)

/-- A name for a hint that was not taken before, and now is. The search ends if the number of the
name is one that it can count to. -/
def fresh (hint : Text) (scope : Scope) : Binding × Scope :=
  let place := scope.freePlace (stem hint)
  let name := candidate (stem hint) place
  (⟨name⟩, { scope.take name with
    exhausted := scope.exhausted || decide (maxNumber ≤ place) })

/-- The shared value of a key. -/
def shared? (scope : Scope) (key : Text) : Option Shared :=
  scope.shared.find? fun value => value.key == key

/-- The binding of a shared value, which is declared when it is first asked for. -/
def declare (key : Text) (init : SharedInit) (scope : Scope) : Binding × Scope :=
  match scope.shared? key with
  | some value => (value.binding, scope)
  | none =>
    let named := scope.fresh key
    (named.1, { named.2 with shared := named.2.shared ++ [⟨key, named.1, init⟩] })

/-- The namespace of SVG elements. -/
def svgNamespaceUri : Text := "http://www.w3.org/2000/svg".toList

/-- The binding of the SVG namespace. -/
def svgNamespace (scope : Scope) : Binding × Scope :=
  scope.declare "svgNamespace".toList (.literal svgNamespaceUri)

/-- The binding of a helper. -/
def helper (helper : Helper) (scope : Scope) : Binding × Scope :=
  scope.declare helper.key (.helper helper)

/-- The next number for a lifecycle handler. Numbers start at 1, and after the greatest one they
start again at 0. -/
def nextGeneration (scope : Scope) : UInt32 × Scope :=
  (scope.generation, { scope with generation := scope.generation + 1 })

end Scope
end Hypertext
