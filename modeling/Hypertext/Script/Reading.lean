import Hypertext.Script.Lexeme

set_option autoImplicit false

/-! # Readings

A rule of the grammar reads a script at a cursor. Besides what it reads, a reading keeps the failed
attempts made on the way, because they explain the error if the script as a whole cannot be read: it
is reported where an attempt failed that no other one went beyond.

At that place a failed rule answers for its parts, unless exactly one failure among them is to
blame, which is then the more precise answer. -/

namespace Hypertext
namespace Script

/-- What can be expected, in the order in which it is listed. -/
inductive Expectation where
  | endOfInput | file | identifier | importDeclaration | requireDeclaration | moreDeclarators
  | requireCall | taggedTemplate | memberPath | template | substitution
  deriving DecidableEq, Repr

namespace Expectation

/-- All expectations in order. -/
def all : List Expectation :=
  [.endOfInput, .file, .identifier, .importDeclaration, .requireDeclaration, .moreDeclarators,
    .requireCall, .taggedTemplate, .memberPath, .template, .substitution]

/-- The name of an expectation in messages. -/
def name : Expectation → Text
  | .endOfInput => "EOI".toList
  | .file => "file".toList
  | .identifier => "ident".toList
  | .importDeclaration => "import_decl".toList
  | .requireDeclaration => "require_decl".toList
  | .moreDeclarators => "more_declarators".toList
  | .requireCall => "require_call".toList
  | .taggedTemplate => "tagged_template".toList
  | .memberPath => "member_path".toList
  | .template => "template".toList
  | .substitution => "substitution".toList

end Expectation

/-- The failure of a rule at an offset, with the failures among its parts. -/
inductive Attempt where
  | failed (rule : Expectation) (offset : Nat) (parts : List Attempt)
  deriving Repr

namespace Attempt

mutual

/-- The furthest offset of an attempt and its parts. -/
def furthest : Attempt → Nat
  | .failed _ offset parts => max offset (furthestOf parts)

/-- The furthest offset among attempts. -/
def furthestOf : List Attempt → Nat
  | [] => 0
  | attempt :: rest => max (furthest attempt) (furthestOf rest)

end

mutual

/-- What an attempt blames at the furthest offset. -/
def blame (place : Nat) : Attempt → List Expectation
  | .failed rule offset parts =>
    let blamed := blameAll place parts
    if offset = place ∧ blamed.length ≠ 1 then [rule] else blamed

/-- What attempts blame at the furthest offset. -/
def blameAll (place : Nat) : List Attempt → List Expectation
  | [] => []
  | attempt :: rest => blame place attempt ++ blameAll place rest

end

end Attempt

/-! ## Readers of rules -/

/-- A place in a script: its offset in bytes and the text from there on. -/
structure Cursor where
  offset : Nat
  rest : Text
  deriving DecidableEq, Repr

/-- The outcome of a rule: what it reads and the cursor after it, and the failed attempts. -/
structure Reading (α : Type) where
  result : Option (α × Cursor)
  attempts : List Attempt

/-- A rule of the grammar. -/
def Rule (α : Type) := Cursor → Reading α

namespace Rule

variable {α β : Type}

/-- Reads nothing. -/
def pure (a : α) : Rule α := fun cursor => ⟨some (a, cursor), []⟩

/-- One rule after the other. -/
def bind (p : Rule α) (f : α → Rule β) : Rule β := fun cursor =>
  let first := p cursor
  match first.result with
  | none => ⟨none, first.attempts⟩
  | some (a, next) =>
    let second := f a next
    ⟨second.result, first.attempts ++ second.attempts⟩

instance : Monad Rule where
  pure := pure
  bind := bind

/-- The second rule where the first fails. -/
def orElse (p : Rule α) (q : Unit → Rule α) : Rule α := fun cursor =>
  let first := p cursor
  match first.result with
  | some result => ⟨some result, first.attempts⟩
  | none =>
    let second := q () cursor
    ⟨second.result, first.attempts ++ second.attempts⟩

instance : OrElse (Rule α) := ⟨orElse⟩

/-- A rule whose failure is an attempt. -/
def named (expectation : Expectation) (p : Rule α) : Rule α := fun cursor =>
  let inner := p cursor
  match inner.result with
  | some result => ⟨some result, inner.attempts⟩
  | none => ⟨none, [.failed expectation cursor.offset inner.attempts]⟩

/-- A rule that must hold here and takes nothing. -/
def ahead (p : Rule α) : Rule Unit := fun cursor =>
  let inner := p cursor
  ⟨inner.result.map fun _ => ((), cursor), inner.attempts⟩

/-- A rule that may hold here. -/
def maybe (p : Rule α) : Rule Unit := fun cursor =>
  let inner := p cursor
  match inner.result with
  | some (_, next) => ⟨some ((), next), inner.attempts⟩
  | none => ⟨some ((), cursor), inner.attempts⟩

/-- A rule as often as it holds, at most `fuel` times. -/
def upTo (p : Rule α) : Nat → Rule (List α)
  | 0 => pure []
  | fuel + 1 => fun cursor =>
    let first := p cursor
    match first.result with
    | none => ⟨some ([], cursor), first.attempts⟩
    | some (a, next) =>
      let others := upTo p fuel next
      ⟨others.result.map fun result => (a :: result.1, result.2), first.attempts ++ others.attempts⟩

/-- A rule as often as it holds. It must take at least one character each time; the length of the
text then bounds how often it holds, and once more it is tried and fails. -/
def many (p : Rule α) : Rule (List α) := fun cursor => upTo p (cursor.rest.length + 1) cursor

/-- A lexeme. -/
def lexeme (reader : Lexeme.Reader) : Rule Text := fun cursor =>
  match reader cursor.rest with
  | none => ⟨none, []⟩
  | some (taken, rest) => ⟨some (taken, ⟨cursor.offset + taken.byteSize, rest⟩), []⟩

/-- The given characters. -/
def exactly (s : String) : Rule Text := lexeme (Lexeme.exactly s.toList)

/-- The offset of the cursor. -/
def offset : Rule Nat := fun cursor => ⟨some (cursor.offset, cursor), []⟩

/-- The end of the script. -/
def endOfInput : Rule Unit := named .endOfInput fun cursor =>
  ⟨if cursor.rest.isEmpty then some ((), cursor) else none, []⟩

end Rule
end Script
end Hypertext
