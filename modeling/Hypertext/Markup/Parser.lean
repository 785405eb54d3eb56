import Hypertext.Markup.Token

set_option autoImplicit false

/-! # Reading markup

The tokens of a markup are folded into a tree. The elements that are still open form a
chain, the innermost first; a node goes to the innermost open element, or to the roots when none is
open. In the end there is at most one root, and no text beside it but blanks. -/

namespace Hypertext

/-- An element whose closing tag has not come yet, with its children so far, the last one first. -/
structure OpenElement where
  tag : Text
  attributes : Attributes
  children : List Node
  offset : Nat

/-- A tree that is being read: the open elements, the innermost first, and the roots with their
offsets, the last one first. -/
structure PartialTree where
  opened : List OpenElement
  roots : List (Nat × Node)

namespace PartialTree

/-- The tree before anything is read. -/
def empty : PartialTree := ⟨[], []⟩

/-- Adds a node that is complete. -/
def add (offset : Nat) (node : Node) (tree : PartialTree) : PartialTree :=
  match tree.opened with
  | [] => { tree with roots := (offset, node) :: tree.roots }
  | parent :: others =>
    { tree with opened := { parent with children := node :: parent.children } :: others }

/-- Takes in one token. -/
def step (tree : PartialTree) : Nat × Token → Except TemplateError PartialTree
  | (offset, .text content) => .ok (tree.add offset (.text content))
  | (offset, .comment content) => .ok (tree.add offset (.comment [.text content]))
  | (offset, .opening tag given true) =>
    .ok (tree.add offset (.element tag (Token.properties given) []))
  | (offset, .opening tag given false) =>
    .ok { tree with opened := ⟨tag, Token.properties given, [], offset⟩ :: tree.opened }
  | (offset, .closing tag) =>
    match tree.opened with
    | [] => .error (.unexpectedClosingTag tag offset)
    | element :: others =>
      if element.tag = tag then
        .ok (add offset (.element element.tag element.attributes element.children.reverse)
          { tree with opened := others })
      else .error (.mismatchedClosingTag element.tag tag offset)

/-- Takes in tokens one after the other. -/
def steps (tree : PartialTree) : List (Nat × Token) → Except TemplateError PartialTree
  | [] => .ok tree
  | token :: tokens =>
    match tree.step token with
    | .error e => .error e
    | .ok next => next.steps tokens

/-- The nodes among the roots that are not text, when all text there is blank. -/
def rootNodes : List (Nat × Node) → Except TemplateError (List Node)
  | [] => .ok []
  | (offset, .text content) :: rest =>
    if content.isAllBlank then rootNodes rest else .error (.strayText offset)
  | (_, node) :: rest => (rootNodes rest).map (node :: ·)

/-- The root of a tree that is read to its end; there is none if only blanks were read. -/
def finish (tree : PartialTree) : Except TemplateError (Option Node) :=
  match tree.opened with
  | element :: _ => .error (.unclosedElement element.tag element.offset)
  | [] =>
    match rootNodes tree.roots.reverse with
    | .error e => .error e
    | .ok [] => .ok none
    | .ok [root] => .ok (some root)
    | .ok nodes => .error (.rootCount nodes.length)

end PartialTree

namespace Node

/-- Reads markup. An error in a token counts after the errors of the tokens before it. -/
def parse (markup : Text) : Except TemplateError (Option Node) :=
  let tokens := Token.readAll (Text.byteSize markup) markup
  match PartialTree.empty.steps tokens.1 with
  | .error e => .error e
  | .ok tree =>
    match tokens.2 with
    | some e => .error e
    | none => tree.finish

end Node
end Hypertext
