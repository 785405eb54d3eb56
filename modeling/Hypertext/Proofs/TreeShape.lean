import Hypertext.Proofs.Expressions
import Hypertext.Proofs.TagReading

set_option autoImplicit false

/-! # Shape and attributes of a tree

A tree is determined by its shape (`Node.bare`) and the attributes of its elements in document order
(`Node.attributeRow`, `Node.eq_of_bare`). Both are read off the tokens of markup one by one.

* The shape depends on the tokens without their attributes (`PartialTree.steps_bare`,
  `Node.parse_bare`).
* Every opening tag adds its attributes at the end of the row (`PartialTree.steps_attributeRow`,
  `Node.parse_attributeRow`).
-/

namespace Hypertext

/-! ## Trees -/

namespace Node

mutual

/-- A tree without the attributes of its elements. -/
def bare : Node → Node
  | .text content => .text content
  | .element tag _ children => .element tag [] (bareAll children)
  | .comment children => .comment children

/-- Trees without the attributes of their elements. -/
def bareAll : List Node → List Node
  | [] => []
  | node :: nodes => node.bare :: bareAll nodes

end

theorem bareAll_eq (nodes : List Node) : bareAll nodes = nodes.map bare := by
  induction nodes with
  | nil => rw [bareAll, List.map_nil]
  | cons node nodes ih => rw [bareAll, List.map_cons, ih]

/-- The attributes of the elements of a tree, in document order. -/
def attributeRow (node : Node) : List Attributes := (node.elements false).map Prod.fst

theorem map_elementsAll (nodes : List Node) :
    (elementsAll false nodes).map Prod.fst = nodes.flatMap attributeRow := by
  induction nodes with
  | nil => rw [elementsAll, List.map_nil, List.flatMap_nil]
  | cons node nodes ih => rw [elementsAll, List.map_append, List.flatMap_cons, ih, attributeRow]

@[simp] theorem attributeRow_text (content : Text) : (Node.text content).attributeRow = [] := by
  rw [attributeRow, elements, List.map_nil]

@[simp] theorem attributeRow_comment (children : List Node) :
    (Node.comment children).attributeRow = [] := by
  rw [attributeRow, elements]
  rfl

@[simp] theorem attributeRow_element (tag : Text) (attributes : Attributes) (children : List Node) :
    (Node.element tag attributes children).attributeRow
      = attributes :: children.flatMap attributeRow := by
  rw [attributeRow, elements, List.map_cons, map_elementsAll]

mutual

/-- **A tree is determined** by its shape and the attributes of its elements, also when these are
the first of a longer row. -/
theorem eq_of_bare {node other : Node} {row row' : List Attributes} (hbare : node.bare = other.bare)
    (hrow : node.attributeRow ++ row = other.attributeRow ++ row') : node = other ∧ row = row' := by
  match node, other with
  | .text content, .text content' =>
      simp only [bare, Node.text.injEq] at hbare
      simpa [hbare] using hrow
  | .comment children, .comment children' =>
      simp only [bare, Node.comment.injEq] at hbare
      simpa [hbare] using hrow
  | .element tag attributes children, .element tag' attributes' children' =>
      simp only [bare, Node.element.injEq, true_and] at hbare
      obtain ⟨rfl, hchildren⟩ := hbare
      rw [attributeRow_element, attributeRow_element, List.cons_append, List.cons_append] at hrow
      obtain ⟨rfl, hinside⟩ := List.cons.inj hrow
      obtain ⟨rfl, rfl⟩ := eqAll_of_bare hchildren hinside
      exact ⟨rfl, rfl⟩
  | .text _, .comment _ | .text _, .element .. | .comment _, .text _ | .comment _, .element ..
  | .element .., .text _ | .element .., .comment _ => simp [bare] at hbare

theorem eqAll_of_bare {nodes others : List Node} {row row' : List Attributes}
    (hbare : bareAll nodes = bareAll others)
    (hrow : nodes.flatMap attributeRow ++ row = others.flatMap attributeRow ++ row') :
    nodes = others ∧ row = row' := by
  match nodes, others with
  | [], [] => exact ⟨rfl, by simpa using hrow⟩
  | node :: nodes, other :: others =>
      simp only [bareAll, List.cons.injEq] at hbare
      rw [List.flatMap_cons, List.flatMap_cons, List.append_assoc, List.append_assoc] at hrow
      obtain ⟨rfl, hrest⟩ := eq_of_bare hbare.1 hrow
      obtain ⟨rfl, rfl⟩ := eqAll_of_bare hbare.2 hrest
      exact ⟨rfl, rfl⟩
  | [], _ :: _ | _ :: _, [] => simp [bareAll] at hbare

end

theorem eq_iff_of_bare {node other : Node} (hbare : node.bare = other.bare) :
    node = other ↔ node.attributeRow = other.attributeRow := by
  refine ⟨fun h => by rw [h], fun hrow => ?_⟩
  have happend : node.attributeRow ++ [] = other.attributeRow ++ [] := by rw [hrow]
  exact (eq_of_bare hbare happend).1

end Node

/-! ## The shape depends on the tokens without attributes -/

/-- A token without the attributes that it gives. -/
def Token.bare : Token → Token
  | .text content => .text content
  | .comment content => .comment content
  | .opening tag _ empty => .opening tag [] empty
  | .closing tag => .closing tag

/-- An open element without attributes, and without its offset. -/
def OpenElement.bare (element : OpenElement) : OpenElement :=
  ⟨element.tag, [], element.children.map Node.bare, 0⟩

section

variable {ε ε' α β : Type} {x : Except ε α} {y : Except ε' β} {f : α → β}

/-- Two results that are the same up to what `f` forgets: both fail, or both succeed. -/
theorem toOption_map_eq_cases (h : x.toOption.map f = y.toOption) :
    (∃ a, x = .ok a ∧ y = .ok (f a)) ∨ ∃ e e', x = .error e ∧ y = .error e' := by
  cases x with
  | error e =>
      cases y with
      | error e' => exact .inr ⟨e, e', rfl, rfl⟩
      | ok b => cases h
  | ok a =>
      cases y with
      | error e' => cases h
      | ok b =>
          cases h
          exact .inl ⟨a, rfl, rfl⟩

theorem exists_ok_of_toOption_map {b : β} (h : x.toOption.map f = some b) :
    ∃ a, x = .ok a ∧ f a = b := by
  cases x with
  | error e => cases h
  | ok a => exact ⟨a, rfl, Option.some.inj h⟩

end

namespace PartialTree

/-- A tree that is being read, without attributes and offsets. -/
def bare (tree : PartialTree) : PartialTree :=
  ⟨tree.opened.map OpenElement.bare, tree.roots.map fun root => (0, root.2.bare)⟩

theorem add_bare (tree : PartialTree) (offset : Nat) (node : Node) :
    (tree.add offset node).bare = tree.bare.add 0 node.bare := by
  obtain ⟨opened, roots⟩ := tree
  cases opened with
  | nil => rfl
  | cons parent others => rfl

/-- **One step** does the same to trees and tokens without attributes. -/
theorem step_bare (tree : PartialTree) (offset : Nat) (token : Token) :
    (tree.step (offset, token)).toOption.map bare = (tree.bare.step (0, token.bare)).toOption := by
  cases token with
  | text content => exact congrArg some (add_bare tree offset _)
  | comment content => exact congrArg some (add_bare tree offset _)
  | opening tag given empty =>
      cases empty with
      | true => exact congrArg some (add_bare tree offset _)
      | false => rfl
  | closing tag =>
      obtain ⟨opened, roots⟩ := tree
      cases opened with
      | nil => rfl
      | cons element others =>
          have hclose : element.close.bare = element.bare.close := by
            rw [OpenElement.close, Node.bare, Node.bareAll_eq, List.map_reverse]
            rfl
          by_cases htag : element.tag = tag
          · have hstep : step ⟨element :: others, roots⟩ (offset, .closing tag)
                = .ok (add offset element.close ⟨others, roots⟩) := if_pos htag
            have hstep' : (bare ⟨element :: others, roots⟩).step (0, .closing tag)
                = .ok (add 0 element.bare.close (bare ⟨others, roots⟩)) := if_pos htag
            rw [hstep, Token.bare, hstep', ← hclose, ← add_bare]
            rfl
          · have hstep : step ⟨element :: others, roots⟩ (offset, .closing tag)
                = .error (.mismatchedClosingTag element.tag tag offset) := if_neg htag
            have hstep' : (bare ⟨element :: others, roots⟩).step (0, .closing tag)
                = .error (.mismatchedClosingTag element.tag tag 0) := if_neg htag
            rw [hstep, Token.bare, hstep']
            rfl

/-- **A run** does the same to trees and tokens without attributes. -/
theorem steps_bare (tree : PartialTree) (row : List (Nat × Token)) :
    (tree.steps row).toOption.map bare
      = (tree.bare.steps (row.map fun token => (0, token.2.bare))).toOption := by
  induction row generalizing tree with
  | nil => rfl
  | cons token row ih =>
      obtain ⟨offset, token⟩ := token
      rw [List.map_cons, steps, steps]
      rcases toOption_map_eq_cases (step_bare tree offset token) with
        ⟨next, hleft, hright⟩ | ⟨e, e', hleft, hright⟩
      · rw [hleft, hright]
        exact ih next
      · rw [hleft, hright]
        rfl

theorem rootNodes_bare (roots : List (Nat × Node)) :
    (rootNodes roots).toOption.map (List.map Node.bare)
      = (rootNodes (roots.map fun root => (0, root.2.bare))).toOption := by
  -- a node that is not text is kept in front of the others
  have hcons : ∀ (node : Node) (roots : List (Nat × Node)),
      (rootNodes roots).toOption.map (List.map Node.bare)
        = (rootNodes (roots.map fun root => (0, root.2.bare))).toOption →
      ((rootNodes roots).map (node :: ·)).toOption.map (List.map Node.bare)
        = ((rootNodes (roots.map fun root => (0, root.2.bare))).map (node.bare :: ·)).toOption := by
    intro node roots h
    rcases toOption_map_eq_cases h with ⟨nodes, hleft, hright⟩ | ⟨e, e', hleft, hright⟩
    · rw [hleft, hright]
      rfl
    · rw [hleft, hright]
      rfl
  induction roots with
  | nil => rfl
  | cons root roots ih =>
      obtain ⟨offset, node⟩ := root
      cases node with
      | text content =>
          rw [List.map_cons, rootNodes, Node.bare, rootNodes]
          split
          · exact ih
          · rfl
      | element tag attributes children => exact hcons _ roots ih
      | comment children => exact hcons _ roots ih

theorem finish_bare (tree : PartialTree) :
    tree.finish.toOption.map (Option.map Node.bare) = tree.bare.finish.toOption := by
  obtain ⟨opened, roots⟩ := tree
  cases opened with
  | cons element others => rfl
  | nil =>
      have hroots := rootNodes_bare roots.reverse
      rw [List.map_reverse] at hroots
      unfold finish bare
      dsimp only [List.map_nil]
      rcases toOption_map_eq_cases hroots with ⟨nodes, hleft, hright⟩ | ⟨e, e', hleft, hright⟩
      · rw [hleft, hright]
        match nodes with
        | [] | [_] | _ :: _ :: _ => rfl
      · rw [hleft, hright]
        rfl

/-! ## Every opening tag adds its attributes -/

end PartialTree

/-- The attributes that an opening tag gives to its element. -/
def Token.attributes? : Token → Option Attributes
  | .opening _ given _ => some (properties given)
  | _ => none

namespace PartialTree

/-- The attributes of the elements in a tree that is being read, in document order. -/
def attributeRow (tree : PartialTree) : List Attributes :=
  tree.roots.reverse.flatMap (fun root => root.2.attributeRow)
    ++ tree.opened.reverse.flatMap (fun element => element.close.attributeRow)

theorem attributeRow_add (tree : PartialTree) (offset : Nat) (node : Node) :
    (tree.add offset node).attributeRow = tree.attributeRow ++ node.attributeRow := by
  unfold add
  split
  · next hopened => simp [attributeRow, hopened]
  · next parent others hopened => simp [attributeRow, hopened, OpenElement.close]

/-- **One step** adds the attributes of its token behind those before. -/
theorem step_attributeRow {tree next : PartialTree} {offset : Nat} {token : Token}
    (h : tree.step (offset, token) = .ok next) :
    next.attributeRow = tree.attributeRow ++ token.attributes?.toList := by
  rcases step_cases h with ⟨node, hleaf, rfl⟩ | ⟨tag, given, rfl, rfl⟩ |
    ⟨element, others, rfl, hopened, rfl⟩
  · have hnode : node.attributeRow = token.attributes?.toList := by
      cases token with
      | text content => cases hleaf; simp [Token.attributes?]
      | comment content => cases hleaf; simp [Token.attributes?]
      | opening tag given empty =>
          cases empty with
          | true => cases hleaf; simp [Token.attributes?]
          | false => cases hleaf
      | closing tag => cases hleaf
    rw [attributeRow_add, hnode]
  · simp [attributeRow, OpenElement.close, Token.attributes?]
  · rw [attributeRow_add]
    simp [attributeRow, hopened, Token.attributes?]

/-- **A run** adds the attributes of its tokens in order. -/
theorem steps_attributeRow {row : List (Nat × Token)} {tree later : PartialTree}
    (h : tree.steps row = .ok later) :
    later.attributeRow = tree.attributeRow ++ (row.map Prod.snd).filterMap Token.attributes? := by
  induction row generalizing tree with
  | nil =>
      cases h
      simp
  | cons token row ih =>
      unfold steps at h
      split at h
      · cases h
      next next hstep =>
      rw [ih h, step_attributeRow hstep, List.append_assoc, List.map_cons, List.filterMap_cons]
      cases token.2.attributes? with
      | none => rfl
      | some attributes => rfl

theorem rootNodes_attributeRow {roots : List (Nat × Node)} {nodes : List Node}
    (h : rootNodes roots = .ok nodes) :
    roots.flatMap (fun root => root.2.attributeRow) = nodes.flatMap Node.attributeRow := by
  fun_induction rootNodes roots generalizing nodes with
  | case1 =>
      cases h
      rfl
  | case2 offset content rest hblank ih =>
      rw [List.flatMap_cons, ih h, Node.attributeRow_text, List.nil_append]
  | case3 => cases h
  | case4 offset node rest _ ih =>
      obtain ⟨others, hothers, rfl⟩ := map_eq_ok_iff.mp h
      rw [List.flatMap_cons, List.flatMap_cons, ih hothers]

end PartialTree

namespace Node

open PartialTree

theorem exists_passes {markup : Text} {root : Node} (h : parse markup = .ok (some root)) :
    ∃ row, Token.Passes markup row [] := by
  obtain ⟨-, hnone, -⟩ := parse_eq_some h
  exact ⟨_, (Token.passes_nil_iff (Text.byteSize markup)).mpr ⟨rfl, hnone⟩⟩

/-- The row of attributes can be computed, so it shows that markup describes a tree. -/
theorem exists_parse_of_attributeRow {markup : Text} {row : List Attributes}
    (h : (parse markup).toOption.join.map attributeRow = some row) :
    ∃ root, parse markup = .ok (some root) ∧ root.attributeRow = row := by
  obtain ⟨root, hjoin, hrow⟩ := Option.map_eq_some_iff.mp h
  cases hparse : parse markup with
  | error e =>
      rw [hparse] at hjoin
      cases hjoin
  | ok result =>
      rw [hparse] at hjoin
      exact ⟨root, congrArg Except.ok hjoin, hrow⟩

/-- **The attributes of a tree** are those of the opening tags, in their order. -/
theorem parse_attributeRow {markup : Text} {row : List Token} {root : Node}
    (hrow : Token.Passes markup row []) (h : parse markup = .ok (some root)) :
    root.attributeRow = row.filterMap Token.attributes? := by
  obtain ⟨tree, -, hsteps, hfinish⟩ := parse_eq_some h
  obtain ⟨hopened, hroots⟩ := finish_eq_some hfinish
  obtain ⟨rfl, -⟩ := (Token.passes_nil_iff (Text.byteSize markup)).mp hrow
  calc root.attributeRow
      = tree.roots.reverse.flatMap (fun root => root.2.attributeRow) := by
        rw [rootNodes_attributeRow hroots, List.flatMap_singleton]
    _ = tree.attributeRow := by simp [PartialTree.attributeRow, hopened]
    _ = _ := by
        rw [steps_attributeRow hsteps]
        rfl

/-- **The shape of a tree** is that of any markup with the same tags. -/
theorem parse_bare {markup markup' : Text} {row row' : List Token} {root : Node}
    (hrow : Token.Passes markup row []) (hrow' : Token.Passes markup' row' [])
    (hsame : row'.map Token.bare = row.map Token.bare) (h : parse markup = .ok (some root)) :
    ∃ other, parse markup' = .ok (some other) ∧ other.bare = root.bare := by
  obtain ⟨tree, -, hsteps, hfinish⟩ := parse_eq_some h
  obtain ⟨rfl, -⟩ := (Token.passes_nil_iff (Text.byteSize markup)).mp hrow
  obtain ⟨rfl, hnone⟩ := (Token.passes_nil_iff (Text.byteSize markup')).mp hrow'
  -- both runs are the same without attributes
  have hforget : ∀ tokens : List (Nat × Token), tokens.map (fun token => (0, token.2.bare))
      = ((tokens.map Prod.snd).map Token.bare).map (Prod.mk 0) := by
    intro tokens
    rw [List.map_map, List.map_map]
    rfl
  have hrun := steps_bare PartialTree.empty (Token.readAll (Text.byteSize markup) markup).1
  have hrun' := steps_bare PartialTree.empty (Token.readAll (Text.byteSize markup') markup').1
  rw [hforget, hsame, ← hforget, ← hrun, hsteps] at hrun'
  obtain ⟨tree', hsteps', htree⟩ := exists_ok_of_toOption_map hrun'
  have hend := finish_bare tree'
  rw [htree, ← finish_bare tree, hfinish] at hend
  obtain ⟨root', hfinish', hroot⟩ := exists_ok_of_toOption_map hend
  obtain ⟨other, rfl, hother⟩ := Option.map_eq_some_iff.mp hroot
  refine ⟨other, ?_, hother⟩
  unfold parse
  simp only [hsteps', hnone, hfinish']

end Node

end Hypertext
