import Hypertext.Proofs.Placeholders
import Hypertext.Proofs.WellFormed

set_option autoImplicit false

/-! # Placeholders in markup

Reading markup takes it apart at many places, and none of them is inside of a token. So every raw
text in the tree of a template is intact, and the expressions occur in the tree in the order in
which they stand in the template (`Node.parse_join_placeholders`). The one way to lose an expression
is an attribute that is given again, since the later value stands.

A piece of markup carries a row of expressions (`Placeholder.Carries`), and every reader divides
that row between what it reads and what is left (`Token.readAll_carries`). In the tree an expression
can occur a second time, as the value of an attribute that has none of its own. So the row of a
token is compared with the first occurrences in what it adds to the tree (`FirstIn`).
-/

namespace Hypertext

open Placeholder (Carries indices isTokenChar)

/-! ## First occurrences -/

/-- The first occurrences in a row come in the given order, if nothing is in it twice. -/
def FirstIn (order row : List Nat) : Prop := order.Nodup → row.eraseDups = order

namespace FirstIn

theorem refl (row : List Nat) : FirstIn row row := by
  intro hnodup
  induction row with
  | nil => rfl
  | cons i row ih =>
      obtain ⟨hnot, hrow⟩ := List.nodup_cons.mp hnodup
      have hfilter : row.filter (fun j => !j == i) = row := by
        refine List.filter_eq_self.mpr fun j hj => ?_
        have hne : j ≠ i := fun h => hnot (h ▸ hj)
        simpa using hne
      rw [List.eraseDups_cons, hfilter, ih hrow]

theorem append {order row order' row' : List Nat} (h : FirstIn order row)
    (h' : FirstIn order' row') : FirstIn (order ++ order') (row ++ row') := by
  intro hnodup
  obtain ⟨hfirst, hsecond, hdisjoint⟩ := List.nodup_append.mp hnodup
  have hremove : row'.removeAll row = row' := by
    refine List.filter_eq_self.mpr fun j hj => ?_
    -- what occurs in the rows is what is in the orders
    have hj' : j ∈ order' := by rwa [← h' hsecond, List.mem_eraseDups]
    have hnot : j ∉ row := by
      rw [← List.mem_eraseDups, h hfirst]
      exact fun hmem => hdisjoint j hmem j hj' rfl
    simpa using hnot
  rw [List.eraseDups_append, hremove, h hfirst, h' hsecond]

/-- What occurs again directly behind itself has occurred before. -/
theorem twice (row : List Nat) : FirstIn row (row ++ row) := by
  intro hnodup
  have hremove : row.removeAll row = [] := by
    refine List.filter_eq_nil_iff.mpr fun j hj => ?_
    simpa using hj
  rw [List.eraseDups_append, hremove, refl row hnodup]
  exact List.append_nil row

end FirstIn

/-! ## Readers -/

/-- The expressions of an attribute: those in its name, then those in its value. -/
def pairIndices (pair : Text × Text) : List Nat := indices pair.1 ++ indices pair.2

namespace Token

theorem isTokenChar_of_isTagBlank {c : Char} (h : isTagBlank c = true) : isTokenChar c = false := by
  simp only [isTagBlank, Bool.or_eq_true, beq_iff_eq] at h
  rcases h with (((rfl | rfl) | rfl) | rfl) | rfl
  all_goals rfl

theorem isTokenChar_of_isTagNameChar {c : Char} (h : isTagNameChar c = false) :
    isTokenChar c = false := by
  simp only [isTagNameChar, Bool.not_eq_false', Bool.or_eq_true, beq_iff_eq] at h
  rcases h with (h | rfl) | rfl
  · exact isTokenChar_of_isTagBlank h
  · rfl
  · rfl

theorem isTokenChar_of_endsValue (c : Char) (t : Text) (h : endsValue (c :: t) = true) :
    isTokenChar c = false := by
  simp only [endsValue, atBlank, Bool.or_eq_true] at h
  rcases h with h | h
  · exact isTokenChar_of_isTagBlank h
  · unfold atTagEnd at h
    split at h
    · next heq =>
        cases heq
        rfl
    · next heq =>
        cases heq
        rfl
    · cases h

theorem isTokenChar_of_endsName (c : Char) (t : Text) (h : endsName (c :: t) = true) :
    isTokenChar c = false := by
  rw [endsName, Bool.or_eq_true] at h
  rcases h with h | h
  · obtain ⟨rest, hrest⟩ := Text.startsWith_iff.mp h
    cases hrest
    rfl
  · exact isTokenChar_of_endsValue c t h

theorem isTagBlank_nul : isTagBlank '\x00' = false := rfl

section

variable {n : Nat} {t rest : Text} {row : List Nat}

theorem readQuoted_carries {quote : Char} {value : Text} (hquote : isTokenChar quote = false)
    (h : Carries n t row) (hread : readQuoted quote t = some (value, rest)) :
    ∃ first second, row = first ++ second ∧ Carries n value first ∧ Carries n rest second := by
  have hp : ∀ c, (c != quote) = false → isTokenChar c = false := by
    intro c hc
    rw [show c = quote by simpa using hc]
    exact hquote
  obtain ⟨first, second, hrow, hvalue, hafter⟩ := h.span hp
  have hhead := List.head?_dropWhile_not (· != quote) t
  unfold readQuoted at hread
  split at hread
  · cases hread
  · next c u hdrop =>
      cases hread
      rw [hdrop] at hafter hhead
      have hc : c ≠ '\x00' := by
        rintro rfl
        cases hp _ hhead
      exact ⟨first, second, hrow, hvalue, hafter.of_cons hc⟩

theorem readValue_carries {value : Text} (h : Carries n t row)
    (hread : readValue t = some (value, rest)) :
    ∃ first second, row = first ++ second ∧ Carries n value first ∧ Carries n rest second := by
  unfold readValue at hread
  split at hread
  · exact readQuoted_carries rfl (h.of_cons (by decide)) hread
  · exact readQuoted_carries rfl (h.of_cons (by decide)) hread
  · have hbreak := h.breakAt isTokenChar_of_endsValue
    rw [Option.some.inj hread] at hbreak
    exact hbreak

/-- What follows the name of an attribute is its value and the rest, or only the rest. -/
theorem readAssigned_carries {name value : Text} (h : Carries n t row)
    (hread : readAssigned name t = .ok (value, rest)) :
    (∃ first second, row = first ++ second ∧ Carries n value first ∧ Carries n rest second) ∨
      (value = name ∧ Carries n rest row) := by
  have hdrop := h.dropWhile isTagBlank_nul
  unfold readAssigned at hread
  split at hread
  · next u hequals =>
      rw [hequals] at hdrop
      have hvalue := (hdrop.of_cons (by decide)).dropWhile isTagBlank_nul
      split at hread
      · next hsome =>
          cases hread
          exact .inl (readValue_carries hvalue hsome)
      · cases hread
  · cases hread
    exact .inr ⟨rfl, hdrop⟩

end

/-- Attributes that hold a row of expressions: no name or value has a part of a token, and the row
has the first occurrences in all of them. -/
structure GivenHold (n : Nat) (given : List (Text × Text)) (row : List Nat) : Prop where
  intact : ∀ pair ∈ given, Placeholder.Intact n pair.1 ∧ Placeholder.Intact n pair.2
  order : FirstIn row (given.flatMap pairIndices)

theorem GivenHold.nil (n : Nat) : GivenHold n [] [] :=
  ⟨fun _ h => absurd h List.not_mem_nil, .refl []⟩

theorem GivenHold.cons {n : Nat} {name value : Text} {given : List (Text × Text)}
    {order order' row row' : List Nat} (hn : n ≤ Placeholder.indexLimit)
    (hname : Carries n name order) (hvalue : Carries n value order')
    (hrow : FirstIn row (order ++ order')) (h : GivenHold n given row') :
    GivenHold n ((name, value) :: given) (row ++ row') := by
  constructor
  · intro pair hpair
    rcases List.mem_cons.mp hpair with rfl | hpair
    · exact ⟨hname.intact hn, hvalue.intact hn⟩
    · exact h.intact pair hpair
  · rw [List.flatMap_cons, pairIndices, hname.indices hn, hvalue.indices hn]
    exact hrow.append h.order

/-- **The attributes of a tag** take their share of the expressions. -/
theorem readAttributes_carries {n size start : Nat} (hn : n ≤ Placeholder.indexLimit)
    {t rest : Text} {row : List Nat} {given : List (Text × Text)} {selfClosing : Bool}
    (h : Carries n t row) (hread : readAttributes size start t = .ok (given, selfClosing, rest)) :
    ∃ first second, row = first ++ second ∧ GivenHold n given first ∧ Carries n rest second := by
  fun_induction readAttributes size start t generalizing given row
  case case1 => cases hread
  case case2 hdrop =>
    cases hread
    have hend := h.dropWhile isTagBlank_nul
    rw [hdrop] at hend
    exact ⟨[], row, rfl, .nil n, hend.of_cons (by decide)⟩
  case case3 hdrop =>
    cases hread
    have hend := h.dropWhile isTagBlank_nul
    rw [hdrop] at hend
    exact ⟨[], row, rfl, .nil n, (hend.of_cons (by decide)).of_cons (by decide)⟩
  case case4 hdrop _ ih =>
    have hequals := h.dropWhile isTagBlank_nul
    rw [hdrop] at hequals
    exact ih (hequals.of_cons (by decide)) hread
  case case5 => cases hread
  case case6 c u hend hempty hdrop _ _ hequals value after hassigned _ _ ih =>
    obtain ⟨⟨others, flag, last⟩, hothers, heq⟩ := map_eq_ok_iff.mp hread
    cases heq
    have hattribute := h.dropWhile isTagBlank_nul
    rw [hdrop] at hattribute
    -- the name does not end at its first character, so it is cut off like the others
    have hbreak : Text.breakAt endsName (c :: u)
        = (c :: (Text.breakAt endsName u).1, (Text.breakAt endsName u).2) := by
      rw [Text.breakAt, endsName_eq_false (isTagBlank_of_dropWhile hdrop) hequals hend hempty]
      rfl
    have hcut := hattribute.breakAt isTokenChar_of_endsName
    rw [hbreak] at hcut
    obtain ⟨order, behind, rfl, hname, hbehind⟩ := hcut
    rcases readAssigned_carries hbehind hassigned with
      ⟨order', row', rfl, hvalue, hafter⟩ | ⟨rfl, hafter⟩
    · obtain ⟨first, second, rfl, hgiven, hrest⟩ := ih hafter hothers
      refine ⟨(order ++ order') ++ first, second, by simp only [List.append_assoc], ?_, hrest⟩
      exact hgiven.cons hn hname hvalue (.refl _)
    · -- the name is the value too, so its expressions occur twice
      obtain ⟨first, second, rfl, hgiven, hrest⟩ := ih hafter hothers
      refine ⟨order ++ first, second, by simp only [List.append_assoc], ?_, hrest⟩
      exact hgiven.cons hn hname hname (.twice order)

/-- The expressions that a token holds. Comments and the tags of elements hold none. -/
inductive Holds (n : Nat) : Token → List Nat → Prop where
  | text {content : Text} {row : List Nat} (h : Carries n content row) : Holds n (.text content) row
  | comment {content : Text} (h : '\x00' ∉ content) : Holds n (.comment content) []
  | opening {tag : Text} {given : List (Text × Text)} {empty : Bool} {row : List Nat}
      (htag : '\x00' ∉ tag) (hgiven : GivenHold n given row) :
      Holds n (.opening tag given empty) row
  | closing {tag : Text} {row : List Nat} (h : Carries n tag row) : Holds n (.closing tag) row

section

variable {n size start : Nat} {t rest : Text} {row : List Nat} {token : Token}

theorem readComment_carries (h : Carries n t row)
    (hread : readComment start t = .ok (token, rest)) :
    ∃ first second, row = first ++ second ∧ token.Holds n first ∧ Carries n rest second := by
  have hstop : ∀ c u, Text.startsWith "-->".toList (c :: u) = true → isTokenChar c = false := by
    intro c u hstart
    obtain ⟨more, hmore⟩ := Text.startsWith_iff.mp hstart
    cases hmore
    rfl
  obtain ⟨first, second, rfl, hcontent, hbehind⟩ := h.breakAt hstop
  unfold readComment at hread
  split at hread
  · cases hread
  next after hafter =>
  dsimp only at hread
  split at hread
  · cases hread
  next hstatic =>
  cases hread
  -- a comment with a token in it is refused
  obtain ⟨hplain, rfl⟩ := hcontent.plain (Bool.eq_false_iff.mpr hstatic)
  rw [Text.after?_eq_some_iff.mp hafter] at hbehind
  have hrest := ((hbehind.of_cons (by decide)).of_cons (by decide)).of_cons (by decide)
  exact ⟨[], second, rfl, .comment hplain, hrest⟩

theorem readClosing_carries (h : Carries n t row)
    (hread : readClosing start t = .ok (token, rest)) :
    ∃ first second, row = first ++ second ∧ token.Holds n first ∧ Carries n rest second := by
  obtain ⟨first, second, rfl, htag, hbehind⟩ := h.span fun _ => isTokenChar_of_isTagNameChar
  have hend := hbehind.dropWhile isTagBlank_nul
  unfold readClosing at hread
  split at hread
  · next hdrop =>
      cases hread
      rw [hdrop] at hend
      exact ⟨first, second, rfl, .closing htag, hend.of_cons (by decide)⟩
  · cases hread

theorem readOpening_carries (hn : n ≤ Placeholder.indexLimit) (h : Carries n t row)
    (hread : readOpening size start t = .ok (token, rest)) :
    ∃ first second, row = first ++ second ∧ token.Holds n first ∧ Carries n rest second := by
  obtain ⟨first, second, rfl, htag, hbehind⟩ := h.span fun _ => isTokenChar_of_isTagNameChar
  unfold readOpening at hread
  dsimp only at hread
  split at hread
  · cases hread
  split at hread
  · cases hread
  next hstatic =>
  split at hread
  · cases hread
  next given selfClosing after hattributes =>
  cases hread
  -- and so is a tag, which leaves all expressions to the attributes and the rest
  obtain ⟨hplain, rfl⟩ := htag.plain (Bool.eq_false_iff.mpr hstatic)
  obtain ⟨first, second, rfl, hgiven, hrest⟩ := readAttributes_carries hn hbehind hattributes
  exact ⟨first, second, rfl, .opening hplain hgiven, hrest⟩

/-- **One token** takes its share of the expressions. -/
theorem read_carries (hn : n ≤ Placeholder.indexLimit) (h : Carries n t row)
    (hread : read size t = .ok (token, rest)) :
    ∃ first second, row = first ++ second ∧ token.Holds n first ∧ Carries n rest second := by
  unfold read at hread
  dsimp only at hread
  split at hread
  · have hbody := ((h.of_cons (by decide)).of_cons (by decide)).of_cons (by decide)
    exact readComment_carries (hbody.of_cons (by decide)) hread
  · exact readClosing_carries ((h.of_cons (by decide)).of_cons (by decide)) hread
  · exact readOpening_carries hn (h.of_cons (by decide)) hread
  · cases hread
    have hp : ∀ c : Char, (c != '<') = false → isTokenChar c = false := by
      intro c hc
      rw [show c = '<' by simpa using hc]
      rfl
    obtain ⟨first, second, rfl, hcontent, hrest⟩ := h.span hp
    exact ⟨first, second, rfl, .text hcontent, hrest⟩

end

/-- The expressions that tokens hold, one after the other. -/
inductive AllHold (n : Nat) : List (Nat × Token) → List Nat → Prop where
  | nil : AllHold n [] []
  | cons {token : Nat × Token} {tokens : List (Nat × Token)} {first second : List Nat}
      (htoken : token.2.Holds n first) (htokens : AllHold n tokens second) :
      AllHold n (token :: tokens) (first ++ second)

/-- **All tokens** of a text without errors hold the expressions that it carries. -/
theorem readAll_carries {n size : Nat} (hn : n ≤ Placeholder.indexLimit) {t : Text} {row : List Nat}
    (h : Carries n t row) (hread : (readAll size t).2 = none) :
    AllHold n (readAll size t).1 row := by
  fun_induction readAll size t generalizing row with
  | case1 t hempty =>
      rw [List.isEmpty_iff.mp hempty] at h
      cases h
      exact .nil
  | case2 => cases hread
  | case3 t _ token rest htoken _ ih =>
      obtain ⟨first, second, rfl, hfirst, hrest⟩ := read_carries hn h htoken
      exact .cons hfirst (ih hrest hread)
  | case4 t hne token rest htoken hlonger =>
      exact absurd (read_length (by simpa using hne) htoken) hlonger

end Token

/-! ## Trees -/

namespace Node

/-- Trees without a part of a token in any raw text, with the first `n` expressions only, and with
no token in tags and comments. -/
inductive Intact (n : Nat) : Node → Prop where
  | text {content : Text} (h : Placeholder.Intact n content) : Intact n (.text content)
  | comment {content : Text} (h : '\x00' ∉ content) : Intact n (.comment [.text content])
  | element {tag : Text} {attributes : Attributes} {children : List Node} (htag : '\x00' ∉ tag)
      (hattributes : ∀ pair ∈ attributes,
        Placeholder.Intact n pair.1 ∧ Placeholder.Intact n pair.2)
      (hchildren : ∀ child ∈ children, child.Intact n) : Intact n (.element tag attributes children)

mutual

/-- The expressions in a tree, in document order: for an element those of its attributes, then those
of its children. -/
def placeholders : Node → List Nat
  | .text content => indices content
  | .element _ attributes children => attributes.flatMap pairIndices ++ placeholdersAll children
  | .comment children => placeholdersAll children

def placeholdersAll : List Node → List Nat
  | [] => []
  | node :: nodes => node.placeholders ++ placeholdersAll nodes

end

theorem placeholdersAll_eq (nodes : List Node) :
    placeholdersAll nodes = nodes.flatMap placeholders := by
  induction nodes with
  | nil => rw [placeholdersAll, List.flatMap_nil]
  | cons node nodes ih => rw [placeholdersAll, List.flatMap_cons, ih]

end Node

namespace Token

/-- An opening tag gives no attribute twice, where attributes are told apart by the name that
`rename` gives them. -/
def GivesOnce (rename : Text → Text) : Token → Prop
  | .opening _ given _ => (given.map fun pair => rename pair.1).Nodup
  | _ => True

instance (rename : Text → Text) : DecidablePred (GivesOnce rename) := fun token =>
  match token with
  | .opening _ given _ => inferInstanceAs (Decidable (given.map fun pair => rename pair.1).Nodup)
  | .text _ | .comment _ | .closing _ => isTrue trivial

theorem renamed_plain {name : Text} (h : propertyName name ≠ name) :
    '\x00' ∉ name ∧ '\x00' ∉ propertyName name := by
  unfold propertyName at h ⊢
  split at h
  · next hclass =>
      subst hclass
      decide
  next hclass =>
  split at h
  · next hfor =>
      subst hfor
      decide
  · exact absurd rfl h

theorem indices_propertyName (name : Text) : indices (propertyName name) = indices name := by
  by_cases h : propertyName name = name
  · rw [h]
  · obtain ⟨hold, hnew⟩ := renamed_plain h
    rw [Placeholder.indices_plain hold, Placeholder.indices_plain hnew]

theorem intact_propertyName {n : Nat} {name : Text} (hn : n ≤ Placeholder.indexLimit)
    (h : Placeholder.Intact n name) : Placeholder.Intact n (propertyName name) := by
  by_cases hsame : propertyName name = name
  · rwa [hsame]
  · exact (Placeholder.carries_plain n (renamed_plain hsame).2).intact hn

section

variable {n : Nat} {given : List (Text × Text)} {row : List Nat}

theorem GivenHold.properties_intact (hn : n ≤ Placeholder.indexLimit) (h : GivenHold n given row) :
    ∀ pair ∈ properties given, Placeholder.Intact n pair.1 ∧ Placeholder.Intact n pair.2 := by
  intro pair hpair
  obtain ⟨written, hwritten, rfl⟩ := List.mem_map.mp (Attributes.mem_ofList hpair)
  obtain ⟨hname, hvalue⟩ := h.intact written hwritten
  exact ⟨intact_propertyName hn hname, hvalue⟩

theorem GivenHold.properties_order (h : GivenHold n given row)
    (honce : (given.map fun pair => propertyName pair.1).Nodup) :
    FirstIn row ((properties given).flatMap pairIndices) := by
  have hkept : properties given = given.map fun pair => (propertyName pair.1, pair.2) := by
    refine Attributes.ofList_of_distinct ?_
    rw [List.map_map]
    exact honce
  have hsame : (properties given).flatMap pairIndices = given.flatMap pairIndices := by
    rw [hkept, List.flatMap_map]
    refine List.flatMap_congr fun pair _ => ?_
    rw [pairIndices, indices_propertyName, pairIndices]
  rw [hsame]
  exact h.order

end

end Token

namespace PartialTree

/-- The expressions in a tree that is being read, in document order. -/
def placeholders (tree : PartialTree) : List Nat :=
  tree.roots.reverse.flatMap (fun root => root.2.placeholders)
    ++ tree.opened.reverse.flatMap (fun element => element.close.placeholders)

/-- Every element that is open would be intact if it were closed here, and so is every root. -/
structure Intact (n : Nat) (tree : PartialTree) : Prop where
  opened : ∀ element ∈ tree.opened, element.close.Intact n
  roots : ∀ root ∈ tree.roots, root.2.Intact n

theorem add_intact {n offset : Nat} {tree : PartialTree} {node : Node} (htree : tree.Intact n)
    (hnode : node.Intact n) : (tree.add offset node).Intact n := by
  refine ⟨fun element helement => ?_, fun root hroot => ?_⟩
  · rcases mem_opened_add helement with ⟨parent, others, hopened, rfl⟩ | helement
    · cases htree.opened parent (by simp [hopened]) with
      | element htag hattributes hchildren =>
          exact .element htag hattributes (forall_mem_children_add hchildren hnode)
    · exact htree.opened element helement
  · rcases mem_roots_add hroot with rfl | hroot
    · exact hnode
    · exact htree.roots root hroot

/-- What is added comes last in document order. -/
theorem placeholders_add (tree : PartialTree) (offset : Nat) (node : Node) :
    (tree.add offset node).placeholders = tree.placeholders ++ node.placeholders := by
  unfold add
  split
  · next hopened => simp [placeholders, hopened]
  · next parent others hopened =>
      have hparent : (OpenElement.close
          { parent with children := node :: parent.children }).placeholders
          = parent.close.placeholders ++ node.placeholders := by
        simp [OpenElement.close, Node.placeholders, Node.placeholdersAll_eq]
      simp [placeholders, hopened, hparent]

theorem leaf_intact {n : Nat} {row : List Nat} {token : Token} {node : Node}
    (hn : n ≤ Placeholder.indexLimit) (htoken : token.Holds n row) (h : token.leaf? = some node) :
    node.Intact n ∧ (token.GivesOnce Token.propertyName → FirstIn row node.placeholders) := by
  cases htoken with
  | text hcontent =>
      cases h
      refine ⟨.text (hcontent.intact hn), fun _ => ?_⟩
      rw [Node.placeholders, hcontent.indices hn]
      exact .refl row
  | comment hplain =>
      cases h
      refine ⟨.comment hplain, fun _ => ?_⟩
      rw [Node.placeholders, Node.placeholdersAll, Node.placeholders,
        Placeholder.indices_plain hplain, Node.placeholdersAll]
      exact .refl []
  | @opening tag given empty _ htag hgiven =>
      cases empty with
      | false => cases h
      | true =>
          cases h
          refine ⟨.element htag (hgiven.properties_intact hn) ?_, fun honce => ?_⟩
          · exact fun _ hchild => absurd hchild List.not_mem_nil
          · rw [Node.placeholders, Node.placeholdersAll, List.append_nil]
            exact hgiven.properties_order honce
  | closing _ => cases h

/-- **One step** keeps a tree intact, and adds the expressions of its token behind those before. -/
theorem step_placeholders {n offset : Nat} {row : List Nat} {token : Token}
    {tree next : PartialTree} (hn : n ≤ Placeholder.indexLimit) (htree : tree.Intact n)
    (htoken : token.Holds n row) (h : tree.step (offset, token) = .ok next) :
    next.Intact n ∧ (token.GivesOnce Token.propertyName →
      ∃ added, next.placeholders = tree.placeholders ++ added ∧ FirstIn row added) := by
  rcases step_cases h with ⟨node, hleaf, rfl⟩ | ⟨tag, given, rfl, rfl⟩ |
    ⟨element, others, rfl, hopened, rfl⟩
  · obtain ⟨hnode, horder⟩ := leaf_intact hn htoken hleaf
    refine ⟨add_intact htree hnode, fun honce => ?_⟩
    exact ⟨node.placeholders, placeholders_add tree offset node, horder honce⟩
  · cases htoken with
    | opening htag hgiven =>
        refine ⟨⟨fun element helement => ?_, htree.roots⟩, fun honce => ?_⟩
        · rcases List.mem_cons.mp helement with rfl | helement
          · refine .element htag (hgiven.properties_intact hn) ?_
            exact fun _ hchild => absurd hchild List.not_mem_nil
          · exact htree.opened element helement
        · refine ⟨_, ?_, hgiven.properties_order honce⟩
          simp [placeholders, OpenElement.close, Node.placeholders, Node.placeholdersAll]
  · have hopen := htree.opened
    rw [hopened] at hopen
    have hothers : PartialTree.Intact n { tree with opened := others } :=
      ⟨fun other hother => hopen other (List.mem_cons_of_mem _ hother), htree.roots⟩
    have hclose := hopen element List.mem_cons_self
    refine ⟨add_intact hothers hclose, fun _ => ⟨[], ?_, ?_⟩⟩
    · rw [placeholders_add]
      simp [placeholders, hopened]
    · -- the tag is that of the opening tag, which holds no expression
      cases htoken with
      | closing htag =>
      cases hclose with
      | element hplain _ _ =>
          rw [← htag.indices hn, Placeholder.indices_plain hplain]
          exact .refl []

/-- **A run** over tokens adds their expressions in order. -/
theorem steps_placeholders {n : Nat} {row : List Nat} {tokens : List (Nat × Token)}
    {tree later : PartialTree} (hn : n ≤ Placeholder.indexLimit) (htree : tree.Intact n)
    (htokens : Token.AllHold n tokens row) (h : tree.steps tokens = .ok later) :
    later.Intact n ∧ ((∀ token ∈ tokens, token.2.GivesOnce Token.propertyName) →
      ∃ added, later.placeholders = tree.placeholders ++ added ∧ FirstIn row added) := by
  -- on the tokens, for any tree that is intact so far
  induction htokens generalizing tree with
  | nil =>
      cases h
      exact ⟨htree, fun _ => ⟨[], (List.append_nil _).symm, .refl []⟩⟩
  | @cons token tokens first second htoken _ ih =>
      unfold steps at h
      split at h
      · cases h
      next next hstep =>
      obtain ⟨hnext, hfirst⟩ := step_placeholders hn htree htoken hstep
      obtain ⟨hlater, hsecond⟩ := ih hnext h
      refine ⟨hlater, fun honce => ?_⟩
      obtain ⟨added, hadded, horder⟩ := hfirst (honce token List.mem_cons_self)
      obtain ⟨added', hadded', horder'⟩ :=
        hsecond fun other hother => honce other (List.mem_cons_of_mem _ hother)
      refine ⟨added ++ added', ?_, horder.append horder'⟩
      rw [hadded', hadded, List.append_assoc]

/-- The blank texts beside the root hold no expressions. -/
theorem rootNodes_placeholders {roots : List (Nat × Node)} {nodes : List Node}
    (h : rootNodes roots = .ok nodes) :
    roots.flatMap (fun root => root.2.placeholders) = nodes.flatMap Node.placeholders := by
  fun_induction rootNodes roots generalizing nodes with
  | case1 =>
      cases h
      rfl
  | case2 offset content rest hblank ih =>
      have hplain : '\x00' ∉ content := by
        intro hmem
        have hnul := List.all_eq_true.mp hblank _ hmem
        revert hnul
        decide
      rw [List.flatMap_cons, ih h, Node.placeholders, Placeholder.indices_plain hplain,
        List.nil_append]
  | case3 => cases h
  | case4 offset node rest _ ih =>
      obtain ⟨others, hothers, rfl⟩ := map_eq_ok_iff.mp h
      rw [List.flatMap_cons, List.flatMap_cons, ih hothers]

end PartialTree

namespace Node

/-- **Placeholders survive reading.** In a tree that is read from the joined parts of a template no
token is cut, and if no tag gives an attribute twice, the expressions first occur in their order. -/
theorem parse_join_placeholders {n : Nat} {quasis : List Text} {root : Node}
    (hlength : quasis.length = n + 1) (hn : n ≤ Placeholder.indexLimit)
    (hplain : ∀ quasi ∈ quasis, '\x00' ∉ quasi)
    (h : parse (Placeholder.join quasis) = .ok (some root)) :
    root.Intact n ∧
      ((∀ token ∈ (Token.readAll (Text.byteSize (Placeholder.join quasis))
          (Placeholder.join quasis)).1, token.2.GivesOnce Token.propertyName) →
        root.placeholders.eraseDups = List.range n) := by
  obtain ⟨tree, hnone, hsteps, hfinish⟩ := parse_eq_some h
  have htokens := Token.readAll_carries hn (Placeholder.carries_join hlength hplain) hnone
  have hempty : PartialTree.empty.Intact n :=
    ⟨fun _ h => absurd h List.not_mem_nil, fun _ h => absurd h List.not_mem_nil⟩
  obtain ⟨htree, horder⟩ := PartialTree.steps_placeholders hn hempty htokens hsteps
  obtain ⟨hopened, hroots⟩ := PartialTree.finish_eq_some hfinish
  constructor
  · obtain ⟨-, offset, hmem⟩ := PartialTree.mem_rootNodes hroots List.mem_cons_self
    exact htree.roots _ (List.mem_reverse.mp hmem)
  · intro honce
    obtain ⟨added, hadded, hfirst⟩ := horder honce
    have hall : root.placeholders = added := by
      calc root.placeholders
          = tree.roots.reverse.flatMap (fun root => root.2.placeholders) := by
            rw [PartialTree.rootNodes_placeholders hroots, List.flatMap_singleton]
        _ = tree.placeholders := by simp [PartialTree.placeholders, hopened]
        _ = added := by simpa [PartialTree.placeholders, PartialTree.empty] using hadded
    rw [hall]
    exact hfirst List.nodup_range

/-- An expression that is an attribute by itself occurs twice, as name and as value. The others
stand in an unquoted value, in text, and side by side in the attribute of a void element. -/
theorem parse_join_placeholders_mixed :
    let quasis := ["\n<p ", " class=a", ">b", "<br id='", "", "'></p>"].map String.toList
    (∀ token ∈
        (Token.readAll (Text.byteSize (Placeholder.join quasis)) (Placeholder.join quasis)).1,
        token.2.GivesOnce Token.propertyName) ∧
      ∃ root, parse (Placeholder.join quasis) = .ok (some root) ∧ root.Intact 5 ∧
        root.placeholders = [0, 0, 1, 2, 3, 4] ∧ root.placeholders.eraseDups = List.range 5 := by
  intro quasis
  have honce : ∀ token ∈ (Token.readAll (Text.byteSize (Placeholder.join quasis))
      (Placeholder.join quasis)).1, token.2.GivesOnce Token.propertyName := by
    decide +kernel
  have hrow : (match parse (Placeholder.join quasis) with
      | .ok (some root) => decide (root.placeholders = [0, 0, 1, 2, 3, 4])
      | _ => false) = true := by
    decide +kernel
  split at hrow
  · next root hparse =>
      obtain ⟨hintact, horder⟩ := parse_join_placeholders rfl (by decide) (by decide) hparse
      exact ⟨honce, root, hparse, hintact, of_decide_eq_true hrow, horder honce⟩
  · cases hrow

/-- It is not enough that no tag gives an attribute twice as it is written: `class` and `className`
are one attribute, and the later value stands. -/
theorem parse_join_placeholders_renamed :
    ¬∀ (n : Nat) (quasis : List Text) (root : Node), quasis.length = n + 1 →
      n ≤ Placeholder.indexLimit → (∀ quasi ∈ quasis, '\x00' ∉ quasi) →
      parse (Placeholder.join quasis) = .ok (some root) →
      (∀ token ∈ (Token.readAll (Text.byteSize (Placeholder.join quasis))
        (Placeholder.join quasis)).1, token.2.GivesOnce id) →
      root.placeholders.eraseDups = List.range n := by
  intro hall
  have hlost : (match parse (Placeholder.join
        ["<p class=\"".toList, "\" className=\"x\"></p>".toList]) with
      | .ok (some root) => decide (root.placeholders = [])
      | _ => false) = true := by
    decide +kernel
  split at hlost
  · next root hparse =>
      have hrange := hall 1 _ root rfl (by decide) (by decide) hparse (by decide +kernel)
      rw [of_decide_eq_true hlost] at hrange
      cases hrange
  · cases hlost

end Node

end Hypertext
