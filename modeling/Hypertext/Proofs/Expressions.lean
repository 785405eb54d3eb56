import Hypertext.Proofs.Lowering
import Hypertext.Proofs.PlaceholderOrder

set_option autoImplicit false

/-! # Expressions in lowered operations

Lowering takes the raw texts of a tree apart and puts values together from them. This file proves
that no expression is lost or evaluated twice on the way (`Node.lower_expressions`).

Both sides are compared slot by slot. A slot is a row of expressions that belong together: the name
of an attribute, its value, or the text among the children of an element. Slots without expressions
do not count, because lowering leaves some of them out. Among the others, lowering only changes the
order: the handlers of an element come after its other attributes, and its text comes after what its
children are built by.
-/

namespace Hypertext

/-! ## Expressions of values -/

namespace Placeholder

@[simp] theorem filterMap_nonEmpty (fragments : List Fragment) :
    (nonEmpty fragments).filterMap Fragment.index? = fragments.filterMap Fragment.index? := by
  induction fragments with
  | nil => rfl
  | cons fragment rest ih =>
      unfold nonEmpty at ih ⊢
      by_cases h : fragment = .literal []
      · subst h
        exact ih
      · rw [List.filter_cons_of_pos (by simpa using h), List.filterMap_cons, List.filterMap_cons,
          ih]

/-- A literal comes first in the fragments of a text. -/
theorem split_head (t : Text) : ∃ u rest, split t = .literal u :: rest := by
  have hliteral : ∀ u fragments, ∃ v rest, prependLiteral u fragments = .literal v :: rest := by
    intro u fragments
    unfold prependLiteral
    split
    · exact ⟨_, _, rfl⟩
    · exact ⟨_, _, rfl⟩
  rw [split.eq_def]
  split
  · exact ⟨[], [], rfl⟩
  · split
    · unfold prependToken
      split
      · exact ⟨_, _, rfl⟩
      · exact hliteral _ _
    · exact hliteral _ _

theorem indices_of_length {t : Text} (h : (split t).length ≤ 1) : indices t = [] := by
  obtain ⟨u, rest, hsplit⟩ := split_head t
  rw [hsplit, List.length_cons] at h
  have hrest : rest = [] := List.eq_nil_of_length_eq_zero (by omega)
  rw [indices, hsplit, hrest]
  rfl

theorem split_plain {t : Text} (h : '\x00' ∉ t) : split t = [.literal t] := by
  induction t with
  | nil => rw [split]
  | cons c t ih =>
      obtain ⟨hc, ht⟩ := not_or.mp (mt List.mem_cons.mpr h)
      rw [split_char (Ne.symm hc), ih ht]
      rfl

end Placeholder

open Placeholder (indices)

namespace Value

@[simp] theorem expressions_ofFragment (fragment : Fragment) :
    (ofFragment fragment).expressions = fragment.index?.toList := by
  cases fragment <;> rfl

@[simp] theorem expressions_asText (value : Value) :
    value.asText.expressions = value.expressions := by
  cases value <;> rfl

theorem expressions_foldl (value : Value) (values : List Value) :
    (values.foldl .concat value).expressions
      = value.expressions ++ values.flatMap Value.expressions := by
  induction values generalizing value with
  | nil => simp
  | cons first rest ih =>
      rw [List.foldl_cons, ih, expressions, List.flatMap_cons, List.append_assoc]

/-- Fragments that are put together as text keep their expressions, in order. -/
@[simp] theorem expressions_composed (fragments : List Fragment) :
    (composed fragments).expressions = fragments.filterMap Fragment.index? := by
  cases fragments with
  | nil => rfl
  | cons fragment rest =>
      have hrest : (rest.map fun part => (ofFragment part).asText).flatMap expressions
          = rest.filterMap Fragment.index? := by
        simp [List.flatMap_map, List.filterMap_eq_flatMap_toList]
      rw [composed, List.map_cons, concatAll, Option.getD_some, expressions_foldl, hrest]
      cases fragment <;> rfl

@[simp] theorem expressions_soleOrJoined (fragments : List Fragment) :
    (soleOrJoined fragments).expressions = fragments.filterMap Fragment.index? := by
  rw [soleOrJoined, ← Placeholder.filterMap_nonEmpty]
  split
  · next only heq =>
      rw [heq, expressions_ofFragment]
      cases only <;> rfl
  · exact expressions_composed _

end Value

/-! ## Slots -/

/-- The slots of an operation: one for each of its values, where the children count as one. -/
def Operation.slots : Operation → List (List Nat)
  | .createElement .. | .createNamespacedElement .. | .createComment .. | .appendTextNode .. => []
  | .setProperty _ _ value => [value.expressions]
  | .setAttribute _ _ value => [value.expressions]
  | .setBooleanAttribute _ _ value => [value.expressions]
  | .setDynamicAttribute _ name value => [name.expressions, value.expressions]
  | .setLifecycleHandler _ onload onunload _ =>
    [onload.toList.flatMap Value.expressions, onunload.toList.flatMap Value.expressions]
  | .appendChildren _ children => [children.flatMap Value.expressions]

/-- The expressions that an operation evaluates. -/
def Operation.expressions (operation : Operation) : List Nat := operation.slots.flatten

/-- The slots that hold an expression. -/
def occupied (slots : List (List Nat)) : List (List Nat) := slots.filter fun slot => !slot.isEmpty

@[simp] theorem occupied_append (first second : List (List Nat)) :
    occupied (first ++ second) = occupied first ++ occupied second := by
  simp [occupied]

@[simp] theorem occupied_nil_cons (slots : List (List Nat)) :
    occupied ([] :: slots) = occupied slots := rfl

theorem occupied_cons (slot : List Nat) (slots : List (List Nat)) :
    occupied (slot :: slots) = occupied [slot] ++ occupied slots := by
  rw [← List.singleton_append, occupied_append]

theorem flatten_occupied (slots : List (List Nat)) : (occupied slots).flatten = slots.flatten := by
  induction slots with
  | nil => rfl
  | cons slot rest ih =>
      cases slot with
      | nil => exact ih
      | cons i slot =>
          rw [occupied_cons, List.flatten_append, ih]
          simp [occupied]

theorem flatten_slots {α : Type} (slots : α → List (List Nat)) (l : List α) :
    (l.flatMap slots).flatten = l.flatMap fun a => (slots a).flatten := by
  rw [List.flatten_eq_flatMap, List.flatMap_assoc]
  exact List.flatMap_congr fun a _ => List.flatten_eq_flatMap.symm

namespace Attributes

/-- Whether an attribute is taken out as a lifecycle handler. -/
def IsLifecycle (lifecycle : Bool) (property : Text) : Prop :=
  lifecycle = true ∧
    (attributeName property = "onload".toList ∨ attributeName property = "onunload".toList)

instance (lifecycle : Bool) (property : Text) : Decidable (IsLifecycle lifecycle property) :=
  inferInstanceAs (Decidable (_ ∧ (_ ∨ _)))

/-- Whether lowering keeps the value of an attribute. A lifecycle handler is kept only if it is a
single value, and no later attribute has the same name. -/
def KeepsValue (lifecycle : Bool) (pair : Text × Text) (later : Attributes) : Prop :=
  IsLifecycle lifecycle pair.1 →
    (Placeholder.nonEmpty (Placeholder.split pair.2)).length = 1 ∧
      ∀ other ∈ later, attributeName other.1 ≠ attributeName pair.1

instance (lifecycle : Bool) (pair : Text × Text) (later : Attributes) :
    Decidable (KeepsValue lifecycle pair later) :=
  inferInstanceAs (Decidable (_ → _ ∧ ∀ other ∈ later, _))

/-- The slots of attributes: the name and the value of each. -/
def slots (lifecycle : Bool) : Attributes → List (List Nat)
  | [] => []
  | pair :: rest =>
    indices pair.1 :: (if KeepsValue lifecycle pair rest then indices pair.2 else [])
      :: slots lifecycle rest

end Attributes

/-- The expressions of a text node. -/
def Node.textIndices : Node → List Nat
  | .text content => indices content
  | _ => []

/-- The slots of an element, given by its attributes and its children: those of the attributes, and
all text among the children. -/
def elementSlots (lifecycle : Bool) (element : Attributes × List Node) : List (List Nat) :=
  element.1.slots lifecycle ++ [element.2.flatMap Node.textIndices]

/-- All expressions of an element. -/
def elementIndices (element : Attributes × List Node) : List Nat :=
  element.1.flatMap pairIndices ++ element.2.flatMap Node.textIndices

/-- Without lifecycle handlers, all of them are in its slots. -/
theorem flatten_elementSlots_false (element : Attributes × List Node) :
    (elementSlots false element).flatten = elementIndices element := by
  have hattributes (attributes : Attributes) :
      (attributes.slots false).flatten = attributes.flatMap pairIndices := by
    induction attributes with
    | nil => rfl
    | cons pair rest ih =>
        have hkeeps : Attributes.KeepsValue false pair rest :=
          fun h => absurd h.1 Bool.false_ne_true
        rw [Attributes.slots, if_pos hkeeps, List.flatten_cons, List.flatten_cons, ih,
          List.flatMap_cons, pairIndices, List.append_assoc]
  rw [elementSlots, List.flatten_append, hattributes, List.flatten_singleton, elementIndices]

/-! ## Handlers -/

theorem Text.mem_lowercaseAfter {before t : Text} (h : '\x00' ∈ t) :
    '\x00' ∈ lowercaseAfter before t := by
  induction t generalizing before with
  | nil => exact absurd h List.not_mem_nil
  | cons c t ih =>
      rw [lowercaseAfter]
      rcases List.mem_cons.mp h with rfl | h
      · exact List.mem_append_left _ List.mem_cons_self
      · exact List.mem_append_right _ (ih h)

/-- The name of a handler holds no token. -/
theorem not_mem_of_attributeName {property name : Text} (hname : '\x00' ∉ name)
    (h : attributeName property = name) : '\x00' ∉ property := by
  intro hmem
  have hlower : '\x00' ∈ property.lowercase := Text.mem_lowercaseAfter hmem
  unfold attributeName at h
  dsimp only at h
  split at h
  · next hclass => exact absurd (hclass ▸ hlower) (by decide)
  · split at h
    · next hfor => exact absurd (hfor ▸ hlower) (by decide)
    · exact hname (h ▸ hlower)

namespace Attribute

theorem ofProperty_named {property : Text} (raw : Text)
    (h : ¬(Placeholder.split property).length > 1) :
    ofProperty property raw = .named (attributeName property) raw (Placeholder.split raw) :=
  if_neg h

theorem ofProperty_dynamic {property : Text} (raw : Text)
    (h : (Placeholder.split property).length > 1) :
    ofProperty property raw = .dynamic (Placeholder.split property) (Placeholder.split raw) :=
  if_pos h

theorem ofProperty_handler {property name : Text} (raw : Text) (hname : '\x00' ∉ name)
    (h : attributeName property = name) :
    ofProperty property raw = .named name raw (Placeholder.split raw) := by
  rw [ofProperty_named raw, h]
  rw [Placeholder.split_plain (not_mem_of_attributeName hname h)]
  simp

end Attribute

theorem Attributes.isHandler_iff {name : Text} (hname : '\x00' ∉ name) (pair : Text × Text) :
    isHandler name pair = true ↔ attributeName pair.1 = name := by
  unfold isHandler
  by_cases h : (Placeholder.split pair.1).length > 1
  · rw [Attribute.ofProperty_dynamic _ h]
    constructor
    · intro hfalse
      cases hfalse
    · intro heq
      rw [Placeholder.split_plain (not_mem_of_attributeName hname heq)] at h
      simp at h
  · rw [Attribute.ofProperty_named _ h]
    exact decide_eq_true_iff

/-- The expressions of a handler. -/
def Slot.expressions (slot : Slot) : List Nat := slot.value?.toList.flatMap Value.expressions

/-- A handler has the expression of its raw value if that is a single one. -/
theorem Slot.expressions_ofRaw (raw : Text) :
    (Slot.ofRaw raw).expressions
      = if (Placeholder.nonEmpty (Placeholder.split raw)).length = 1 then indices raw else [] := by
  unfold Slot.ofRaw
  split
  · next hempty =>
      rw [List.isEmpty_iff.mp hempty, Placeholder.split_plain List.not_mem_nil]
      rfl
  · rw [indices, ← Placeholder.filterMap_nonEmpty]
    split
    · next only heq =>
        rw [heq]
        cases only <;> rfl
    · next hnot =>
        rw [if_neg]
        · rfl
        · intro hlength
          obtain ⟨only, heq⟩ := List.length_eq_one_iff.mp hlength
          exact hnot only heq

/-! ## Slots of attributes -/

/-- An attribute that is no handler keeps its slots. -/
theorem Attribute.slots_action? (b : Binding) {lifecycle : Bool} {property : Text} (raw : Text)
    (h : ¬Attributes.IsLifecycle lifecycle property) :
    occupied (((ofProperty property raw).action? lifecycle).toList.flatMap
        fun action => (action.operation b).slots)
      = occupied [indices property, indices raw] := by
  by_cases hdynamic : (Placeholder.split property).length > 1
  · rw [ofProperty_dynamic raw hdynamic]
    simp [action?, Action.operation, Operation.slots, indices]
  · rw [ofProperty_named raw hdynamic, action?,
      if_neg (show ¬(lifecycle = true ∧ _) from h),
      Placeholder.indices_of_length (by omega : (Placeholder.split property).length ≤ 1),
      occupied_nil_cons]
    split
    · simp [Action.operation, Operation.slots, indices]
    · split
      · next only heq =>
          have honly : indices raw = only.index?.toList := by
            rw [indices, ← Placeholder.filterMap_nonEmpty, heq]
            cases only <;> rfl
          split
          · simp [Action.operation, Operation.slots, honly]
          · simp [Action.operation, Operation.slots, indices]
      · simp [Action.operation, Operation.slots, indices]

theorem Attribute.action?_handler {property : Text} (raw : Text)
    (h : Attributes.IsLifecycle true property) :
    (ofProperty property raw).action? true = none := by
  rcases h.2 with hname | hname
  · rw [ofProperty_handler raw (by decide) hname, action?, if_pos ⟨rfl, .inl rfl⟩]
  · rw [ofProperty_handler raw (by decide) hname, action?, if_pos ⟨rfl, .inr rfl⟩]

namespace Attributes

/-- The slots of all operations for attributes. -/
def actionSlots (b : Binding) (actions : List Action) : List (List Nat) :=
  actions.flatMap fun action => (action.operation b).slots

theorem actionSlots_cons (b : Binding) (lifecycle : Bool) (pair : Text × Text) (rest : Attributes) :
    actionSlots b (actions lifecycle (pair :: rest))
      = actionSlots b ((Attribute.ofProperty pair.1 pair.2).action? lifecycle).toList
        ++ actionSlots b (actions lifecycle rest) := by
  unfold actionSlots actions
  rw [List.filterMap_cons]
  cases (Attribute.ofProperty pair.1 pair.2).action? lifecycle <;> simp

/-- Without lifecycle handlers, attributes keep all their slots. -/
theorem slots_actions_false (b : Binding) (attributes : Attributes) :
    occupied (actionSlots b (attributes.actions false)) = occupied (attributes.slots false) := by
  induction attributes with
  | nil => rfl
  | cons pair rest ih =>
      have hnot : ¬IsLifecycle false pair.1 := fun h => Bool.false_ne_true h.1
      have hkeeps : KeepsValue false pair rest := fun h => absurd h hnot
      rw [actionSlots_cons, occupied_append, ih, actionSlots, Attribute.slots_action? b pair.2 hnot,
        slots, if_pos hkeeps, ← occupied_append]
      rfl

/-- What remains of a handler when attributes follow it. -/
def standing (slot : Slot) (name : Text) (later : Attributes) : List Nat :=
  if ∀ other ∈ later, attributeName other.1 ≠ name then slot.expressions else []

theorem standing_cons_of_ne {name : Text} {pair : Text × Text} (slot : Slot) (rest : Attributes)
    (h : attributeName pair.1 ≠ name) :
    standing slot name (pair :: rest) = standing slot name rest := by
  simp only [standing, List.forall_mem_cons, h, ne_eq, not_false_iff, true_and]

theorem standing_cons_of_eq {name : Text} {pair : Text × Text} (slot : Slot) (rest : Attributes)
    (h : attributeName pair.1 = name) : standing slot name (pair :: rest) = [] := by
  simp [standing, h]

/-- The value of a handler is kept if it is a single one that is not replaced. -/
theorem standing_ofRaw {pair : Text × Text} (rest : Attributes) (h : IsLifecycle true pair.1) :
    standing (Slot.ofRaw pair.2) (attributeName pair.1) rest
      = if KeepsValue true pair rest then indices pair.2 else [] := by
  have hkeeps : KeepsValue true pair rest ↔
      (Placeholder.nonEmpty (Placeholder.split pair.2)).length = 1 ∧
        ∀ other ∈ rest, attributeName other.1 ≠ attributeName pair.1 :=
    ⟨fun hkeep => hkeep h, fun hkeep _ => hkeep⟩
  rw [standing, Slot.expressions_ofRaw]
  by_cases hlast : ∀ other ∈ rest, attributeName other.1 ≠ attributeName pair.1
  · by_cases hsingle : (Placeholder.nonEmpty (Placeholder.split pair.2)).length = 1
    · rw [if_pos hlast, if_pos hsingle, if_pos (hkeeps.mpr ⟨hsingle, hlast⟩)]
    · rw [if_pos hlast, if_neg hsingle, if_neg fun hkeep => hsingle (hkeeps.mp hkeep).1]
  · rw [if_neg hlast, if_neg fun hkeep => hlast (hkeeps.mp hkeep).2]

theorem handlerOr_cons_of_ne {name : Text} {pair : Text × Text} (hname : '\x00' ∉ name)
    (slot : Slot) (rest : Attributes) (h : attributeName pair.1 ≠ name) :
    handlerOr slot name (pair :: rest) = handlerOr slot name rest := by
  rw [handlerOr_cons, if_neg fun hhandler => h ((isHandler_iff hname pair).mp hhandler)]

theorem handlerOr_cons_of_eq {name : Text} {pair : Text × Text} (hname : '\x00' ∉ name)
    (slot : Slot) (rest : Attributes) (h : attributeName pair.1 = name) :
    handlerOr slot name (pair :: rest) = handlerOr (Slot.ofRaw pair.2) name rest := by
  rw [handlerOr_cons, if_pos ((isHandler_iff hname pair).mpr h)]

/-- **Handlers are collected.** The slots of attributes are those of their operations and, at the
end, those of the two handlers that are left. The induction starts from any handlers, which stand
until an attribute replaces them. -/
theorem slots_actions_true (b : Binding) (onload onunload : Slot) (attributes : Attributes) :
    (occupied (actionSlots b (attributes.actions true))
        ++ (occupied [(attributes.handlerOr onload "onload".toList).expressions]
          ++ occupied [(attributes.handlerOr onunload "onunload".toList).expressions])).Perm
      (occupied [attributes.standing onload "onload".toList]
        ++ (occupied [attributes.standing onunload "onunload".toList]
          ++ occupied (attributes.slots true))) := by
  have hload : '\x00' ∉ "onload".toList := by decide
  have hunload : '\x00' ∉ "onunload".toList := by decide
  have hdiffer : "onload".toList ≠ "onunload".toList := by decide
  induction attributes generalizing onload onunload with
  | nil =>
      refine List.Perm.of_eq ?_
      simp [actionSlots, actions, handlerOr, standing, slots, occupied]
  | cons pair rest ih =>
      rw [actionSlots_cons, occupied_append, slots, List.append_assoc]
      by_cases hhandler : IsLifecycle true pair.1
      · have hplain : '\x00' ∉ pair.1 := by
          rcases hhandler.2 with hname | hname
          · exact not_mem_of_attributeName hload hname
          · exact not_mem_of_attributeName hunload hname
        rw [Attribute.action?_handler pair.2 hhandler, ← standing_ofRaw rest hhandler,
          Placeholder.indices_plain hplain, occupied_nil_cons, occupied_cons _ (slots true rest)]
        rcases hhandler.2 with hname | hname
        · have hother : attributeName pair.1 ≠ "onunload".toList := hname ▸ hdiffer
          rw [handlerOr_cons_of_eq hload _ _ hname, handlerOr_cons_of_ne hunload _ _ hother,
            standing_cons_of_eq _ _ hname, standing_cons_of_ne _ _ hother, hname]
          exact (ih (Slot.ofRaw pair.2) onunload).trans (List.perm_append_comm_assoc _ _ _)
        · have hother : attributeName pair.1 ≠ "onload".toList := hname ▸ hdiffer.symm
          rw [handlerOr_cons_of_ne hload _ _ hother, handlerOr_cons_of_eq hunload _ _ hname,
            standing_cons_of_ne _ _ hother, standing_cons_of_eq _ _ hname, hname]
          exact ih onload (Slot.ofRaw pair.2)
      · have hkeeps : KeepsValue true pair rest := fun h => absurd h hhandler
        have hload' : attributeName pair.1 ≠ "onload".toList := fun h => hhandler ⟨rfl, .inl h⟩
        have hunload' : attributeName pair.1 ≠ "onunload".toList := fun h => hhandler ⟨rfl, .inr h⟩
        have hsplit : occupied (indices pair.1 :: indices pair.2 :: slots true rest)
            = occupied [indices pair.1, indices pair.2] ++ occupied (slots true rest) := by
          rw [← occupied_append]
          rfl
        rw [handlerOr_cons_of_ne hload _ _ hload', handlerOr_cons_of_ne hunload _ _ hunload',
          standing_cons_of_ne _ _ hload', standing_cons_of_ne _ _ hunload', if_pos hkeeps,
          actionSlots, Attribute.slots_action? b pair.2 hhandler, hsplit]
        -- the slots of this attribute move past those of the handlers
        refine ((ih onload onunload).append_left _).trans ?_
        refine (List.perm_append_comm_assoc _ _ _).trans (List.Perm.append_left _ ?_)
        exact List.perm_append_comm_assoc _ _ _

/-- **The attributes of an element** keep their slots. -/
theorem slots_allActions (options : LoweringOptions) (b : Binding) (generation : UInt32)
    (attributes : Attributes) :
    (occupied (actionSlots b (attributes.allActions options generation))).Perm
      (occupied (attributes.slots options.lifecycle)) := by
  have hnone : (Slot.absent).expressions = [] := rfl
  cases hlifecycle : options.lifecycle with
  | false =>
      have hempty : attributes.lifecycle? options generation = none := by
        simp [lifecycle?, hlifecycle]
      rw [allActions, hempty, Option.toList_none, List.append_nil, hlifecycle, slots_actions_false]
  | true =>
      have hstanding (name : Text) : attributes.standing .absent name = [] := by
        unfold standing
        split <;> rfl
      have hslots := slots_actions_true b .absent .absent attributes
      rw [hstanding, hstanding] at hslots
      refine List.Perm.trans (List.Perm.of_eq ?_) hslots
      rw [allActions, actionSlots, List.flatMap_append, occupied_append, hlifecycle]
      congr 1
      unfold lifecycle?
      dsimp only
      split
      · exact occupied_cons _ _
      · next h =>
          -- there is no operation if both handlers are absent
          simp only [hlifecycle, true_and, not_or, not_not] at h
          rw [h.1, h.2]
          rfl

end Attributes

/-! ## Slots of children -/

/-- The expressions that a child gives to its parent. -/
def Contribution.indices : Contribution → List Nat
  | .text raw => Placeholder.indices raw
  | .value known => known.expressions

namespace Children

theorem expressions_keep? (collapse : Bool) (value : Value) :
    (keep? collapse value).toList.flatMap Value.expressions = value.expressions := by
  cases value with
  | str text =>
      rw [keep?]
      cases literal? collapse text <;> rfl
  | expr _ => rfl
  | ref _ => rfl
  | toText _ => exact List.flatMap_singleton _ _
  | concat _ _ => exact List.flatMap_singleton _ _

/-- Normalizing the children of an element loses only literal text. -/
theorem expressions_normalize (collapse : Bool) (contributions : List Contribution) :
    (normalize collapse contributions).flatMap Value.expressions
      = contributions.flatMap Contribution.indices := by
  have hvalues (contribution : Contribution) :
      (values contribution).flatMap Value.expressions = contribution.indices := by
    cases contribution with
    | text raw =>
        simp [values, Contribution.indices, Placeholder.indices, List.flatMap_map,
          List.filterMap_eq_flatMap_toList]
    | value value => exact List.flatMap_singleton _ _
  rw [normalize, List.filterMap_eq_flatMap_toList, List.flatMap_assoc, List.flatMap_assoc]
  simp only [expressions_keep?, hvalues]

theorem slots_operation? (b : Binding) (values : List Value) :
    occupied ((operation? b values).toList.flatMap Operation.slots)
      = occupied [values.flatMap Value.expressions] := by
  unfold operation?
  split
  · rfl
  · rfl
  · simp [Operation.slots]

end Children

/-! ## Whole trees -/

namespace Node

mutual

/-- The elements of a tree, each with its attributes and its children. `comments` says whether
elements inside of comments count. -/
def elements (comments : Bool) : Node → List (Attributes × List Node)
  | .text _ => []
  | .element _ attributes children => (attributes, children) :: elementsAll comments children
  | .comment children => if comments then elementsAll comments children else []

/-- The elements of several trees. -/
def elementsAll (comments : Bool) : List Node → List (Attributes × List Node)
  | [] => []
  | node :: nodes => elements comments node ++ elementsAll comments nodes

end

theorem lowerAll_indices (options : LoweringOptions) (scope : Scope) (nodes : List Node) :
    (lowerAll options scope nodes).2.1.flatMap Contribution.indices
      = nodes.flatMap textIndices := by
  induction nodes generalizing scope with
  | nil => rw [lowerAll]; rfl
  | cons node nodes ih =>
      have hnode : (node.lower options scope).2.1.indices = node.textIndices := by
        cases node with
        | text content => rw [lower]; rfl
        | element tag attributes children => rw [lower_element]; rfl
        | comment children => rw [lower]; rfl
      rw [lowerAll_cons]
      simp only [List.flatMap_cons]
      rw [hnode, ih]

theorem slots_openElement (options : LoweringOptions) (tag : Text) (attributes : Attributes)
    (scope : Scope) :
    (occupied ((scope.openElement options tag attributes).operations.flatMap Operation.slots)).Perm
      (occupied (attributes.slots options.lifecycle)) := by
  obtain ⟨space, hoperations⟩ := scope.openElement_operations options tag attributes
  have hcreate (b : Binding) : (space.createElement b tag).1.slots = [] := by
    unfold Scope.createElement
    split <;> rfl
  rw [hoperations, List.flatMap_cons, hcreate, List.nil_append, List.flatMap_map]
  exact Attributes.slots_allActions options _ _ attributes

mutual

/-- **Slots of a tree.** The operations of a tree have the slots of its elements. -/
theorem lower_slots (options : LoweringOptions) (scope : Scope) (node : Node) :
    (occupied ((node.lower options scope).1.flatMap Operation.slots)).Perm
      (occupied ((node.elements false).flatMap (elementSlots options.lifecycle))) := by
  match node with
  | .text content =>
      rw [lower, elements]
      exact List.Perm.refl _
  | .comment children =>
      rw [lower, elements]
      exact List.Perm.refl _
  | .element tag attributes children =>
      have hopening := slots_openElement options tag attributes scope
      have hchildren := lowerAll_slots options
        (scope.openElement options tag attributes).scope children
      rw [lower_element, elements]
      simp only [List.flatMap_append, List.flatMap_cons, occupied_append, elementSlots,
        Children.slots_operation?, Children.expressions_normalize, lowerAll_indices]
      -- the text of the element moves in front of its children
      rw [List.append_assoc, List.append_assoc]
      exact hopening.append ((hchildren.append_right _).trans List.perm_append_comm)

theorem lowerAll_slots (options : LoweringOptions) (scope : Scope) (nodes : List Node) :
    (occupied ((lowerAll options scope nodes).1.flatMap Operation.slots)).Perm
      (occupied ((elementsAll false nodes).flatMap (elementSlots options.lifecycle))) := by
  match nodes with
  | [] =>
      rw [lowerAll, elementsAll]
      exact List.Perm.refl _
  | node :: nodes =>
      have hfirst := lower_slots options scope node
      have hothers := lowerAll_slots options (node.lower options scope).2.2 nodes
      rw [lowerAll_cons, elementsAll]
      simp only [List.flatMap_append, occupied_append]
      exact hfirst.append hothers

end

/-- **No expression is lost or evaluated twice.** The operations of a tree evaluate exactly the
expressions in the attributes and in the text of its elements, each as often as it occurs there. Of
lifecycle handlers, only the values that are kept count. Within one slot, expressions stay in the
order of the text. What stands inside of a comment is not built. -/
theorem lower_expressions (collapse : Bool) (scope : Scope) (node : Node) :
    ((node.lower ⟨false, collapse⟩ scope).1.flatMap Operation.expressions).Perm
        ((node.elements false).flatMap elementIndices) ∧
      ((node.lower ⟨true, collapse⟩ scope).1.flatMap Operation.expressions).Perm
        ((node.elements false).flatMap fun element => (elementSlots true element).flatten) ∧
      ∀ lifecycle : Bool,
        (occupied ((node.lower ⟨lifecycle, collapse⟩ scope).1.flatMap Operation.slots)).Perm
          (occupied ((node.elements false).flatMap (elementSlots lifecycle))) := by
  have hslots (lifecycle : Bool) := lower_slots ⟨lifecycle, collapse⟩ scope node
  have hflat (lifecycle : Bool) :
      ((node.lower ⟨lifecycle, collapse⟩ scope).1.flatMap Operation.expressions).Perm
        ((node.elements false).flatMap fun element =>
          (elementSlots lifecycle element).flatten) := by
    have hflatten := (hslots lifecycle).flatten
    rw [flatten_occupied, flatten_occupied, flatten_slots, flatten_slots] at hflatten
    exact hflatten
  refine ⟨?_, hflat true, hslots⟩
  simpa only [flatten_elementSlots_false] using hflat false

/-- An element inside of a comment is not built, so that its expression is not evaluated. -/
theorem lower_expressions_in_comment :
    let node := Node.comment [.element "p".toList [] [.text (Placeholder.encode 0)]]
    ¬((node.lower ⟨false, true⟩ Scope.empty).1.flatMap Operation.expressions).Perm
      ((node.elements true).flatMap elementIndices) := by
  decide +kernel

end Node

end Hypertext
