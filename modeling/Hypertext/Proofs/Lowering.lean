import Hypertext.Proofs.Document
import Hypertext.Proofs.FreshNames

set_option autoImplicit false

/-! # The shape of lowered operations

The operations of an element are its opening (it is created, and its attributes are set), those of
its children, and at most one that appends the children. This file gives the opening in terms
of the attributes alone (`openElement_operations`), and proves two facts about all operations of a
tree: the names of its nodes are allocated one after the other (`lower_allocates`), and the nodes
created are the root together with those that get appended (`lower_created_perm`).
-/

namespace Hypertext

/-! ## Created and attached nodes -/

/-- The nodes that operations create, in order. -/
def createdBy (operations : List Operation) : List Binding :=
  (operations.filter Operation.isCreate).map Operation.binding

/-- The nodes that operations append to others, in order. -/
def attachedBy (operations : List Operation) : List Binding :=
  operations.flatMap Operation.references

@[simp] theorem createdBy_append (first second : List Operation) :
    createdBy (first ++ second) = createdBy first ++ createdBy second := by
  simp [createdBy]

@[simp] theorem attachedBy_append (first second : List Operation) :
    attachedBy (first ++ second) = attachedBy first ++ attachedBy second := by
  simp [attachedBy]

/-! ## Actions -/

/-- The operation that does an action to a node. -/
def Action.operation (b : Binding) : Action → Operation
  | .property name value => .setProperty b name value
  | .attribute name value => .setAttribute b name value
  | .boolean name value => .setBooleanAttribute b name value
  | .dynamic name value => .setDynamicAttribute b name value
  | .lifecycle onload onunload generation => .setLifecycleHandler b onload onunload generation

theorem Document.step_operation (document : Document) (b : Binding) (action : Action) :
    document.step (action.operation b) = document.act b action := by
  cases action <;> rfl

@[simp] theorem createdBy_actions (b : Binding) (actions : List Action) :
    createdBy (actions.map (Action.operation b)) = [] := by
  rw [createdBy, List.map_eq_nil_iff, List.filter_eq_nil_iff]
  intro operation hoperation
  obtain ⟨action, -, rfl⟩ := List.mem_map.mp hoperation
  cases action <;> simp [Action.operation, Operation.isCreate]

@[simp] theorem attachedBy_actions (b : Binding) (actions : List Action) :
    attachedBy (actions.map (Action.operation b)) = [] := by
  rw [attachedBy, List.flatMap_eq_nil_iff]
  intro operation hoperation
  obtain ⟨action, -, rfl⟩ := List.mem_map.mp hoperation
  cases action <;> rfl

/-! ## Attributes as actions -/

/-- The action of an attribute. A lifecycle handler has none of its own. -/
def Attribute.action? (lifecycle : Bool) : Attribute → Option Action
  | .dynamic name value =>
    some (.dynamic (Value.soleOrJoined name) (Value.soleOrJoined value))
  | .named name raw value =>
    if lifecycle ∧ (name = "onload".toList ∨ name = "onunload".toList) then none
    else if Text.startsWith "on".toList name then some (.property name (Value.soleOrJoined value))
    else
      match Placeholder.nonEmpty value with
      | [only] =>
        if isBooleanAttribute name ∧ raw ≠ name then some (.boolean name (Value.ofFragment only))
        else some (.attribute name (Value.composed value))
      | _ => some (.attribute name (Value.composed value))

namespace Attributes

/-- The actions of attributes, at most one for each, in their order. -/
def actions (lifecycle : Bool) (attributes : Attributes) : List Action :=
  attributes.filterMap fun pair => (Attribute.ofProperty pair.1 pair.2).action? lifecycle

/-- Whether a property is the lifecycle handler of the given name. -/
def isHandler (name : Text) (pair : Text × Text) : Bool :=
  match Attribute.ofProperty pair.1 pair.2 with
  | .named other _ _ => other = name
  | .dynamic _ _ => false

/-- The lifecycle handler of the given name: the last property with this name decides, and if there
is none, it is the handler given. -/
def handlerOr (slot : Slot) (name : Text) (attributes : Attributes) : Slot :=
  ((attributes.filter (isHandler name)).getLast?.map fun pair => Slot.ofRaw pair.2).getD slot

/-- The action that installs the lifecycle handlers, if there are any. -/
def lifecycle? (options : LoweringOptions) (generation : UInt32) (attributes : Attributes) :
    Option Action :=
  let onload := attributes.handlerOr .absent "onload".toList
  let onunload := attributes.handlerOr .absent "onunload".toList
  if options.lifecycle ∧ (onload ≠ .absent ∨ onunload ≠ .absent) then
    some (.lifecycle onload.value? onunload.value? generation)
  else none

/-- All that is done to an element: the actions of its attributes, and last its lifecycle. -/
def allActions (options : LoweringOptions) (generation : UInt32) (attributes : Attributes) :
    List Action :=
  attributes.actions options.lifecycle ++ (attributes.lifecycle? options generation).toList

theorem handlerOr_cons (slot : Slot) (name : Text) (pair : Text × Text) (rest : Attributes) :
    handlerOr slot name (pair :: rest)
      = handlerOr (if isHandler name pair then Slot.ofRaw pair.2 else slot) name rest := by
  unfold handlerOr
  by_cases h : isHandler name pair
  · rw [List.filter_cons_of_pos h, List.getLast?_cons, if_pos h]
    cases (rest.filter (isHandler name)).getLast? <;> rfl
  · rw [List.filter_cons_of_neg h, if_neg h]

end Attributes

theorem classifyNamed_eq (b : Binding) (name raw : Text) (value : List Fragment)
    (lifecycle : Bool)
    (h : ¬(lifecycle ∧ (name = "onload".toList ∨ name = "onunload".toList))) :
    some (classifyNamed b name raw value)
      = ((Attribute.named name raw value).action? lifecycle).map (Action.operation b) := by
  rw [Attribute.action?, if_neg h, classifyNamed]
  by_cases hon : Text.startsWith "on".toList name
  · rw [if_pos hon, if_pos hon]
    rfl
  · rw [if_neg hon, if_neg hon]
    -- the fragments are tested together with the name on one side, before it on the other
    by_cases hboolean : isBooleanAttribute name ∧ raw ≠ name
    · have htrue : (isBooleanAttribute name && raw != name) = true := by simp [hboolean]
      rw [htrue]
      split
      · next heq => rw [heq]; simp [hboolean, Action.operation]
      · next hne =>
          split
          · next only heq => exact absurd heq (hne only rfl)
          · rfl
    · have hfalse : (isBooleanAttribute name && raw != name) = false := by
        rw [Bool.eq_false_iff]
        intro htrue
        exact hboolean (by simpa using htrue)
      rw [hfalse]
      split
      · next h _ => cases h
      · split
        · rw [if_neg hboolean]; rfl
        · rfl

theorem Attribute.ofProperty_cases (property raw : Text) :
    (∃ name value, Attribute.ofProperty property raw = .dynamic name value) ∨
      ∃ name value, Attribute.ofProperty property raw = .named name raw value := by
  unfold Attribute.ofProperty
  dsimp only
  split
  · exact Or.inl ⟨_, _, rfl⟩
  · exact Or.inr ⟨_, _, rfl⟩

/-- Classifying a property gives the operation of its action, whatever was collected before. -/
theorem classify_fst (b : Binding) (property raw : Text) (slots : Option LifecycleSlots) :
    (classify b property raw slots).1
      = ((Attribute.ofProperty property raw).action? slots.isSome).map (Action.operation b) := by
  unfold classify
  rcases Attribute.ofProperty_cases property raw with ⟨name, value, h⟩ | ⟨name, value, h⟩
  · rw [h]
    rfl
  · rw [h]
    cases slots with
    | none => exact classifyNamed_eq b name raw value false fun hhandler => nomatch hhandler.1
    | some slots =>
        dsimp only
        by_cases hload : name = "onload".toList
        · rw [if_pos hload, Attribute.action?, if_pos ⟨rfl, Or.inl hload⟩]
          rfl
        · rw [if_neg hload]
          by_cases hunload : name = "onunload".toList
          · rw [if_pos hunload, Attribute.action?, if_pos ⟨rfl, Or.inr hunload⟩]
            rfl
          · rw [if_neg hunload]
            refine classifyNamed_eq b name raw value true ?_
            rintro ⟨-, h | h⟩
            · exact hload h
            · exact hunload h

/-- The slots after a property: a handler takes the place of what was collected before. -/
theorem classify_snd (b : Binding) (property raw : Text) (slots : Option LifecycleSlots) :
    (classify b property raw slots).2 = slots.map fun slots =>
      ⟨if Attributes.isHandler "onload".toList (property, raw) then Slot.ofRaw raw
          else slots.onload,
        if Attributes.isHandler "onunload".toList (property, raw) then Slot.ofRaw raw
          else slots.onunload⟩ := by
  unfold classify Attributes.isHandler
  rcases Attribute.ofProperty_cases property raw with ⟨name, value, h⟩ | ⟨name, value, h⟩
  · rw [h]
    cases slots <;> rfl
  · rw [h]
    cases slots with
    | none => rfl
    | some slots =>
        dsimp only [Option.map_some]
        -- a property is at most one of the two handlers
        have hdiffer : "onload".toList ≠ "onunload".toList := by decide
        by_cases hload : name = "onload".toList
        · have hunload : name ≠ "onunload".toList := fun h' => hdiffer (hload.symm.trans h')
          rw [if_pos hload, if_pos (decide_eq_true hload),
            if_neg fun h' => hunload (of_decide_eq_true h')]
        · rw [if_neg hload, if_neg fun h' => hload (of_decide_eq_true h')]
          by_cases hunload : name = "onunload".toList
          · rw [if_pos hunload, if_pos (decide_eq_true hunload)]
          · rw [if_neg hunload, if_neg fun h' => hunload (of_decide_eq_true h')]

/-- The operations for the attributes of an element are those of their actions. -/
theorem classifyAll_fst (b : Binding) (attributes : Attributes) (slots : Option LifecycleSlots) :
    (classifyAll b attributes slots).1
      = (attributes.actions slots.isSome).map (Action.operation b) := by
  induction attributes generalizing slots with
  | nil => rfl
  | cons pair rest ih =>
      obtain ⟨property, raw⟩ := pair
      have hsome : (classify b property raw slots).2.isSome = slots.isSome := by
        rw [classify_snd, Option.isSome_map]
      show (classify b property raw slots).1.toList
        ++ (classifyAll b rest (classify b property raw slots).2).1 = _
      rw [ih, hsome, classify_fst, Attributes.actions, Attributes.actions, List.filterMap_cons]
      cases (Attribute.ofProperty property raw).action? slots.isSome <;> rfl

/-- The handlers collected from the attributes of an element. -/
theorem classifyAll_snd (b : Binding) (attributes : Attributes) (slots : Option LifecycleSlots) :
    (classifyAll b attributes slots).2 = slots.map fun slots =>
      ⟨attributes.handlerOr slots.onload "onload".toList,
        attributes.handlerOr slots.onunload "onunload".toList⟩ := by
  induction attributes generalizing slots with
  | nil => cases slots <;> rfl
  | cons pair rest ih =>
      obtain ⟨property, raw⟩ := pair
      show (classifyAll b rest (classify b property raw slots).2).2 = _
      rw [ih, classify_snd, Option.map_map]
      cases slots with
      | none => rfl
      | some slots =>
          simp only [Option.map_some, Function.comp_apply]
          rw [Attributes.handlerOr_cons, Attributes.handlerOr_cons]

/-! ## Openings of elements -/

/-- An element before its children: its binding, the operations so far and the scope after them. -/
structure Opening where
  binding : Binding
  operations : List Operation
  scope : Scope

/-- Creates an element and sets its attributes. -/
def Scope.openElement (options : LoweringOptions) (tag : Text) (attributes : Attributes)
    (scope : Scope) : Opening :=
  let named := scope.fresh (elementHint attributes tag)
  let created := named.2.createElement named.1 tag
  let attributed :=
    classifyAll named.1 attributes (if options.lifecycle then some .empty else none)
  let finished := created.2.finishLifecycle named.1 attributed.2
  ⟨named.1, created.1 :: attributed.1 ++ finished.1.toList, finished.2⟩

/-- The operations of an element: its opening, those of its children, and the one that appends
them. -/
theorem Node.lower_element (options : LoweringOptions) (scope : Scope) (tag : Text)
    (attributes : Attributes) (children : List Node) :
    (Node.element tag attributes children).lower options scope =
      let opening := scope.openElement options tag attributes
      let built := Node.lowerAll options opening.scope children
      let operations := opening.operations ++ built.1 ++ (Children.operation? opening.binding
        (Children.normalize options.collapse built.2.1)).toList
      (operations, .value (.ref opening.binding),
        built.2.2.declareHelpers opening.binding operations) := by
  rw [Node.lower]
  rfl

theorem Scope.allocates_openElement (options : LoweringOptions) (tag : Text)
    (attributes : Attributes) (scope : Scope) :
    scope.Allocates [(scope.openElement options tag attributes).binding]
      (scope.openElement options tag attributes).scope :=
  ((scope.allocates_fresh _).trans_nil (allocates_createElement _ tag _)).trans_nil
    (allocates_finishLifecycle _ _ _)

theorem LifecycleSlots.isEmpty_iff {slots : LifecycleSlots} :
    slots.isEmpty = true ↔ slots.onload = .absent ∧ slots.onunload = .absent := by
  cases slots
  simp [LifecycleSlots.isEmpty, LifecycleSlots.empty]

/-- The slots that are collected from the attributes make the lifecycle action. -/
theorem finish_classifyAll (options : LoweringOptions) (b : Binding) (attributes : Attributes)
    (generation : UInt32) :
    ((classifyAll b attributes (if options.lifecycle then some .empty else none)).2.bind
        fun slots => slots.finish b generation)
      = (attributes.lifecycle? options generation).map (Action.operation b) := by
  rw [classifyAll_snd]
  cases hlifecycle : options.lifecycle with
  | false =>
      simp only [Attributes.lifecycle?, hlifecycle, Bool.false_eq_true, false_and, if_false,
        Option.map_none, Option.bind_none]
  | true =>
      simp only [if_true, Option.map_some, Option.bind_some, LifecycleSlots.empty,
        Attributes.lifecycle?, LifecycleSlots.finish, hlifecycle, true_and]
      generalize attributes.handlerOr .absent "onload".toList = onload
      generalize attributes.handlerOr .absent "onunload".toList = onunload
      by_cases h : onload = .absent ∧ onunload = .absent
      · rw [if_pos (LifecycleSlots.isEmpty_iff.mpr h), if_neg (by simp [h.1, h.2])]
        rfl
      · rw [if_neg (fun hempty => h (LifecycleSlots.isEmpty_iff.mp hempty)),
          if_pos (not_and_or.mp h)]
        rfl

namespace Scope

theorem finishLifecycle_fst (b : Binding) (slots : Option LifecycleSlots) (scope : Scope) :
    (scope.finishLifecycle b slots).1
      = slots.bind fun slots => slots.finish b scope.generation := by
  unfold finishLifecycle
  split
  · next h => exact h.symm
  · next h => exact h.symm

theorem finishLifecycle_generation (b : Binding) (slots : Option LifecycleSlots)
    (scope : Scope) : (scope.finishLifecycle b slots).2.generation
      = scope.generation + .ofNat (scope.finishLifecycle b slots).1.toList.length := by
  unfold finishLifecycle
  split
  · rfl
  · exact (UInt32.add_zero _).symm

@[simp] theorem createElement_generation (b : Binding) (tag : Text) (scope : Scope) :
    (scope.createElement b tag).2.generation = scope.generation := by
  unfold createElement
  split
  · exact scope.declare_generation _ _
  · rfl

@[simp] theorem declareHelpers_generation (b : Binding) (operations : List Operation)
    (scope : Scope) : (scope.declareHelpers b operations).generation = scope.generation := by
  induction operations generalizing scope with
  | nil => rfl
  | cons operation rest ih =>
      rw [declareHelpers]
      split
      · rw [ih]
        exact scope.declare_generation _ _
      · exact ih scope

end Scope

/-- The operation that creates an element in its namespace. -/
theorem Scope.step_createElement (scope : Scope) (document : Document) (b : Binding)
    (tag : Text) :
    document.step (scope.createElement b tag).1
      = document.create b (.element tag (isSvgTag tag)) := by
  unfold Scope.createElement
  by_cases h : isSvgTag tag
  · rw [if_pos h, h]
    rfl
  · rw [if_neg h, Bool.eq_false_iff.mpr h]
    rfl

section Opening

variable (options : LoweringOptions) (tag : Text) (attributes : Attributes) (scope : Scope)

theorem Scope.openElement_operations :
    ∃ space : Scope, (scope.openElement options tag attributes).operations
      = (space.createElement (scope.openElement options tag attributes).binding tag).1
        :: (attributes.allActions options scope.generation).map
            (Action.operation (scope.openElement options tag attributes).binding) := by
  refine ⟨(scope.fresh (elementHint attributes tag)).2, ?_⟩
  have hslots : (if options.lifecycle then some LifecycleSlots.empty else none).isSome
      = options.lifecycle := by
    cases options.lifecycle <;> rfl
  simp only [openElement, Attributes.allActions, List.map_append, classifyAll_fst, hslots,
    finishLifecycle_fst, finish_classifyAll, createElement_generation, fresh_generation,
    List.cons_append, Option.toList_map]

theorem Scope.openElement_generation :
    (scope.openElement options tag attributes).scope.generation
      = scope.generation
        + .ofNat (attributes.lifecycle? options scope.generation).toList.length := by
  simp only [openElement, finishLifecycle_generation, finishLifecycle_fst, finish_classifyAll,
    createElement_generation, fresh_generation, Option.toList_map, List.length_map]

@[simp] theorem Scope.createdBy_openElement :
    createdBy (scope.openElement options tag attributes).operations
      = [(scope.openElement options tag attributes).binding] := by
  obtain ⟨space, hoperations⟩ := scope.openElement_operations options tag attributes
  have hcreate : createdBy [(space.createElement
      (scope.openElement options tag attributes).binding tag).1]
        = [(scope.openElement options tag attributes).binding] := by
    unfold createElement
    split <;> rfl
  rw [hoperations, ← List.singleton_append, createdBy_append, hcreate, createdBy_actions]
  rfl

@[simp] theorem Scope.attachedBy_openElement :
    attachedBy (scope.openElement options tag attributes).operations = [] := by
  obtain ⟨space, hoperations⟩ := scope.openElement_operations options tag attributes
  have hcreate : attachedBy [(space.createElement
      (scope.openElement options tag attributes).binding tag).1] = [] := by
    unfold createElement
    split <;> rfl
  rw [hoperations, ← List.singleton_append, attachedBy_append, hcreate, attachedBy_actions]
  rfl

end Opening

/-! ## Appending children -/

namespace Children

@[simp] theorem createdBy_operation? (b : Binding) (values : List Value) :
    createdBy (operation? b values).toList = [] := by
  unfold operation?
  split <;> rfl

@[simp] theorem attachedBy_operation? (b : Binding) (values : List Value) :
    attachedBy (operation? b values).toList = values.filterMap Value.binding? := by
  unfold operation?
  split
  · rfl
  · rfl
  · simp [attachedBy, Operation.references_appendChildren]

theorem normalize_append (collapse : Bool) (first second : List Contribution) :
    normalize collapse (first ++ second)
      = normalize collapse first ++ normalize collapse second := by
  simp [normalize]

/-- The nodes among the normalized children of an element. -/
theorem binding?_normalize (collapse : Bool) (contributions : List Contribution) :
    (normalize collapse contributions).filterMap Value.binding?
      = contributions.filterMap Contribution.binding? := by
  induction contributions with
  | nil => rfl
  | cons first rest ih =>
      have hfirst : (normalize collapse [first]).filterMap Value.binding?
          = first.binding?.toList := by
        cases first with
        | text raw =>
            -- the fragments of a text are literals and expressions
            simp only [normalize, List.flatMap_singleton, values, List.filterMap_map,
              List.filterMap_filterMap, Contribution.binding?, Option.toList_none]
            rw [List.filterMap_eq_nil_iff]
            intro fragment _
            cases fragment with
            | literal text =>
                simp only [Function.comp_apply, Value.ofFragment, keep?]
                cases literal? collapse text <;> rfl
            | placeholder index => rfl
        | value value =>
            cases value with
            | str text =>
                simp only [normalize, List.flatMap_singleton, values, List.filterMap_filterMap]
                simp only [List.filterMap_cons, List.filterMap_nil, keep?]
                cases literal? collapse text <;> rfl
            | expr _ => rfl
            | ref _ => rfl
            | toText _ => rfl
            | concat _ _ => rfl
      rw [← List.singleton_append, normalize_append, List.filterMap_append, hfirst, ih,
        List.singleton_append, List.filterMap_cons]
      cases first.binding? <;> rfl

end Children

/-! ## Whole trees -/

namespace Node

theorem lowerAll_cons (options : LoweringOptions) (scope : Scope) (node : Node)
    (nodes : List Node) :
    lowerAll options scope (node :: nodes) =
      let first := node.lower options scope
      let others := lowerAll options first.2.2 nodes
      (first.1 ++ others.1, first.2.1 :: others.2.1, others.2.2) := by
  rw [lowerAll]

mutual

/-- **The names of a tree.** The nodes of a lowered tree have names allocated one after the other
in the scope. -/
theorem lower_allocates (options : LoweringOptions) (scope : Scope) (node : Node) :
    scope.Allocates (createdBy (node.lower options scope).1) (node.lower options scope).2.2 := by
  match node with
  | .text content =>
      rw [lower]
      exact Scope.Allocates.refl scope
  | .comment children =>
      rw [lower]
      exact scope.allocates_fresh _
  | .element tag attributes children =>
      rw [lower_element]
      have hopening := scope.allocates_openElement options tag attributes
      have hchildren := lowerAll_allocates options
        (scope.openElement options tag attributes).scope children
      simp only [createdBy_append, Scope.createdBy_openElement, Children.createdBy_operation?,
        List.append_nil]
      exact (hopening.trans hchildren).trans_nil (Scope.allocates_declareHelpers _ _ _)

theorem lowerAll_allocates (options : LoweringOptions) (scope : Scope) (nodes : List Node) :
    scope.Allocates (createdBy (lowerAll options scope nodes).1)
      (lowerAll options scope nodes).2.2 := by
  match nodes with
  | [] =>
      rw [lowerAll]
      exact Scope.Allocates.refl scope
  | node :: nodes =>
      rw [lowerAll_cons]
      have hfirst := lower_allocates options scope node
      have hothers := lowerAll_allocates options (node.lower options scope).2.2 nodes
      simp only [createdBy_append]
      exact hfirst.trans hothers

end

mutual

/-- **The nodes of a tree.** What a lowered tree creates is its root and, in some order, what it
appends. -/
theorem lower_created_perm (options : LoweringOptions) (scope : Scope) (node : Node) :
    (createdBy (node.lower options scope).1).Perm
      ((node.lower options scope).2.1.binding?.toList
        ++ attachedBy (node.lower options scope).1) := by
  match node with
  | .text content =>
      rw [lower]
      exact List.Perm.refl _
  | .comment children =>
      rw [lower]
      exact List.Perm.refl _
  | .element tag attributes children =>
      rw [lower_element]
      have hchildren := lowerAll_created_perm options
        (scope.openElement options tag attributes).scope children
      simp only [createdBy_append, attachedBy_append, Scope.createdBy_openElement,
        Scope.attachedBy_openElement, Children.createdBy_operation?,
        Children.attachedBy_operation?, Children.binding?_normalize, List.append_nil,
        List.nil_append, Contribution.binding?, Option.toList_some]
      exact (hchildren.trans List.perm_append_comm).append_left _

theorem lowerAll_created_perm (options : LoweringOptions) (scope : Scope) (nodes : List Node) :
    (createdBy (lowerAll options scope nodes).1).Perm
      ((lowerAll options scope nodes).2.1.filterMap Contribution.binding?
        ++ attachedBy (lowerAll options scope nodes).1) := by
  match nodes with
  | [] =>
      rw [lowerAll]
      exact List.Perm.refl _
  | node :: nodes =>
      rw [lowerAll_cons]
      have hfirst := lower_created_perm options scope node
      have hothers := lowerAll_created_perm options (node.lower options scope).2.2 nodes
      simp only [createdBy_append, attachedBy_append, List.filterMap_cons]
      refine (hfirst.append hothers).trans ?_
      -- the roots of the other nodes move to the front
      cases (node.lower options scope).2.1.binding? with
      | none =>
          simp only [Option.toList_none, List.nil_append]
          rw [← List.append_assoc, ← List.append_assoc]
          exact List.perm_append_comm.append_right _
      | some root =>
          simp only [Option.toList_some, List.cons_append]
          rw [← List.append_assoc, ← List.append_assoc]
          exact (List.perm_append_comm.append_right _).cons root

end

end Node

end Hypertext
