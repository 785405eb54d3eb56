import Hypertext.Proofs.SharedValues
import Mathlib.Logic.Equiv.Fintype

set_option autoImplicit false

/-! # Lowering up to renaming

What a scope went through before shows in the operations of a tree only in their names and in the
numbers of their lifecycle handlers. This file proves that any two scopes give the same operations
up to a renaming of bindings, if the numbers are shifted by the distance between the two
(`Node.lower_renames`).

The proof has two halves. `Node.lower_rename` says that a function which takes the nodes of the one
run to those of the other in turn, and the namespace to the namespace, takes the operations to the
operations: the names of the nodes are all that a run can choose. That such a function exists, and
can be a permutation of all bindings, follows from what is known about the names: the nodes have
different names (`Node.lower_allocates`), and all namespaces are the one that is shared
(`Node.lower_shares`), which is the name of no node.
-/

namespace Hypertext

/-! ## Renaming -/

/-- A value with its bindings renamed. -/
def Value.rename (f : Binding → Binding) : Value → Value
  | .str text => .str text
  | .expr index => .expr index
  | .ref binding => .ref (f binding)
  | .toText value => .toText (value.rename f)
  | .concat left right => .concat (left.rename f) (right.rename f)

namespace Operation

/-- An operation with its bindings renamed and the number of its lifecycle handlers changed. -/
def rename (f : Binding → Binding) (number : UInt32 → UInt32) : Operation → Operation
  | .createElement b tag => .createElement (f b) tag
  | .createNamespacedElement b space tag => .createNamespacedElement (f b) (f space) tag
  | .createComment b text => .createComment (f b) text
  | .setProperty b name value => .setProperty (f b) name (value.rename f)
  | .setAttribute b name value => .setAttribute (f b) name (value.rename f)
  | .setBooleanAttribute b name value => .setBooleanAttribute (f b) name (value.rename f)
  | .setDynamicAttribute b name value =>
    .setDynamicAttribute (f b) (name.rename f) (value.rename f)
  | .setLifecycleHandler b onload onunload generation =>
    .setLifecycleHandler (f b) (onload.map (Value.rename f)) (onunload.map (Value.rename f))
      (number generation)
  | .appendTextNode b text => .appendTextNode (f b) text
  | .appendChildren b children => .appendChildren (f b) (children.map (Value.rename f))

/-- The number of the lifecycle handlers that an operation installs. -/
def generation? : Operation → Option UInt32
  | .setLifecycleHandler _ _ _ generation => some generation
  | _ => none

end Operation

/-- The second is the first with its bindings renamed and its numbers shifted from `g` to `g'`. Like
the numbers themselves, the distance is counted in 32 bits. -/
def Lowered.RenamesTo (g g' : UInt32) (first second : Lowered) : Prop :=
  ∃ f : Equiv.Perm Binding,
    first.operations.map (Operation.rename f (· + (g' - g))) = second.operations ∧
      first.root.map f = second.root

/-! ## Values of attributes

What is written in an attribute or a text names no node, so that it stays as it is. -/

section

variable (f : Binding → Binding)

namespace Value

@[simp] theorem rename_ofFragment (fragment : Fragment) :
    (ofFragment fragment).rename f = ofFragment fragment := by
  cases fragment <;> rfl

theorem rename_foldl_concat (values : List Value) (first : Value)
    (hfirst : first.rename f = first) (hvalues : ∀ value ∈ values, value.rename f = value) :
    (values.foldl .concat first).rename f = values.foldl .concat first := by
  induction values generalizing first with
  | nil => exact hfirst
  | cons value values ih =>
      refine ih (.concat first value) ?_ fun other hother =>
        hvalues other (List.mem_cons_of_mem _ hother)
      rw [rename, hfirst, hvalues value List.mem_cons_self]

@[simp] theorem rename_composed (fragments : List Fragment) :
    (composed fragments).rename f = composed fragments := by
  have hparts : ∀ value ∈ fragments.map fun fragment => (ofFragment fragment).asText,
      value.rename f = value := by
    intro value hvalue
    obtain ⟨fragment, -, rfl⟩ := List.mem_map.mp hvalue
    cases fragment <;> rfl
  unfold composed
  cases hcases : fragments.map fun fragment => (ofFragment fragment).asText with
  | nil => rfl
  | cons first rest =>
      rw [hcases] at hparts
      exact rename_foldl_concat f rest first (hparts first List.mem_cons_self) fun value hvalue =>
        hparts value (List.mem_cons_of_mem _ hvalue)

@[simp] theorem rename_soleOrJoined (fragments : List Fragment) :
    (soleOrJoined fragments).rename f = soleOrJoined fragments := by
  unfold soleOrJoined
  split
  · exact rename_ofFragment f _
  · exact rename_composed f _

end Value

/-! ## Attributes -/

namespace Attributes

variable (number : UInt32 → UInt32) (b : Binding)

theorem rename_actions (lifecycle : Bool) (attributes : Attributes) {action : Action}
    (h : action ∈ attributes.actions lifecycle) :
    (action.operation b).rename f number = action.operation (f b) := by
  obtain ⟨pair, -, h⟩ := List.mem_filterMap.mp h
  unfold Attribute.action? at h
  repeat' split at h
  all_goals cases h <;> simp [Action.operation, Operation.rename]

theorem rename_handlerOr (name : Text) (attributes : Attributes) :
    (attributes.handlerOr .absent name).value?.map (Value.rename f)
      = (attributes.handlerOr .absent name).value? := by
  unfold handlerOr
  cases (attributes.filter (isHandler name)).getLast? with
  | none => rfl
  | some pair =>
      simp only [Option.map_some, Option.getD_some]
      unfold Slot.ofRaw
      repeat' split
      all_goals simp [Slot.value?]

/-- What is done to an element depends on its name and, if it has lifecycle handlers, on their
number. -/
theorem rename_allActions (options : LoweringOptions) (generation : UInt32)
    (attributes : Attributes) :
    ((attributes.allActions options generation).map (Action.operation b)).map
        (Operation.rename f number)
      = (attributes.allActions options (number generation)).map (Action.operation (f b)) := by
  rw [List.map_map, allActions, allActions, List.map_append, List.map_append]
  congr 1
  · refine List.map_congr_left fun action haction => ?_
    exact rename_actions f number b options.lifecycle attributes haction
  · unfold lifecycle?
    dsimp only
    split
    · simp [Action.operation, Operation.rename, rename_handlerOr]
    · rfl

end Attributes

/-! ## Children -/

/-- What a node gives to its parent, with bindings renamed. -/
def Contribution.rename : Contribution → Contribution
  | .text raw => .text raw
  | .value given => .value (given.rename f)

theorem Contribution.binding?_rename (contribution : Contribution) :
    (contribution.rename f).binding? = contribution.binding?.map f := by
  cases contribution with
  | text raw => rfl
  | value given => cases given <;> rfl

namespace Children

theorem rename_values (contribution : Contribution) :
    (values contribution).map (Value.rename f) = values (contribution.rename f) := by
  cases contribution with
  | text raw => simp [values, Contribution.rename, Function.comp_def]
  | value given => rfl

theorem rename_keep? (collapse : Bool) (value : Value) :
    (keep? collapse value).map (Value.rename f) = keep? collapse (value.rename f) := by
  cases value with
  | str text =>
      simp only [keep?, Value.rename]
      cases literal? collapse text <;> rfl
  | expr _ | ref _ | toText _ | concat _ _ => rfl

theorem rename_normalize (collapse : Bool) (contributions : List Contribution) :
    (normalize collapse contributions).map (Value.rename f)
      = normalize collapse (contributions.map (Contribution.rename f)) := by
  simp only [normalize, List.map_filterMap, List.flatMap_map, ← rename_values, rename_keep?,
    ← List.map_flatMap, List.filterMap_map, Function.comp_def]

theorem rename_operation? (number : UInt32 → UInt32) (b : Binding) (values : List Value) :
    (operation? b values).map (Operation.rename f number)
      = operation? (f b) (values.map (Value.rename f)) := by
  cases values with
  | nil => rfl
  | cons first rest =>
      cases rest with
      | nil => cases first <;> rfl
      | cons second rest => cases first <;> rfl

end Children

end

/-! ## Two runs -/

/-- The namespaces in which operations create elements. -/
def spacesOf (operations : List Operation) : List Binding := operations.filterMap Operation.space?

@[simp] theorem spacesOf_append (first second : List Operation) :
    spacesOf (first ++ second) = spacesOf first ++ spacesOf second :=
  List.filterMap_append

theorem Attributes.lifecycle?_length (options : LoweringOptions) (attributes : Attributes)
    (g g' : UInt32) :
    (attributes.lifecycle? options g).toList.length
      = (attributes.lifecycle? options g').toList.length := by
  unfold lifecycle?
  dsimp only
  split <;> rfl

/-- An opening moves the next number of two scopes by as much. -/
theorem Scope.openElement_distance (options : LoweringOptions) (tag : Text)
    (attributes : Attributes) {s t : Scope} {distance : UInt32}
    (h : t.generation = s.generation + distance) :
    (t.openElement options tag attributes).scope.generation
      = (s.openElement options tag attributes).scope.generation + distance := by
  rw [openElement_generation, openElement_generation,
    attributes.lifecycle?_length options t.generation s.generation, h, UInt32.add_assoc,
    UInt32.add_assoc, UInt32.add_comm distance]

section

variable {distance : UInt32}

namespace Node

mutual

/-- Two runs create as many nodes and use as many numbers. -/
theorem lower_lengths (options : LoweringOptions) {s t : Scope}
    (hdistance : t.generation = s.generation + distance) (node : Node) :
    (createdBy (node.lower options s).1).length = (createdBy (node.lower options t).1).length ∧
      (node.lower options t).2.2.generation
        = (node.lower options s).2.2.generation + distance := by
  match node with
  | .text content =>
      rw [lower, lower]
      exact ⟨rfl, hdistance⟩
  | .comment children =>
      rw [lower, lower]
      exact ⟨rfl, hdistance⟩
  | .element tag attributes children =>
      simp only [lower_element, createdBy_append, Scope.createdBy_openElement,
        Children.createdBy_operation?, List.append_nil, List.singleton_append, List.length_cons,
        Scope.declareHelpers_generation]
      obtain ⟨hlength, hnext⟩ := lowerAll_lengths options
        (Scope.openElement_distance options tag attributes hdistance) children
      exact ⟨congrArg (· + 1) hlength, hnext⟩

theorem lowerAll_lengths (options : LoweringOptions) {s t : Scope}
    (hdistance : t.generation = s.generation + distance) (nodes : List Node) :
    (createdBy (lowerAll options s nodes).1).length
        = (createdBy (lowerAll options t nodes).1).length ∧
      (lowerAll options t nodes).2.2.generation
        = (lowerAll options s nodes).2.2.generation + distance := by
  match nodes with
  | [] =>
      rw [lowerAll, lowerAll]
      exact ⟨rfl, hdistance⟩
  | node :: nodes =>
      simp only [lowerAll_cons, createdBy_append, List.length_append]
      obtain ⟨hfirst, hnext⟩ := lower_lengths options hdistance node
      obtain ⟨hothers, hlast⟩ := lowerAll_lengths options hnext nodes
      rw [hfirst, hothers]
      exact ⟨rfl, hlast⟩

end

end Node

variable {f : Binding → Binding}

/-- The operation that creates an element depends on its name and on that of the namespace. -/
theorem Scope.rename_createElement (number : UInt32 → UInt32) (s t : Scope) (b : Binding)
    (tag : Text) (hspaces : ∀ space ∈ (s.createElement b tag).1.space?,
      ∀ space' ∈ (t.createElement (f b) tag).1.space?, f space = space') :
    (s.createElement b tag).1.rename f number = (t.createElement (f b) tag).1 := by
  unfold createElement at hspaces ⊢
  split
  · next hsvg =>
      rw [if_pos hsvg, if_pos hsvg] at hspaces
      have hspace := hspaces _ rfl _ rfl
      simp only [Operation.rename, hspace]
  · rfl

/-- So does the opening of an element, except for the number of its lifecycle handlers. -/
theorem Scope.rename_openElement (options : LoweringOptions) {s t : Scope} (tag : Text)
    (attributes : Attributes) (hdistance : t.generation = s.generation + distance)
    (hname : f (s.openElement options tag attributes).binding
      = (t.openElement options tag attributes).binding)
    (hspaces : ∀ space ∈ spacesOf (s.openElement options tag attributes).operations,
      ∀ space' ∈ spacesOf (t.openElement options tag attributes).operations, f space = space') :
    (s.openElement options tag attributes).operations.map (Operation.rename f (· + distance))
      = (t.openElement options tag attributes).operations := by
  obtain ⟨space, hs⟩ := s.openElement_operations options tag attributes
  obtain ⟨space', ht⟩ := t.openElement_operations options tag attributes
  rw [hs, ht] at hspaces ⊢
  rw [← hname] at hspaces ⊢
  rw [List.map_cons, Attributes.rename_allActions, hdistance]
  congr 1
  apply Scope.rename_createElement
  intro first hfirst second hsecond
  apply hspaces
  · exact List.mem_filterMap.mpr ⟨_, List.mem_cons_self, hfirst⟩
  · exact List.mem_filterMap.mpr ⟨_, List.mem_cons_self, hsecond⟩

namespace Node

mutual

/-- **The names of the nodes are all that a run chooses.** A function that takes the nodes of one
run to those of another in turn, and namespaces to namespaces, takes its operations to those of the
other. -/
theorem lower_rename (options : LoweringOptions) {s t : Scope} (node : Node)
    (hdistance : t.generation = s.generation + distance)
    (hcreated : (createdBy (node.lower options s).1).map f = createdBy (node.lower options t).1)
    (hspaces : ∀ space ∈ spacesOf (node.lower options s).1,
      ∀ space' ∈ spacesOf (node.lower options t).1, f space = space') :
    (node.lower options s).1.map (Operation.rename f (· + distance))
        = (node.lower options t).1 ∧
      (node.lower options s).2.1.rename f = (node.lower options t).2.1 := by
  match node with
  | .text content =>
      rw [lower, lower]
      exact ⟨rfl, rfl⟩
  | .comment children =>
      rw [lower, lower] at hcreated ⊢
      have hname : f (s.fresh "comment".toList).1 = (t.fresh "comment".toList).1 :=
        (List.cons.inj hcreated).1
      simp only [List.map_cons, List.map_nil, Operation.rename, Contribution.rename, Value.rename,
        hname, and_self]
  | .element tag attributes children =>
      rw [lower_element, lower_element] at hcreated hspaces ⊢
      simp only [createdBy_append, Scope.createdBy_openElement, Children.createdBy_operation?,
        List.append_nil, List.singleton_append, List.map_cons] at hcreated
      simp only [spacesOf_append, List.mem_append] at hspaces
      obtain ⟨hname, hcreated⟩ := List.cons.inj hcreated
      have hopening := Scope.rename_openElement options tag attributes hdistance hname
        fun space hspace space' hspace' =>
          hspaces space (.inl (.inl hspace)) space' (.inl (.inl hspace'))
      obtain ⟨hbuilt, hgiven⟩ := lowerAll_rename options children
        (Scope.openElement_distance options tag attributes hdistance) hcreated
        fun space hspace space' hspace' =>
          hspaces space (.inl (.inr hspace)) space' (.inl (.inr hspace'))
      refine ⟨?_, ?_⟩
      · rw [List.map_append, List.map_append, hopening, hbuilt, ← Option.toList_map,
          Children.rename_operation?, Children.rename_normalize, hgiven, hname]
      · simp only [Contribution.rename, Value.rename, hname]

theorem lowerAll_rename (options : LoweringOptions) {s t : Scope} (nodes : List Node)
    (hdistance : t.generation = s.generation + distance)
    (hcreated : (createdBy (lowerAll options s nodes).1).map f
      = createdBy (lowerAll options t nodes).1)
    (hspaces : ∀ space ∈ spacesOf (lowerAll options s nodes).1,
      ∀ space' ∈ spacesOf (lowerAll options t nodes).1, f space = space') :
    (lowerAll options s nodes).1.map (Operation.rename f (· + distance))
        = (lowerAll options t nodes).1 ∧
      (lowerAll options s nodes).2.1.map (Contribution.rename f)
        = (lowerAll options t nodes).2.1 := by
  match nodes with
  | [] =>
      rw [lowerAll, lowerAll]
      exact ⟨rfl, rfl⟩
  | node :: nodes =>
      rw [lowerAll_cons, lowerAll_cons] at hcreated hspaces ⊢
      simp only [createdBy_append, List.map_append] at hcreated
      simp only [spacesOf_append, List.mem_append] at hspaces
      obtain ⟨hlength, hnext⟩ := lower_lengths options hdistance node
      obtain ⟨hfirst, hothers⟩ := List.append_inj hcreated (by rw [List.length_map, hlength])
      obtain ⟨hops, hgiven⟩ := lower_rename options node hdistance hfirst
        fun space hspace space' hspace' => hspaces space (.inl hspace) space' (.inl hspace')
      obtain ⟨hops', hgiven'⟩ := lowerAll_rename options nodes hnext hothers
        fun space hspace space' hspace' => hspaces space (.inr hspace) space' (.inr hspace')
      simp only [List.map_append, List.map_cons, hops, hgiven, hops', hgiven', and_self]

end

end Node

end

/-! ## Scopes that can come about -/

namespace Scope

/-- The scopes that can come about: from the empty one, by reserving names, by asking for a name, a
shared value or a number, and by lowering and rendering trees. -/
inductive Reachable : Scope → Prop where
  | empty : Reachable .empty
  | reserve (names : List Text) {scope : Scope} (h : Reachable scope) :
      Reachable (scope.reserve names)
  | fresh (hint : Text) {scope : Scope} (h : Reachable scope) : Reachable (scope.fresh hint).2
  | declare (key : Text) (init : SharedInit) {scope : Scope} (h : Reachable scope) :
      Reachable (scope.declare key init).2
  | nextGeneration {scope : Scope} (h : Reachable scope) : Reachable scope.nextGeneration.2
  | lower (options : LoweringOptions) (node : Node) {scope : Scope} (h : Reachable scope) :
      Reachable (node.lower options scope).2.2
  | render (expressions : List Text) (lowered : Lowered) {scope : Scope} (h : Reachable scope) :
      Reachable (Script.render expressions lowered scope).2

theorem Sound.reserve {scope : Scope} (h : scope.Sound) (names : List Text) :
    (scope.reserve names).Sound where
  distinct := by
    rw [reserve_shared]
    exact h.distinct
  taken := by
    rw [reserve_shared]
    exact fun value hvalue => mem_reserve.mpr (.inr (h.taken value hvalue))

/-- In every scope that can come about, shared values have different names, all of them taken. -/
theorem Reachable.sound {scope : Scope} (h : scope.Reachable) : scope.Sound := by
  induction h with
  | empty => exact ⟨List.nodup_nil, fun _ hvalue => absurd hvalue List.not_mem_nil⟩
  | reserve names _ ih => exact ih.reserve names
  | fresh hint _ ih => exact (allocates_fresh hint _).sound ih
  | declare key init _ ih => exact (allocates_declare key init _).sound ih
  | nextGeneration _ ih => exact ⟨ih.distinct, ih.taken⟩
  | lower options node _ ih => exact (Node.lower_allocates options _ node).sound ih
  | render expressions lowered _ ih =>
      exact (Script.render_allocates expressions lowered _).sound ih

theorem Allocates.binding_not_mem {scope later : Scope} {nodes : List Binding}
    (h : scope.Allocates nodes later) (hsound : scope.Sound) {value : Shared}
    (hvalue : value ∈ later.shared) : value.binding ∉ nodes := by
  rcases h.shared value hvalue with hold | ⟨-, -, hne⟩
  · exact fun hmem => h.fresh _ hmem (hsound.taken value hold)
  · exact hne

end Scope

theorem Template.lower_reachable (options : LoweringOptions) (template : Template) {scope : Scope}
    (h : scope.Reachable) : (template.lower options scope).2.Reachable := by
  unfold Template.lower
  split
  · exact h
  · split
    · exact h
    · exact h
    · next root _ => exact h.lower options root

/-! ## The renaming -/

/-- Different things can be renamed to different things, however many there are of them. -/
theorem exists_perm_map_eq {α : Type} {xs ys : List α} (hxs : xs.Nodup) (hys : ys.Nodup)
    (hlength : xs.length = ys.length) : ∃ f : Equiv.Perm α, xs.map f = ys := by
  obtain ⟨f, hf⟩ := Equiv.Perm.exists_extending_pair xs.get (fun i => ys.get (i.cast hlength))
    (List.nodup_iff_injective_get.mp hxs)
    ((List.nodup_iff_injective_get.mp hys).comp (Fin.cast_injective hlength))
  refine ⟨f, List.ext_get (by rw [List.length_map, hlength]) fun i hi hi' => ?_⟩
  rw [List.get_eq_getElem, List.getElem_map]
  exact hf ⟨i, by rwa [List.length_map] at hi⟩

namespace Node

theorem space_eq {options : LoweringOptions} {scope : Scope} {node : Node} {space : Binding}
    (h : space ∈ spacesOf (node.lower options scope).1) :
    ∃ value, (node.lower options scope).2.2.shared? "svgNamespace".toList = some value ∧
      value.binding = space := by
  obtain ⟨operation, hoperation, hspace⟩ := List.mem_filterMap.mp h
  exact Option.map_eq_some_iff.mp
    ((lower_shares options scope node).spaces operation hoperation space hspace)

/-- A run creates elements in one namespace only. -/
theorem space_unique {options : LoweringOptions} {scope : Scope} {node : Node}
    {space space' : Binding} (h : space ∈ spacesOf (node.lower options scope).1)
    (h' : space' ∈ spacesOf (node.lower options scope).1) : space = space' := by
  obtain ⟨value, hvalue, rfl⟩ := space_eq h
  obtain ⟨value', hvalue', rfl⟩ := space_eq h'
  rw [hvalue] at hvalue'
  cases hvalue'
  rfl

theorem distance_of_generations (s t : Scope) :
    t.generation = s.generation + (t.generation - s.generation) := by
  rw [UInt32.add_comm, UInt32.sub_add_cancel]

/-- A renaming that fits two runs exists. If the namespace is shared after both of them, it is one
more name to be renamed; if not, then one of the two creates no element in it. -/
theorem exists_renaming (options : LoweringOptions) (node : Node) {s t : Scope} (hs : s.Sound)
    (ht : t.Sound) :
    ∃ f : Equiv.Perm Binding,
      (createdBy (node.lower options s).1).map f = createdBy (node.lower options t).1 ∧
      ∀ space ∈ spacesOf (node.lower options s).1,
        ∀ space' ∈ spacesOf (node.lower options t).1, f space = space' := by
  have hs' := lower_allocates options s node
  have ht' := lower_allocates options t node
  have hlength := (lower_lengths options (distance_of_generations s t) node).1
  by_cases hnone : spacesOf (node.lower options s).1 = [] ∨ spacesOf (node.lower options t).1 = []
  · obtain ⟨f, hf⟩ := exists_perm_map_eq hs'.nodup ht'.nodup hlength
    refine ⟨f, hf, fun space hspace space' hspace' => ?_⟩
    rcases hnone with hnone | hnone
    · rw [hnone] at hspace
      exact absurd hspace List.not_mem_nil
    · rw [hnone] at hspace'
      exact absurd hspace' List.not_mem_nil
  · obtain ⟨hs₁, ht₁⟩ := not_or.mp hnone
    obtain ⟨first, hfirst⟩ := List.exists_mem_of_ne_nil _ hs₁
    obtain ⟨second, hsecond⟩ := List.exists_mem_of_ne_nil _ ht₁
    obtain ⟨value, hvalue, rfl⟩ := space_eq hfirst
    obtain ⟨value', hvalue', rfl⟩ := space_eq hsecond
    have hnew := hs'.binding_not_mem hs (Scope.shared?_spec hvalue).1
    have hnew' := ht'.binding_not_mem ht (Scope.shared?_spec hvalue').1
    obtain ⟨f, hf⟩ := exists_perm_map_eq (List.nodup_cons.mpr ⟨hnew, hs'.nodup⟩)
      (List.nodup_cons.mpr ⟨hnew', ht'.nodup⟩) (by rw [List.length_cons, List.length_cons, hlength])
    obtain ⟨hspace, hcreated⟩ := List.cons.inj hf
    refine ⟨f, hcreated, fun other hother other' hother' => ?_⟩
    rw [space_unique hother hfirst, space_unique hother' hsecond]
    exact hspace

/-- A tree lowered in two scopes in which shared values are sound. -/
theorem renamesTo_of_sound (options : LoweringOptions) (node : Node) {s t : Scope} (hs : s.Sound)
    (ht : t.Sound) :
    Lowered.RenamesTo s.generation t.generation
      ⟨(node.lower options s).1, (node.lower options s).2.1.binding?⟩
      ⟨(node.lower options t).1, (node.lower options t).2.1.binding?⟩ := by
  obtain ⟨f, hcreated, hspaces⟩ := exists_renaming options node hs ht
  obtain ⟨hoperations, hgiven⟩ := lower_rename options node (distance_of_generations s t) hcreated
    hspaces
  refine ⟨f, hoperations, ?_⟩
  rw [← hgiven, Contribution.binding?_rename]

end Node

theorem Lowered.renamesTo_empty (g g' : UInt32) : Lowered.empty.RenamesTo g g' Lowered.empty :=
  ⟨Equiv.refl _, rfl, rfl⟩

/-- What a template is lowered to, or why it is not, is the same in two scopes up to renaming. -/
theorem Template.lower_renamesTo (options : LoweringOptions) (template : Template) {s t : Scope}
    (hs : s.Sound) (ht : t.Sound) {lowered : Lowered}
    (h : (template.lower options s).1 = .ok lowered) :
    ∃ lowered', (template.lower options t).1 = .ok lowered' ∧
      lowered.RenamesTo s.generation t.generation lowered' := by
  unfold Template.lower at h ⊢
  split at h
  · next hblank =>
      cases h
      rw [if_pos hblank]
      exact ⟨_, rfl, Lowered.renamesTo_empty _ _⟩
  · next hblank =>
      rw [if_neg hblank]
      split at h
      · cases h
      · cases h
        exact ⟨_, rfl, Lowered.renamesTo_empty _ _⟩
      · next root _ =>
          cases h
          exact ⟨_, rfl, Node.renamesTo_of_sound options root hs ht⟩

/-! ## Runs that end

A search for a name that runs out of numbers does not end, and then nothing is lowered. -/

/-- What a tree is lowered to, unless a search for a name does not end. -/
def Node.lower? (options : LoweringOptions) (scope : Scope) (node : Node) : Option Lowered :=
  let built := node.lower options scope
  if built.2.2.exhausted then none else some ⟨built.1, built.2.1.binding?⟩

/-- What a template is lowered to and the scope after it, unless a search for a name does not
end. -/
def Template.lower? (options : LoweringOptions) (template : Template) (scope : Scope) :
    Option (Except LoweringError Lowered × Scope) :=
  let result := template.lower options scope
  if result.2.exhausted then none else some result

/-- All searches end if there are no more taken names than numbers. -/
theorem Scope.Allocates.ends {scope later : Scope} {nodes : List Binding}
    (h : scope.Allocates nodes later) (hscope : scope.exhausted = false)
    (hroom : later.taken.length ≤ maxNumber) : later.exhausted = false := by
  rw [Bool.eq_false_iff]
  intro hlater
  rcases h.exhausted hlater with hbefore | hmore
  · rw [hscope] at hbefore
    cases hbefore
  · omega

theorem Node.lower?_eq_some_iff {options : LoweringOptions} {scope : Scope} {node : Node}
    {lowered : Lowered} :
    node.lower? options scope = some lowered ↔
      (node.lower options scope).2.2.exhausted = false ∧
        ⟨(node.lower options scope).1, (node.lower options scope).2.1.binding?⟩ = lowered := by
  unfold Node.lower?
  cases hends : (node.lower options scope).2.2.exhausted <;> simp [hends]

theorem Template.lower?_eq_some_iff {options : LoweringOptions} {scope : Scope}
    {template : Template} {result : Except LoweringError Lowered × Scope} :
    template.lower? options scope = some result ↔
      (template.lower options scope).2.exhausted = false ∧
        template.lower options scope = result := by
  unfold Template.lower?
  cases hends : (template.lower options scope).2.exhausted <;> simp [hends]

/-- **Lowering does not depend on what happened before, up to renaming.** In any two scopes that can
come about, a tree is lowered to the same operations and the same root, up to a renaming of bindings
and with the numbers of lifecycle handlers shifted by the distance between the two scopes. So a
template that can be lowered once can be lowered again, then or later, and is lowered to the same.
Lowering ends in every scope, as long as no more names are taken than there are numbers for them. -/
theorem Node.lower_renames (options : LoweringOptions) (node : Node) {first second : Scope}
    (hfirst : first.Reachable) (hsecond : second.Reachable) :
    (∀ lowered lowered', node.lower? options first = some lowered →
      node.lower? options second = some lowered' →
        lowered.RenamesTo first.generation second.generation lowered') ∧
      (first.exhausted = false → (node.lower options first).2.2.taken.length ≤ maxNumber →
        (node.lower? options first).isSome) ∧
      ∀ (template : Template) (lowered : Lowered) (later : Scope),
        template.lower? options first = some (.ok lowered, later) →
          later.Reachable ∧ ∀ again : Scope, again.Reachable →
            (∀ result, template.lower? options again = some result →
              ∃ lowered', result.1 = .ok lowered' ∧
                lowered.RenamesTo first.generation again.generation lowered') ∧
            (again.exhausted = false →
              (template.lower options again).2.taken.length ≤ maxNumber →
                (template.lower? options again).isSome) := by
  refine ⟨?_, ?_, ?_⟩
  · intro lowered lowered' h h'
    obtain ⟨-, rfl⟩ := lower?_eq_some_iff.mp h
    obtain ⟨-, rfl⟩ := lower?_eq_some_iff.mp h'
    exact renamesTo_of_sound options node hfirst.sound hsecond.sound
  · intro hscope hroom
    have hends := (lower_allocates options first node).ends hscope hroom
    exact Option.isSome_iff_exists.mpr ⟨_, lower?_eq_some_iff.mpr ⟨hends, rfl⟩⟩
  · intro template lowered later h
    obtain ⟨-, h⟩ := Template.lower?_eq_some_iff.mp h
    constructor
    · have hlater := template.lower_reachable options hfirst
      rwa [h] at hlater
    · intro again hagain
      constructor
      · intro result hresult
        obtain ⟨-, rfl⟩ := Template.lower?_eq_some_iff.mp hresult
        exact template.lower_renamesTo options hfirst.sound hagain.sound (congrArg Prod.fst h)
      · intro hscope hroom
        have hends := (template.lower_spec options again).1.ends hscope hroom
        exact Option.isSome_iff_exists.mpr ⟨_, Template.lower?_eq_some_iff.mpr ⟨hends, rfl⟩⟩

/-- The next number can be any, if so many were used before. -/
theorem Scope.reachable_at (n : Nat) :
    Scope.Reachable { Scope.empty with generation := 1 + .ofNat n } := by
  induction n with
  | zero => exact .empty
  | succ n ih =>
      have hnext := ih.nextGeneration
      rw [UInt32.ofNat_add, ← UInt32.add_assoc]
      exact hnext

/-- Elements with lifecycle handlers, one of them of SVG, first in a new scope, then in one in which
the namespace is shared already, its name and that of an element are taken, and the next number is
the greatest one. After it the numbers start again. -/
theorem Node.lower_renames_svg :
    let node := Node.element "p".toList [("onload".toList, Placeholder.encode 0)]
      [.element "svg".toList [("onload".toList, Placeholder.encode 0)] [], .text "a".toList]
    let start : Scope := { Scope.empty with generation := 4294967295 }
    let second := ((start.reserve ["_p".toList, "_svgNamespace".toList]).svgNamespace).2
    ∃ lowered lowered', node.lower? ⟨true, true⟩ Scope.empty = some lowered ∧
      node.lower? ⟨true, true⟩ second = some lowered' ∧
      lowered.operations.map Operation.generation? = [none, some 1, none, some 2, none] ∧
      lowered'.operations.map Operation.generation? = [none, some 4294967295, none, some 0, none] ∧
      createdBy lowered.operations = [⟨"_p".toList⟩, ⟨"_svg".toList⟩] ∧
      createdBy lowered'.operations = [⟨"_p2".toList⟩, ⟨"_svg".toList⟩] ∧
      spacesOf lowered'.operations = [⟨"_svgNamespace2".toList⟩] ∧
      lowered.RenamesTo 1 4294967295 lowered' := by
  intro node start second
  have hstart : start.Reachable := Scope.reachable_at 4294967294
  have hsecond : second.Reachable := (hstart.reserve _).declare _ _
  have hends : (node.lower ⟨true, true⟩ Scope.empty).2.2.exhausted = false := by decide +kernel
  have hends' : (node.lower ⟨true, true⟩ second).2.2.exhausted = false := by decide +kernel
  have hlowered := lower?_eq_some_iff.mpr ⟨hends, rfl⟩
  have hlowered' := lower?_eq_some_iff.mpr ⟨hends', rfl⟩
  exact ⟨_, _, hlowered, hlowered', by decide +kernel, by decide +kernel, by decide +kernel,
    by decide +kernel, by decide +kernel,
    (lower_renames ⟨true, true⟩ node .empty hsecond).1 _ _ hlowered hlowered'⟩

end Hypertext
