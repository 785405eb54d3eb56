import Hypertext.Proofs.Expressions
import Hypertext.Proofs.Generations

set_option autoImplicit false

/-! # When lifecycle handlers are installed

An element can be given the handlers `onload` and `onunload`, in any spelling of their names and
more than once. The last attribute of a name decides (`Attributes.handlerOr_eq`). One operation
installs both handlers, and a handler that is not given, or has no single value, is passed as none.

An attribute with an empty value does not count as given at all (`Slot.ofRaw_eq_absent_iff`). So
there is an operation exactly if the last value of one of the two names is not empty, and an empty
value can even take away a handler that was given before it (`Node.lower_lifecycle_iff`).
-/

namespace Hypertext

/-! ## Handlers in attributes -/

/-- The value of a raw text that has exactly one fragment, empty literals not counted. -/
def Value.single? (raw : Text) : Option Value :=
  match Placeholder.nonEmpty (Placeholder.split raw) with
  | [only] => some (ofFragment only)
  | _ => none

namespace Slot

theorem ofRaw_eq_absent_iff (raw : Text) : ofRaw raw = .absent ↔ raw = [] := by
  unfold ofRaw
  split
  · next hempty => exact iff_of_true rfl (List.isEmpty_iff.mp hempty)
  · next hempty =>
      refine iff_of_false ?_ fun hnil => hempty (List.isEmpty_iff.mpr hnil)
      split
      all_goals
        intro h
        cases h

theorem value?_ofRaw (raw : Text) : (ofRaw raw).value? = Value.single? raw := by
  unfold ofRaw
  split
  · next hempty =>
      rw [List.isEmpty_iff.mp hempty, Value.single?, Placeholder.split_plain List.not_mem_nil]
      rfl
  · unfold Value.single?
    cases Placeholder.nonEmpty (Placeholder.split raw) with
    | nil => rfl
    | cons first rest => cases rest <;> rfl

end Slot

namespace Attributes

/-- The values that attributes give to a name, in order: those whose name holds no placeholder and
is a spelling of it. -/
def given (name : Text) (attributes : Attributes) : List Text :=
  (attributes.filter fun pair => Placeholder.indices pair.1 = [] ∧ attributeName pair.1 = name).map
    Prod.snd

/-- Whether a value is given and is not empty. -/
def filled (raw : Option Text) : Bool := raw.any fun text => !text.isEmpty

theorem given_eq {name : Text} (hname : '\x00' ∉ name) (attributes : Attributes) :
    attributes.given name = (attributes.filter (isHandler name)).map Prod.snd := by
  refine congrArg (List.map Prod.snd) (List.filter_congr fun pair _ => ?_)
  rw [Bool.eq_iff_iff, isHandler_iff hname, decide_eq_true_iff, and_iff_right_iff_imp]
  intro hspelled
  exact Placeholder.indices_plain (not_mem_of_attributeName hname hspelled)

/-- The last value that is given decides. -/
theorem handlerOr_eq {name : Text} (hname : '\x00' ∉ name) (attributes : Attributes) :
    attributes.handlerOr .absent name
      = ((attributes.given name).getLast?.map Slot.ofRaw).getD .absent := by
  rw [handlerOr, given_eq hname, List.getLast?_map, Option.map_map]
  rfl

theorem handlerOr_ne_absent_iff {name : Text} (hname : '\x00' ∉ name) (attributes : Attributes) :
    attributes.handlerOr .absent name ≠ .absent ↔
      filled (attributes.given name).getLast? = true := by
  rw [handlerOr_eq hname]
  cases (attributes.given name).getLast? with
  | none => exact iff_of_false (fun h => h rfl) Bool.false_ne_true
  | some raw => simp [filled, Slot.ofRaw_eq_absent_iff]

theorem value?_handlerOr {name : Text} (hname : '\x00' ∉ name) (attributes : Attributes) :
    (attributes.handlerOr .absent name).value?
      = (attributes.given name).getLast?.bind Value.single? := by
  rw [handlerOr_eq hname]
  cases (attributes.given name).getLast? with
  | none => rfl
  | some raw => exact Slot.value?_ofRaw raw

/-- The lifecycle of an element in terms of what its attributes give. -/
theorem lifecycle?_eq (collapse : Bool) (generation : UInt32) (attributes : Attributes) :
    let onload := (attributes.given "onload".toList).getLast?
    let onunload := (attributes.given "onunload".toList).getLast?
    attributes.lifecycle? ⟨true, collapse⟩ generation
      = if filled onload || filled onunload then
          some (.lifecycle (onload.bind Value.single?) (onunload.bind Value.single?) generation)
        else none := by
  have hload : '\x00' ∉ "onload".toList := by decide
  have hunload : '\x00' ∉ "onunload".toList := by decide
  simp only [lifecycle?, handlerOr_ne_absent_iff hload, handlerOr_ne_absent_iff hunload,
    value?_handlerOr hload, value?_handlerOr hunload, Bool.or_eq_true, true_and]

end Attributes

/-! ## Handlers of an element -/

/-- The operations that install lifecycle handlers of a node. -/
def installedOn (b : Binding) (operations : List Operation) : List Operation :=
  operations.filter fun operation => operation.generation?.isSome && operation.binding = b

theorem installedOn_append (b : Binding) (first second : List Operation) :
    installedOn b (first ++ second) = installedOn b first ++ installedOn b second :=
  List.filter_append _ _

theorem installedOn_eq_nil {b : Binding} {operations : List Operation}
    (h : ∀ operation ∈ operations, operation.binding = b → operation.generation? = none) :
    installedOn b operations = [] := by
  refine List.filter_eq_nil_iff.mpr fun operation hmem htrue => ?_
  obtain ⟨hsome, hb⟩ := Bool.and_eq_true_iff.mp htrue
  rw [h operation hmem (of_decide_eq_true hb)] at hsome
  cases hsome

section

variable (options : LoweringOptions) (scope : Scope) (tag : Text) (attributes : Attributes)

/-- What opens an element installs its handlers. -/
theorem Scope.installedOn_openElement :
    installedOn (scope.openElement options tag attributes).binding
        (scope.openElement options tag attributes).operations
      = ((attributes.lifecycle? options scope.generation).map
          (Action.operation (scope.openElement options tag attributes).binding)).toList := by
  obtain ⟨space, hoperations⟩ := scope.openElement_operations options tag attributes
  generalize (scope.openElement options tag attributes).binding = b at hoperations ⊢
  have hbefore : installedOn b ((space.createElement b tag).1
      :: (attributes.actions options.lifecycle).map (Action.operation b)) = [] := by
    refine installedOn_eq_nil fun operation hmem _ => ?_
    rcases List.mem_cons.mp hmem with rfl | hmem
    · unfold Scope.createElement
      split <;> rfl
    · obtain ⟨action, haction, rfl⟩ := List.mem_map.mp hmem
      exact Attributes.generation?_actions haction b
  rw [hoperations, Attributes.allActions, List.map_append, ← List.cons_append, installedOn_append,
    hbefore, List.nil_append, ← Option.toList_map]
  unfold Attributes.lifecycle?
  dsimp only
  split
  · simp [installedOn, Action.operation, Operation.generation?, Operation.binding]
  · rfl

/-- Nothing else installs handlers on the element: not what is done to the nodes below it, and not
appending them. -/
theorem Node.installedOn_element (children : List Node) :
    ∃ b, ((Node.element tag attributes children).lower options scope).2.1 = .value (.ref b) ∧
      installedOn b ((Node.element tag attributes children).lower options scope).1
        = ((attributes.lifecycle? options scope.generation).map (Action.operation b)).toList := by
  have hallocates := (scope.allocates_openElement options tag attributes).trans
    (lowerAll_allocates options (scope.openElement options tag attributes).scope children)
  have hopening := scope.installedOn_openElement options tag attributes
  rw [lower_element]
  dsimp only
  generalize scope.openElement options tag attributes = opening at hallocates hopening ⊢
  have hbelow : installedOn opening.binding (lowerAll options opening.scope children).1 = [] := by
    -- nodes below the element have other names
    refine installedOn_eq_nil fun operation hmem hb => ?_
    have hcreated := (lowerAll_createdFirst options opening.scope children).mem hmem
    rw [hb] at hcreated
    exact absurd hcreated (List.nodup_cons.mp hallocates.nodup).1
  have happended (values : List Value) :
      installedOn opening.binding (Children.operation? opening.binding values).toList = [] :=
    installedOn_eq_nil fun _ hmem _ =>
      Operation.generation?_of_isAppend (Children.operation?_appends hmem).2.1
  refine ⟨opening.binding, rfl, ?_⟩
  rw [installedOn_append, installedOn_append, hbelow, happended, List.append_nil, List.append_nil,
    hopening]

end

namespace Node

/-- **When lifecycle handlers are installed.** Lower an element where lifecycle handlers are on. One
operation installs them if the last attribute named `onload` or the last one named `onunload` has a
value that is not empty, and none otherwise. It is given the value of the last attribute of each
name, if that is a single one. So the elements with such an attribute are those with exactly one
operation, unless all that the attribute gives in the end is an empty value. -/
theorem lower_lifecycle_iff (collapse : Bool) (scope : Scope) (tag : Text) (attributes : Attributes)
    (children : List Node) :
    let built := (Node.element tag attributes children).lower ⟨true, collapse⟩ scope
    let onload := (attributes.given "onload".toList).getLast?
    let onunload := (attributes.given "onunload".toList).getLast?
    ∃ b, built.2.1 = .value (.ref b) ∧
      let operation := Operation.setLifecycleHandler b (onload.bind Value.single?)
        (onunload.bind Value.single?) scope.generation
      installedOn b built.1
        = (if Attributes.filled onload || Attributes.filled onunload then [operation] else []) ∧
      (installedOn b built.1 = (if onload.isSome || onunload.isSome then [operation] else []) ↔
        ((onload.isSome || onunload.isSome) = true →
          (Attributes.filled onload || Attributes.filled onunload) = true)) := by
  intro built onload onunload
  have hfilled (raw : Option Text) (h : Attributes.filled raw = true) : raw.isSome = true := by
    cases raw with
    | none => cases h
    | some _ => rfl
  obtain ⟨b, hroot, hinstalled⟩ :=
    installedOn_element ⟨true, collapse⟩ scope tag attributes children
  rw [Attributes.lifecycle?_eq] at hinstalled
  refine ⟨b, hroot, ?_⟩
  intro operation
  have hexact : installedOn b built.1
      = if Attributes.filled onload || Attributes.filled onunload then [operation] else [] := by
    refine hinstalled.trans ?_
    split <;> rfl
  refine ⟨hexact, ?_⟩
  rw [hexact]
  by_cases hvalue : (Attributes.filled onload || Attributes.filled onunload) = true
  · have hgiven : (onload.isSome || onunload.isSome) = true := by
      rw [Bool.or_eq_true] at hvalue ⊢
      exact hvalue.imp (hfilled onload) (hfilled onunload)
    rw [if_pos hvalue, if_pos hgiven]
    exact iff_of_true rfl fun _ => hvalue
  · rw [if_neg hvalue]
    by_cases hgiven : (onload.isSome || onunload.isSome) = true
    · rw [if_pos hgiven]
      exact iff_of_false (List.cons_ne_nil _ _).symm fun h => hvalue (h hgiven)
    · rw [if_neg hgiven]
      exact iff_of_true rfl fun h => absurd h hgiven

/-- An empty value installs nothing, and it takes away the handler that another spelling of the name
gives. A value of blanks counts. -/
theorem lower_lifecycle_empty :
    let installed (attributes : Attributes) := installedOn ⟨"_p".toList⟩
      ((Node.element "p".toList attributes []).lower ⟨true, true⟩ Scope.empty).1
    installed [("onload".toList, [])] = [] ∧
      installed [("onload".toList, Placeholder.encode 0), ("onLoad".toList, [])] = [] ∧
      installed [("onload".toList, Placeholder.encode 0), ("onLoad".toList, [' '])]
        = [.setLifecycleHandler ⟨"_p".toList⟩ (some (.str [' '])) none 1] ∧
      Attributes.given "onload".toList [("onload".toList, [])] = [[]] := by
  decide +kernel

end Node
end Hypertext
