import Hypertext.Proofs.Bindings
import Hypertext.Proofs.Renaming
import Hypertext.Proofs.ReservedNames

set_option autoImplicit false

/-! # The numbers of lifecycle handlers

The templates of one script draw the numbers of their lifecycle handlers from one counter. This file
proves that the numbers come out in the order in which the operations are emitted, none of them left
out or used twice (`Scope.Numbers`), and where the operation that installs the handlers of an
element stands among the others (`InOrder`): behind all that is done to the attributes of the
element, and before anything is done to the nodes below it.

Both are statements about a list of operations and are closed under putting lists together, which is
how trees, and then whole runs of templates, are lowered.
-/

namespace Hypertext

/-! ## Numbers in turn -/

/-- The numbers of the lifecycle handlers that operations install, in order. -/
def numbersOf (operations : List Operation) : List UInt32 :=
  operations.filterMap Operation.generation?

@[simp] theorem numbersOf_append (first second : List Operation) :
    numbersOf (first ++ second) = numbersOf first ++ numbersOf second :=
  List.filterMap_append

/-- So many numbers in a row. After the greatest one they start again at 0. -/
def countFrom (start : UInt32) (count : Nat) : List UInt32 :=
  (List.range count).map fun i => start + .ofNat i

theorem countFrom_add (start : UInt32) (m n : Nat) :
    countFrom start (m + n) = countFrom start m ++ countFrom (start + .ofNat m) n := by
  simp only [countFrom, List.range_add, List.map_append, List.map_map, Function.comp_def,
    UInt32.ofNat_add, UInt32.add_assoc]

/-- Numbers from 1 on are what they count, as long as they can be written. -/
theorem toNat_countFrom_one {count : Nat} (h : count < UInt32.size) :
    (countFrom 1 count).map UInt32.toNat = List.range' 1 count := by
  rw [countFrom, List.map_map, List.range'_eq_map_range]
  refine List.map_congr_left fun i hi => ?_
  have hlt := List.mem_range.mp hi
  show (1 + UInt32.ofNat i).toNat = 1 + i
  rw [UInt32.toNat_add, UInt32.toNat_ofNat_of_lt' (by omega)]
  exact Nat.mod_eq_of_lt (by simp only [UInt32.size] at h; simp only [UInt32.reduceToNat]; omega)

namespace Scope

/-- The lifecycle handlers in the operations are numbered in turn, from the next number of the first
scope up to the next one of the second. -/
structure Numbers (scope : Scope) (operations : List Operation) (later : Scope) : Prop where
  numbers : numbersOf operations = countFrom scope.generation (numbersOf operations).length
  next : later.generation = scope.generation + .ofNat (numbersOf operations).length

namespace Numbers

theorem of_none {scope later : Scope} {operations : List Operation}
    (hnone : numbersOf operations = []) (hnext : later.generation = scope.generation) :
    scope.Numbers operations later := by
  refine ⟨?_, ?_⟩
  · rw [hnone]
    rfl
  · rw [hnone, hnext]
    exact (UInt32.add_zero _).symm

theorem trans {s t u : Scope} {first second : List Operation} (h₁ : s.Numbers first t)
    (h₂ : t.Numbers second u) : s.Numbers (first ++ second) u where
  numbers := by
    rw [numbersOf_append, List.length_append]
    calc
      numbersOf first ++ numbersOf second
        = countFrom s.generation (numbersOf first).length
            ++ countFrom t.generation (numbersOf second).length := by
            rw [← h₁.numbers, ← h₂.numbers]
      _ = countFrom s.generation ((numbersOf first).length + (numbersOf second).length) := by
            rw [h₁.next, countFrom_add]
  next := by
    rw [numbersOf_append, List.length_append, h₂.next, h₁.next, UInt32.ofNat_add,
      UInt32.add_assoc]

end Numbers

end Scope

/-- What an attribute does by itself installs no lifecycle handler. -/
theorem Attributes.generation?_actions {attributes : Attributes} {lifecycle : Bool}
    {action : Action} (haction : action ∈ attributes.actions lifecycle) (b : Binding) :
    (action.operation b).generation? = none := by
  obtain ⟨pair, -, h⟩ := List.mem_filterMap.mp haction
  unfold Attribute.action? at h
  repeat' split at h
  all_goals cases h <;> rfl

/-- The opening of an element draws at most one number. -/
theorem Scope.openElement_numbers (options : LoweringOptions) (tag : Text) (attributes : Attributes)
    (scope : Scope) :
    scope.Numbers (scope.openElement options tag attributes).operations
      (scope.openElement options tag attributes).scope := by
  obtain ⟨space, hoperations⟩ := scope.openElement_operations options tag attributes
  generalize (scope.openElement options tag attributes).binding = b at hoperations
  have hcreate : numbersOf [(space.createElement b tag).1] = [] := by
    unfold Scope.createElement
    split <;> rfl
  have hactions :
      numbersOf ((attributes.actions options.lifecycle).map (Action.operation b)) = [] := by
    rw [numbersOf, List.filterMap_eq_nil_iff]
    intro operation hoperation
    obtain ⟨action, haction, rfl⟩ := List.mem_map.mp hoperation
    exact Attributes.generation?_actions haction b
  have hlifecycle : numbersOf
      ((attributes.lifecycle? options scope.generation).map (Action.operation b)).toList
        = List.replicate (attributes.lifecycle? options scope.generation).toList.length
            scope.generation := by
    unfold Attributes.lifecycle?
    dsimp only
    split <;> rfl
  have hnumbers : numbersOf (scope.openElement options tag attributes).operations
      = List.replicate (attributes.lifecycle? options scope.generation).toList.length
          scope.generation := by
    rw [hoperations, ← List.singleton_append, numbersOf_append, hcreate, Attributes.allActions,
      List.map_append, numbersOf_append, hactions, ← Option.toList_map, hlifecycle]
    rfl
  refine ⟨?_, ?_⟩
  · rw [hnumbers, List.length_replicate]
    cases attributes.lifecycle? options scope.generation with
    | none => rfl
    | some action => exact congrArg (fun n => [n]) (UInt32.add_zero scope.generation).symm
  · rw [hnumbers, List.length_replicate]
    exact scope.openElement_generation options tag attributes

theorem Children.numbersOf_operation? (b : Binding) (values : List Value) :
    numbersOf (operation? b values).toList = [] := by
  unfold operation?
  split <;> rfl

namespace Node

mutual

/-- **The numbers of a tree.** -/
theorem lower_numbers (options : LoweringOptions) (scope : Scope) (node : Node) :
    scope.Numbers (node.lower options scope).1 (node.lower options scope).2.2 := by
  match node with
  | .text content =>
      rw [lower]
      exact .of_none rfl rfl
  | .comment children =>
      rw [lower]
      exact .of_none rfl rfl
  | .element tag attributes children =>
      rw [lower_element]
      have hopening := scope.openElement_numbers options tag attributes
      have hchildren := lowerAll_numbers options
        (scope.openElement options tag attributes).scope children
      refine (hopening.trans hchildren).trans (.of_none ?_ ?_)
      · exact Children.numbersOf_operation? _ _
      · exact Scope.declareHelpers_generation _ _ _

theorem lowerAll_numbers (options : LoweringOptions) (scope : Scope) (nodes : List Node) :
    scope.Numbers (lowerAll options scope nodes).1 (lowerAll options scope nodes).2.2 := by
  match nodes with
  | [] =>
      rw [lowerAll]
      exact .of_none rfl rfl
  | node :: nodes =>
      rw [lowerAll_cons]
      exact (lower_numbers options scope node).trans
        (lowerAll_numbers options (node.lower options scope).2.2 nodes)

end

end Node

/-! ## The order of operations -/

namespace Operation

/-- Whether an operation sets an attribute or a property of its node. -/
def isAttribute : Operation → Bool
  | .setProperty .. => true
  | .setAttribute .. => true
  | .setBooleanAttribute .. => true
  | .setDynamicAttribute .. => true
  | _ => false

/-- Whether an operation gives its node the children. -/
def isAppend : Operation → Bool
  | .appendTextNode .. => true
  | .appendChildren .. => true
  | _ => false

end Operation

theorem Operation.references_eq_nil {operation : Operation} (h : operation.isAppend = false) :
    operation.references = [] := by
  cases operation <;> first | rfl | cases h

/-- Among the operations is one that appends the first node to the second. -/
def AppendedTo (operations : List Operation) (child parent : Binding) : Prop :=
  ∃ operation ∈ operations, operation.binding = parent ∧ child ∈ operation.references

/-- Every operation acts on a node that it or an earlier one creates. -/
def CreatedFirst (operations : List Operation) : Prop :=
  ∀ before operation after, operations = before ++ operation :: after →
    operation.binding ∈ createdBy (before ++ [operation])

/-- The order of the operations on a node: what opens it, then all that concerns the nodes appended
to it, last the one operation that appends them. The lifecycle handlers end the opening. -/
structure InOrder (operations : List Operation) : Prop where
  children : ∀ before operation after, operations = before ++ operation :: after →
    operation.isAppend = false →
      ∀ child, AppendedTo operations child operation.binding → child ∈ createdBy after
  lifecycle : ∀ before operation after, operations = before ++ operation :: after →
    operation.generation?.isSome = true →
      ∀ other ∈ after, other.binding = operation.binding → other.isAppend = true
  appending : ∀ before operation after, operations = before ++ operation :: after →
    operation.isAppend = true → ∀ other ∈ after, other.binding ≠ operation.binding

namespace CreatedFirst

theorem nil : CreatedFirst [] := by
  intro before operation after heq
  cases before <;> cases heq

theorem append {first second : List Operation} (h₁ : CreatedFirst first)
    (h₂ : CreatedFirst second) : CreatedFirst (first ++ second) := by
  intro before operation after heq
  rcases append_eq_append_cons heq with ⟨start, hfirst, -⟩ | ⟨start, hsecond, rfl⟩
  · exact h₁ before operation start hfirst
  · rw [List.append_assoc, createdBy_append]
    exact List.mem_append_right _ (h₂ start operation after hsecond)

theorem mem {operations : List Operation} (h : CreatedFirst operations) {operation : Operation}
    (hmem : operation ∈ operations) : operation.binding ∈ createdBy operations := by
  obtain ⟨before, after, heq⟩ := List.append_of_mem hmem
  rw [heq, ← List.singleton_append, ← List.append_assoc, createdBy_append]
  exact List.mem_append_left _ (h before operation after heq)

/-- What is created later is not acted on before. -/
theorem not_before {operations before after : List Operation} (h : CreatedFirst operations)
    (hnodup : (createdBy operations).Nodup) (heq : operations = before ++ after) {b : Binding}
    (hb : b ∈ createdBy after) : ∀ operation ∈ before, operation.binding ≠ b := by
  rintro operation hoperation rfl
  obtain ⟨first, second, rfl⟩ := List.append_of_mem hoperation
  have hcreated := h first operation (second ++ after) (by simp [heq])
  have hearly : operation.binding ∈ createdBy (first ++ operation :: second) := by
    rw [← List.singleton_append, ← List.append_assoc, createdBy_append]
    exact List.mem_append_left _ hcreated
  rw [heq, createdBy_append] at hnodup
  exact List.disjoint_of_nodup_append hnodup hearly hb

end CreatedFirst

/-- Only operations on a node append to it. -/
theorem AppendedTo.left {first second : List Operation} {child parent : Binding}
    (h : AppendedTo (first ++ second) child parent)
    (hsecond : ∀ operation ∈ second, operation.binding ≠ parent) :
    AppendedTo first child parent := by
  obtain ⟨operation, hoperation, hparent, hchild⟩ := h
  rcases List.mem_append.mp hoperation with hoperation | hoperation
  · exact ⟨operation, hoperation, hparent, hchild⟩
  · exact absurd hparent (hsecond operation hoperation)

theorem AppendedTo.right {first second : List Operation} {child parent : Binding}
    (h : AppendedTo (first ++ second) child parent)
    (hfirst : ∀ operation ∈ first, operation.binding ≠ parent) :
    AppendedTo second child parent := by
  obtain ⟨operation, hoperation, hparent, hchild⟩ := h
  rcases List.mem_append.mp hoperation with hoperation | hoperation
  · exact absurd hparent (hfirst operation hoperation)
  · exact ⟨operation, hoperation, hparent, hchild⟩

namespace InOrder

theorem nil : InOrder [] := by
  constructor
  all_goals
    intro before operation after heq
    cases before <;> cases heq

theorem create {operation : Operation} (h : operation.isCreate = true) : InOrder [operation] := by
  have happend : operation.isAppend = false := by
    cases operation <;> first | rfl | cases h
  have hnone : operation.generation? = none := by
    cases operation <;> first | rfl | cases h
  constructor
  · rintro _ _ _ - - child ⟨other, hother, -, hchild⟩
    rw [List.mem_singleton.mp hother, Operation.references_eq_nil happend] at hchild
    cases hchild
  all_goals
    intro before other after heq hother
    have hmem : other ∈ before ++ other :: after := List.mem_append_right _ List.mem_cons_self
    rw [← heq, List.mem_singleton] at hmem
    simp [hmem, happend, hnone] at hother

/-- Operations on different nodes can follow each other. -/
theorem append {first second : List Operation} (h₁ : InOrder first) (h₂ : InOrder second)
    (hapart : ∀ operation ∈ first, ∀ other ∈ second, operation.binding ≠ other.binding) :
    InOrder (first ++ second) := by
  constructor
  · intro before operation after heq happend child hchild
    rcases append_eq_append_cons heq with ⟨start, hfirst, rfl⟩ | ⟨start, hsecond, rfl⟩
    · have hmem : operation ∈ first := hfirst ▸ List.mem_append_right _ List.mem_cons_self
      have hchild := hchild.left fun other hother => (hapart operation hmem other hother).symm
      rw [createdBy_append]
      exact List.mem_append_left _ (h₁.children before operation start hfirst happend child hchild)
    · have hmem : operation ∈ second := hsecond ▸ List.mem_append_right _ List.mem_cons_self
      have hchild := hchild.right fun other hother => hapart other hother operation hmem
      exact h₂.children start operation after hsecond happend child hchild
  · intro before operation after heq hlifecycle other hother hbinding
    rcases append_eq_append_cons heq with ⟨start, hfirst, rfl⟩ | ⟨start, hsecond, rfl⟩
    · rcases List.mem_append.mp hother with hother | hother
      · exact h₁.lifecycle before operation start hfirst hlifecycle other hother hbinding
      · have hmem : operation ∈ first := hfirst ▸ List.mem_append_right _ List.mem_cons_self
        exact absurd hbinding.symm (hapart operation hmem other hother)
    · exact h₂.lifecycle start operation after hsecond hlifecycle other hother hbinding
  · intro before operation after heq happend other hother
    rcases append_eq_append_cons heq with ⟨start, hfirst, rfl⟩ | ⟨start, hsecond, rfl⟩
    · rcases List.mem_append.mp hother with hother | hother
      · exact h₁.appending before operation start hfirst happend other hother
      · have hmem : operation ∈ first := hfirst ▸ List.mem_append_right _ List.mem_cons_self
        exact (hapart operation hmem other hother).symm
    · exact h₂.appending start operation after hsecond happend other hother

/-- An element is opened, then its children are built, and last they are appended to it. -/
theorem element {b : Binding} {opening built appending : List Operation}
    (hopening : InOrder opening) (hbuilt : InOrder built)
    (hopens : ∀ operation ∈ opening, operation.binding = b ∧ operation.isAppend = false)
    (hbelow : ∀ operation ∈ built, operation.binding ≠ b)
    (happends : ∀ operation ∈ appending, operation.binding = b ∧ operation.isAppend = true ∧
      ∀ child ∈ operation.references, child ∈ createdBy built)
    (hlength : appending.length ≤ 1) :
    InOrder (opening ++ built ++ appending) := by
  have hhead : InOrder (opening ++ built) := by
    refine hopening.append hbuilt fun operation hoperation other hother => ?_
    rw [(hopens operation hoperation).1]
    exact (hbelow other hother).symm
  constructor
  · intro before operation after heq happend child hchild
    rcases append_eq_append_cons heq with ⟨start, hstart, rfl⟩ | ⟨start, hstart, rfl⟩
    · rw [createdBy_append]
      refine List.mem_append_left _ ?_
      rcases append_eq_append_cons hstart with ⟨middle, hmiddle, rfl⟩ | ⟨middle, hmiddle, rfl⟩
      · -- nothing is appended to the element but what was built
        have hmem : operation ∈ opening := hmiddle ▸ List.mem_append_right _ List.mem_cons_self
        rw [(hopens operation hmem).1] at hchild
        obtain ⟨other, hother, hbinding, hreference⟩ := hchild
        rw [createdBy_append]
        refine List.mem_append_right _ ?_
        rcases List.mem_append.mp hother with hother | hother
        · rcases List.mem_append.mp hother with hother | hother
          · rw [Operation.references_eq_nil (hopens other hother).2] at hreference
            cases hreference
          · exact absurd hbinding (hbelow other hother)
        · exact (happends other hother).2.2 child hreference
      · have hmem : operation ∈ built := hmiddle ▸ List.mem_append_right _ List.mem_cons_self
        have hchild := hchild.left fun other hother hbinding =>
          hbelow operation hmem (hbinding.symm.trans (happends other hother).1)
        exact hhead.children _ operation start hstart happend child hchild
    · have hmem : operation ∈ appending := hstart ▸ List.mem_append_right _ List.mem_cons_self
      rw [(happends operation hmem).2.1] at happend
      cases happend
  · intro before operation after heq hlifecycle other hother hbinding
    rcases append_eq_append_cons heq with ⟨start, hstart, rfl⟩ | ⟨start, hstart, rfl⟩
    · rcases List.mem_append.mp hother with hother | hother
      · exact hhead.lifecycle before operation start hstart hlifecycle other hother hbinding
      · exact (happends other hother).2.1
    · have hmem : other ∈ appending :=
        hstart ▸ List.mem_append_right _ (List.mem_cons_of_mem _ hother)
      exact (happends other hmem).2.1
  · intro before operation after heq happend other hother
    rcases append_eq_append_cons heq with ⟨start, hstart, rfl⟩ | ⟨start, hstart, rfl⟩
    · rcases List.mem_append.mp hother with hother | hother
      · exact hhead.appending before operation start hstart happend other hother
      · have hmem : operation ∈ opening ++ built :=
          hstart ▸ List.mem_append_right _ List.mem_cons_self
        rw [(happends other hother).1]
        rcases List.mem_append.mp hmem with hmem | hmem
        · rw [(hopens operation hmem).2] at happend
          cases happend
        · exact (hbelow operation hmem).symm
    · have hpos := List.length_pos_of_mem hother
      rw [hstart, List.length_append, List.length_cons] at hlength
      omega

end InOrder

/-! ## Trees -/

/-- The operations that open an element act on it alone. -/
theorem Scope.openElement_own {options : LoweringOptions} {tag : Text} {attributes : Attributes}
    {scope : Scope} {operation : Operation}
    (h : operation ∈ (scope.openElement options tag attributes).operations) :
    operation.binding = (scope.openElement options tag attributes).binding ∧
      operation.isAppend = false := by
  obtain ⟨space, hoperations⟩ := scope.openElement_operations options tag attributes
  generalize (scope.openElement options tag attributes).binding = b at hoperations ⊢
  rw [hoperations] at h
  rcases List.mem_cons.mp h with rfl | h
  · unfold Scope.createElement
    split <;> exact ⟨rfl, rfl⟩
  · obtain ⟨action, -, rfl⟩ := List.mem_map.mp h
    cases action <;> exact ⟨rfl, rfl⟩

/-- The lifecycle handlers of an element come last in its opening. -/
theorem Scope.openElement_inOrder (options : LoweringOptions) (tag : Text)
    (attributes : Attributes) (scope : Scope) :
    InOrder (scope.openElement options tag attributes).operations := by
  constructor
  · rintro before operation after - - child ⟨other, hother, -, hchild⟩
    rw [Operation.references_eq_nil (Scope.openElement_own hother).2] at hchild
    cases hchild
  · intro before operation after heq hlifecycle other hother
    obtain ⟨space, hoperations⟩ := scope.openElement_operations options tag attributes
    generalize (scope.openElement options tag attributes).binding = b at hoperations
    rw [hoperations, Attributes.allActions, List.map_append, ← List.cons_append] at heq
    rcases append_eq_append_cons heq with ⟨start, hstart, -⟩ | ⟨start, hstart, -⟩
    · -- what comes before the handlers has no number
      have hmem : operation ∈ (space.createElement b tag).1
          :: (attributes.actions options.lifecycle).map (Action.operation b) :=
        hstart ▸ List.mem_append_right _ List.mem_cons_self
      have hnone : operation.generation? = none := by
        rcases List.mem_cons.mp hmem with rfl | hmem
        · unfold Scope.createElement
          split <;> rfl
        · obtain ⟨action, haction, rfl⟩ := List.mem_map.mp hmem
          exact Attributes.generation?_actions haction b
      rw [hnone] at hlifecycle
      cases hlifecycle
    · -- and there is at most one operation for the handlers
      have hlength := congrArg List.length hstart
      have hle : (attributes.lifecycle? options scope.generation).toList.length ≤ 1 := by
        cases attributes.lifecycle? options scope.generation <;> simp
      have hpos := List.length_pos_of_mem hother
      simp only [List.length_map, List.length_append, List.length_cons] at hlength
      omega
  · intro before operation after heq happend
    have hmem : operation ∈ (scope.openElement options tag attributes).operations :=
      heq ▸ List.mem_append_right _ List.mem_cons_self
    rw [(Scope.openElement_own hmem).2] at happend
    cases happend

theorem Children.operation?_appends {b : Binding} {values : List Value} {operation : Operation}
    (h : operation ∈ (operation? b values).toList) :
    operation.binding = b ∧ operation.isAppend = true ∧
      ∀ child ∈ operation.references, child ∈ values.filterMap Value.binding? := by
  have hattached : ∀ child ∈ operation.references, child ∈ values.filterMap Value.binding? := by
    intro child hchild
    rw [← attachedBy_operation? b values]
    exact List.mem_flatMap.mpr ⟨operation, h, hchild⟩
  refine ⟨(Children.operation?_own h).2, ?_, hattached⟩
  rw [Option.mem_toList] at h
  unfold operation? at h
  split at h
  all_goals cases h
  all_goals rfl

namespace Node

theorem lower_createdFirst (options : LoweringOptions) (scope : Scope) (node : Node) :
    CreatedFirst (node.lower options scope).1 :=
  (lower_disciplined options scope node).own

theorem lowerAll_createdFirst (options : LoweringOptions) (scope : Scope) (nodes : List Node) :
    CreatedFirst (lowerAll options scope nodes).1 := by
  induction nodes generalizing scope with
  | nil =>
      rw [lowerAll]
      exact .nil
  | cons node nodes ih =>
      rw [lowerAll_cons]
      exact (lower_createdFirst options scope node).append (ih _)

mutual

/-- **The order in a tree.** -/
theorem lower_inOrder (options : LoweringOptions) (scope : Scope) (node : Node) :
    InOrder (node.lower options scope).1 := by
  match node with
  | .text content =>
      rw [lower]
      exact .nil
  | .comment children =>
      rw [lower]
      exact .create rfl
  | .element tag attributes children =>
      rw [lower_element]
      have hallocates := (scope.allocates_openElement options tag attributes).trans
        (lowerAll_allocates options (scope.openElement options tag attributes).scope children)
      refine .element (scope.openElement_inOrder options tag attributes)
        (lowerAll_inOrder options _ children) (fun _ => Scope.openElement_own) ?_ ?_
        Option.length_toList_le
      · intro operation hoperation heq
        have hcreated := (lowerAll_createdFirst options _ children).mem hoperation
        rw [heq] at hcreated
        exact (List.nodup_cons.mp hallocates.nodup).1 hcreated
      · intro operation hoperation
        obtain ⟨hown, happend, hreferences⟩ := Children.operation?_appends hoperation
        refine ⟨hown, happend, fun child hchild => ?_⟩
        have hroot := hreferences child hchild
        rw [Children.binding?_normalize] at hroot
        exact (lowerAll_created_perm options _ children).mem_iff.mpr
          (List.mem_append_left _ hroot)

theorem lowerAll_inOrder (options : LoweringOptions) (scope : Scope) (nodes : List Node) :
    InOrder (lowerAll options scope nodes).1 := by
  match nodes with
  | [] =>
      rw [lowerAll]
      exact .nil
  | node :: nodes =>
      rw [lowerAll_cons]
      have hallocates := (lower_allocates options scope node).trans
        (lowerAll_allocates options (node.lower options scope).2.2 nodes)
      refine (lower_inOrder options scope node).append (lowerAll_inOrder options _ nodes) ?_
      intro operation hoperation other hother heq
      have hfirst := (lower_createdFirst options scope node).mem hoperation
      have hothers := (lowerAll_createdFirst options _ nodes).mem hother
      rw [heq] at hfirst
      exact List.disjoint_of_nodup_append hallocates.nodup hfirst hothers

end

end Node

/-! ## Around the lifecycle handlers -/

/-- The second node is appended to the first, or to a node below it. -/
inductive Below (operations : List Operation) (b : Binding) : Binding → Prop where
  | child {c : Binding} (h : AppendedTo operations c b) : Below operations b c
  | further {c d : Binding} (hc : Below operations b c) (h : AppendedTo operations d c) :
      Below operations b d

namespace Operation

theorem generation?_of_isAppend {operation : Operation} (h : operation.isAppend = true) :
    operation.generation? = none := by
  cases operation <;> first | rfl | cases h

theorem isAttribute_of_isAppend {operation : Operation} (h : operation.isAppend = true) :
    operation.isAttribute = false := by
  cases operation <;> first | rfl | cases h

end Operation

namespace InOrder

variable {operations before after : List Operation} {operation : Operation}

/-- Nothing is appended to a node before another operation on it. -/
theorem not_appended (h : InOrder operations) (heq : operations = before ++ operation :: after)
    {other : Operation} (hother : other ∈ before) (hb : other.binding = operation.binding) :
    other.isAppend = false := by
  by_contra happend
  obtain ⟨first, second, rfl⟩ := List.append_of_mem hother
  exact h.appending first other _ (heq.trans (List.append_assoc first (other :: second) _))
    (Bool.eq_true_of_not_eq_false happend) operation
    (List.mem_append_right _ List.mem_cons_self) hb.symm

/-- The lifecycle handlers of an element are installed once. -/
theorem installed_once (h : InOrder operations) (heq : operations = before ++ operation :: after)
    (hlifecycle : operation.generation?.isSome = true) {other : Operation}
    (hother : other ∈ before ++ after) (hb : other.binding = operation.binding) :
    other.generation? = none := by
  rcases List.mem_append.mp hother with hbefore | hafter
  · -- behind an earlier one for the same element there would be appending alone
    obtain ⟨first, second, rfl⟩ := List.append_of_mem hbefore
    by_contra hsome
    have happend := h.lifecycle first other _
      (heq.trans (List.append_assoc first (other :: second) _))
      (Option.isSome_iff_ne_none.mpr hsome) operation
      (List.mem_append_right _ List.mem_cons_self) hb.symm
    rw [Operation.generation?_of_isAppend happend] at hlifecycle
    cases hlifecycle
  · exact Operation.generation?_of_isAppend (h.lifecycle before _ after heq hlifecycle _ hafter hb)

/-- All nodes below an element are created after its lifecycle handlers are installed. -/
theorem below (h : InOrder operations) (heq : operations = before ++ operation :: after)
    (hlifecycle : operation.generation?.isSome = true) {c : Binding}
    (hc : Below operations operation.binding c) : c ∈ createdBy after := by
  induction hc with
  | child hchild =>
      refine h.children before operation after heq ?_ _ hchild
      cases operation <;> first | rfl | cases hlifecycle
  | further _ hchild ih =>
      -- the parent is created behind the handlers, and its children behind that
      obtain ⟨create, hcreate, rfl⟩ := List.mem_map.mp ih
      obtain ⟨hmem, hcreates⟩ := List.mem_filter.mp hcreate
      obtain ⟨first, second, rfl⟩ := List.append_of_mem hmem
      have hlater := h.children (before ++ operation :: first) create second (by simp [heq]) ?_ _
        hchild
      · rw [← List.singleton_append, ← List.append_assoc, createdBy_append]
        exact List.mem_append_right _ hlater
      · cases create <;> first | rfl | cases hcreates

end InOrder

/-! ## Templates one after the other -/

namespace Template

/-- What one template adds to the operations of a run. -/
theorem lower_operations (options : LoweringOptions) (template : Template) (scope : Scope) :
    let result := template.lower options scope
    scope.Numbers (operationsIn result.1) result.2 ∧ InOrder (operationsIn result.1) ∧
      CreatedFirst (operationsIn result.1) := by
  have hnothing : scope.Numbers [] scope ∧ InOrder [] ∧ CreatedFirst [] :=
    ⟨.of_none rfl rfl, .nil, .nil⟩
  unfold Template.lower
  split
  · exact hnothing
  · split
    · exact hnothing
    · exact hnothing
    · next root _ =>
        exact ⟨Node.lower_numbers options scope root, Node.lower_inOrder options scope root,
          Node.lower_createdFirst options scope root⟩

theorem createdIn_eq (result : Except LoweringError Lowered) :
    createdIn result = createdBy (operationsIn result) := by
  cases result <;> rfl

theorem createdBy_flatMap (results : List (Except LoweringError Lowered)) :
    createdBy (results.flatMap operationsIn) = results.flatMap createdIn := by
  induction results with
  | nil => rfl
  | cons result results ih =>
      rw [List.flatMap_cons, List.flatMap_cons, createdBy_append, ih, createdIn_eq]

/-- The operations of a whole run are numbered and ordered like those of one template. -/
theorem lowerAll_operations (options : LoweringOptions) (templates : List Template)
    (scope : Scope) :
    let run := lowerAll options templates scope
    scope.Numbers (run.1.flatMap operationsIn) run.2 ∧ InOrder (run.1.flatMap operationsIn) ∧
      CreatedFirst (run.1.flatMap operationsIn) := by
  induction templates generalizing scope with
  | nil => exact ⟨.of_none rfl rfl, .nil, .nil⟩
  | cons template templates ih =>
      obtain ⟨hnumbers, horder, hcreated⟩ := lower_operations options template scope
      obtain ⟨hnumbers', horder', hcreated'⟩ := ih (template.lower options scope).2
      have hnodup := (lowerAll_allocates options (template :: templates) scope).nodup
      rw [lowerAll, List.flatMap_cons] at hnodup
      rw [lowerAll]
      refine ⟨hnumbers.trans hnumbers', horder.append horder' ?_, hcreated.append hcreated'⟩
      -- no two templates create the same node
      intro operation hoperation other hother heq
      have hfirst := hcreated.mem hoperation
      have hothers := hcreated'.mem hother
      rw [heq] at hfirst
      rw [createdIn_eq, ← createdBy_flatMap] at hnodup
      exact List.disjoint_of_nodup_append hnodup hfirst hothers

/-- **Lifecycle handlers are numbered in turn.** Lower any templates one after the other in a new
scope, where those that cannot be lowered give no operations. The numbers of the lifecycle handlers,
in the order of all operations, are 1, 2, 3 and so on without gaps, and the next number is one more
than there are handlers. All of this is counted in 32 bits: the numbers are the same without that
limit as long as there are fewer than 2^32 handlers, and so is the next number except after the
greatest one, which is followed by 0. An element has its handlers installed at most once, after all
that is done to its attributes, and before anything is appended to it or done to a node below it. -/
theorem lowerAll_lifecycle_in_turn (options : LoweringOptions) (reserved : List Text)
    (templates : List Template) :
    let run := lowerAll options templates (Scope.empty.reserve reserved)
    let operations := run.1.flatMap operationsIn
    let count := (numbersOf operations).length
    numbersOf operations = countFrom 1 count ∧ run.2.nextGeneration.1 = 1 + .ofNat count ∧
      (count < UInt32.size → (numbersOf operations).map UInt32.toNat = List.range' 1 count) ∧
      (count + 1 < UInt32.size → run.2.nextGeneration.1.toNat = count + 1) ∧
      (count + 1 = UInt32.size → run.2.nextGeneration.1.toNat = 0) ∧
      ∀ before b onload onunload n after,
        operations = before ++ .setLifecycleHandler b onload onunload n :: after →
          (∀ operation ∈ before ++ after, operation.binding = b → operation.generation? = none) ∧
          (∀ operation ∈ after, operation.binding = b → operation.isAttribute = false) ∧
          (∀ operation ∈ before, operation.binding = b → operation.isAppend = false) ∧
          ∀ c, Below operations b c → ∀ operation ∈ before, operation.binding ≠ c := by
  intro run operations count
  obtain ⟨hnumbers, horder, hcreated⟩ :=
    lowerAll_operations options templates (Scope.empty.reserve reserved)
  have hnodup := (lowerAll_allocates options templates (Scope.empty.reserve reserved)).nodup
  rw [← createdBy_flatMap] at hnodup
  have hstart : (Scope.empty.reserve reserved).generation = 1 := Scope.reserve_generation _ _
  have hcounted : numbersOf operations = countFrom 1 count := hstart ▸ hnumbers.numbers
  have hnext : run.2.nextGeneration.1 = 1 + .ofNat count := hstart ▸ hnumbers.next
  have hvalue : run.2.nextGeneration.1.toNat = (count + 1) % UInt32.size := by
    rw [hnext, Nat.add_comm count, ← UInt32.toNat_ofNat', UInt32.ofNat_add]
    rfl
  refine ⟨hcounted, hnext, ?_, ?_, ?_, ?_⟩
  · intro hcount
    rw [hcounted, toNat_countFrom_one hcount]
  · intro hcount
    rw [hvalue, Nat.mod_eq_of_lt hcount]
  · intro hcount
    rw [hvalue, hcount, Nat.mod_self]
  intro before b onload onunload n after heq
  refine ⟨fun operation hoperation hb => horder.installed_once heq rfl hoperation hb,
    fun operation hoperation hb => ?_,
    fun operation hoperation hb => horder.not_appended heq hoperation hb, fun c hc => ?_⟩
  · have happend := horder.lifecycle before _ after heq rfl operation hoperation hb
    exact Operation.isAttribute_of_isAppend happend
  · have hcreate := horder.below heq rfl hc
    have hrest : c ∈ createdBy (.setLifecycleHandler b onload onunload n :: after) := hcreate
    exact hcreated.not_before hnodup heq hrest

end Template

end Hypertext
