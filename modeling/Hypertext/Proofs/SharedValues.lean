import Hypertext.Proofs.Hygiene

set_option autoImplicit false

/-! # Shared values

The code of all templates of a script shares the SVG namespace and the helpers. Lowering declares
such a value when the first operation that uses it is emitted: the namespace where an element is
created, a helper where the operations of an element are complete. Rendering looks helpers up again.
This file proves that the two agree.

One relation carries it: `scope.Shares operations later` says what the lowering of some operations
adds to the shared values of a scope. It holds of each step, and it composes. What a scope shares in
the end (`Scope.DeclaresUsed`) and what rendering finds there (`Lowered.RendersIn`) are read off.
-/

namespace Hypertext

/-! ## What operations use -/

namespace Operation

/-- The binding of the namespace in which an operation creates its element. -/
def space? : Operation → Option Binding
  | .createNamespacedElement _ space _ => some space
  | _ => none

/-- The key of the shared value that an operation uses: the namespace or a helper. -/
def sharedKey? (operation : Operation) : Option Text :=
  match operation.space? with
  | some _ => some "svgNamespace".toList
  | none => operation.helper?.map Helper.key

theorem sharedKey?_of_helper? {operation : Operation} {helper : Helper}
    (h : operation.helper? = some helper) : operation.sharedKey? = some helper.key := by
  cases operation <;> cases h <;> rfl

theorem sharedKey?_of_space? {operation : Operation} {space : Binding}
    (h : operation.space? = some space) : operation.sharedKey? = some "svgNamespace".toList := by
  rw [sharedKey?, h]

end Operation

theorem Helper.key_injective : Function.Injective Helper.key := by
  intro first second h
  cases first <;> cases second <;> first | rfl | exact absurd h (by decide)

theorem Helper.key_ne_svgNamespace (helper : Helper) : helper.key ≠ "svgNamespace".toList := by
  cases helper <;> decide

/-- A shared value is initialised with what its key stands for, and its name is a candidate for
the key. -/
structure Shared.Proper (value : Shared) : Prop where
  init : (value.key = "svgNamespace".toList ∧ value.init = .literal Scope.svgNamespaceUri) ∨
    ∃ helper : Helper, value.key = helper.key ∧ value.init = .helper helper
  name : ∃ i, value.binding.name = candidate (stem value.key) i

theorem Shared.Proper.init_eq {value : Shared} (h : value.Proper) {helper : Helper}
    (hkey : value.key = helper.key) : value.init = .helper helper := by
  rcases h.init with ⟨hspace, -⟩ | ⟨other, hother, hinit⟩
  · exact absurd (hkey.symm.trans hspace) helper.key_ne_svgNamespace
  · rw [hinit, Helper.key_injective (hkey.symm.trans hother)]

/-- Generated names begin with an underscore. -/
theorem Shared.Proper.name_ne_undefined {value : Shared} (h : value.Proper) :
    value.binding.name ≠ "undefined".toList := by
  obtain ⟨i, hname⟩ := h.name
  rw [hname]
  intro heq
  exact absurd (congrArg List.head? heq) (by simp [candidate])

namespace Scope

/-- The keys of the values that a scope shares, in the order of their declaration. -/
def keys (scope : Scope) : List Text := scope.shared.map Shared.key

theorem mem_keys {scope : Scope} {key : Text} :
    key ∈ scope.keys ↔ ∃ value, scope.shared? key = some value := by
  rw [← Option.isSome_iff_exists, shared?, List.find?_isSome, keys, List.mem_map]
  simp only [beq_iff_eq]

theorem shared?_spec {scope : Scope} {key : Text} {value : Shared}
    (h : scope.shared? key = some value) : value ∈ scope.shared ∧ value.key = key := by
  refine ⟨List.mem_of_find?_eq_some h, ?_⟩
  simpa using List.find?_some h

theorem shared?_of_kept {scope later : Scope} (hkept : scope.shared <+: later.shared) {key : Text}
    {value : Shared} (h : scope.shared? key = some value) : later.shared? key = some value :=
  hkept.find?_eq_some h

/-! ## Declaring a value -/

theorem declare_of_shared? {scope : Scope} {key : Text} {value : Shared}
    (h : scope.shared? key = some value) (init : SharedInit) :
    scope.declare key init = (value.binding, scope) := by
  rw [declare, h]

theorem declare_of_shared?_eq_none {scope : Scope} {key : Text} (h : scope.shared? key = none)
    (init : SharedInit) :
    (scope.declare key init).2.shared = scope.shared ++ [⟨key, (scope.fresh key).1, init⟩] ∧
      (scope.declare key init).1 = (scope.fresh key).1 := by
  rw [declare, h]
  exact ⟨rfl, rfl⟩

theorem mem_keys_declare {scope : Scope} {key other : Text} {init : SharedInit} :
    other ∈ (scope.declare key init).2.keys ↔ other ∈ scope.keys ∨ other = key := by
  cases h : scope.shared? key with
  | some value =>
      rw [declare_of_shared? h]
      constructor
      · exact Or.inl
      · rintro (hother | rfl)
        · exact hother
        · exact mem_keys.mpr ⟨value, h⟩
  | none =>
      rw [keys, (declare_of_shared?_eq_none h init).1, List.map_append, List.mem_append]
      simp [keys]

theorem nodup_keys_declare {scope : Scope} (key : Text) (init : SharedInit)
    (hnodup : scope.keys.Nodup) : (scope.declare key init).2.keys.Nodup := by
  cases h : scope.shared? key with
  | some value =>
      rw [declare_of_shared? h]
      exact hnodup
  | none =>
      rw [keys, (declare_of_shared?_eq_none h init).1, List.map_append]
      refine hnodup.append (List.nodup_singleton _) ?_
      intro other hold hnew
      rw [List.map_singleton, List.mem_singleton] at hnew
      subst hnew
      obtain ⟨value, hvalue⟩ := mem_keys.mp hold
      rw [h] at hvalue
      cases hvalue

/-- A value that is declared has the binding that is given back. -/
theorem shared?_declare (scope : Scope) (key : Text) (init : SharedInit) :
    ((scope.declare key init).2.shared? key).map Shared.binding
      = some (scope.declare key init).1 := by
  cases h : scope.shared? key with
  | some value =>
      rw [declare_of_shared? h, h]
      rfl
  | none =>
      obtain ⟨hshared, hbinding⟩ := declare_of_shared?_eq_none h init
      have hfind : (scope.declare key init).2.shared? key
          = some ⟨key, (scope.fresh key).1, init⟩ := by
        rw [shared?, hshared, List.find?_append, ← shared?, h]
        simp
      rw [hfind, hbinding]
      rfl

theorem mem_shared_declare {scope : Scope} {key : Text} {init : SharedInit} {value : Shared}
    (hvalue : value ∈ (scope.declare key init).2.shared) :
    value ∈ scope.shared ∨ value = ⟨key, (scope.fresh key).1, init⟩ := by
  cases h : scope.shared? key with
  | some known =>
      rw [declare_of_shared? h] at hvalue
      exact .inl hvalue
  | none =>
      rw [(declare_of_shared?_eq_none h init).1, List.mem_append, List.mem_singleton] at hvalue
      exact hvalue

theorem proper_declared (scope : Scope) {key : Text} {init : SharedInit}
    (hinit : (key = "svgNamespace".toList ∧ init = .literal svgNamespaceUri) ∨
      ∃ helper : Helper, key = helper.key ∧ init = .helper helper) :
    Shared.Proper ⟨key, (scope.fresh key).1, init⟩ := by
  obtain ⟨i, -, hname, -, -⟩ := scope.freeName_spec (stem key)
  exact ⟨hinit, i, hname⟩

/-! ## Sharing

`scope.Shares operations later` says that the values which `later` shares beyond those of `scope`
are the ones that `operations` use. -/

/-- What the lowering of operations adds to the shared values of a scope. -/
structure Shares (scope : Scope) (operations : List Operation) (later : Scope) : Prop where
  kept : scope.shared <+: later.shared
  once : scope.keys.Nodup → later.keys.Nodup
  keys : ∀ key, key ∈ later.keys ↔
    key ∈ scope.keys ∨ ∃ operation ∈ operations, operation.sharedKey? = some key
  added : ∀ value ∈ later.shared, value ∈ scope.shared ∨ value.Proper
  spaces : ∀ operation ∈ operations, ∀ space, operation.space? = some space →
    (later.shared? "svgNamespace".toList).map Shared.binding = some space

theorem binding?_of_kept {scope later : Scope} (hkept : scope.shared <+: later.shared) {key : Text}
    {binding : Binding} (h : (scope.shared? key).map Shared.binding = some binding) :
    (later.shared? key).map Shared.binding = some binding := by
  obtain ⟨value, hvalue, hbinding⟩ := Option.map_eq_some_iff.mp h
  rw [shared?_of_kept hkept hvalue, Option.map_some, hbinding]

namespace Shares

theorem of_shared_eq {scope later : Scope} (h : later.shared = scope.shared) :
    scope.Shares [] later where
  kept := h ▸ List.prefix_rfl
  once := by
    rw [Scope.keys, Scope.keys, h]
    exact id
  keys := by simp [Scope.keys, h]
  added := by
    rw [h]
    exact fun _ => .inl
  spaces := fun _ hmem => absurd hmem List.not_mem_nil

theorem refl (scope : Scope) : scope.Shares [] scope := of_shared_eq rfl

/-- **Sharing composes.** What the first operations declare is still there after the second. -/
theorem trans {s t u : Scope} {first second : List Operation} (h₁ : s.Shares first t)
    (h₂ : t.Shares second u) : s.Shares (first ++ second) u where
  kept := h₁.kept.trans h₂.kept
  once := fun h => h₂.once (h₁.once h)
  keys := by
    intro key
    simp only [h₂.keys, h₁.keys, List.mem_append, or_and_right, exists_or, or_assoc]
  added := by
    intro value hvalue
    rcases h₂.added value hvalue with hold | hnew
    · exact h₁.added value hold
    · exact .inr hnew
  spaces := by
    intro operation hoperation space hspace
    rcases List.mem_append.mp hoperation with hoperation | hoperation
    · exact binding?_of_kept h₂.kept (h₁.spaces operation hoperation space hspace)
    · exact h₂.spaces operation hoperation space hspace

/-- Operations that use nothing can stand among the others, in any order. -/
theorem among {scope later : Scope} {operations all : List Operation}
    (h : scope.Shares operations later) (hsub : operations ⊆ all)
    (hothers : ∀ operation ∈ all, operation ∈ operations ∨ operation.sharedKey? = none) :
    scope.Shares all later := by
  -- so the operations that use a value are the same
  have husers : ∀ {operation key}, operation.sharedKey? = some key →
      (operation ∈ all ↔ operation ∈ operations) := by
    intro operation key hkey
    refine ⟨fun hmem => (hothers operation hmem).resolve_right ?_, fun hmem => hsub hmem⟩
    rw [hkey]
    exact Option.some_ne_none key
  refine ⟨h.kept, h.once, fun key => ?_, h.added, ?_⟩
  · rw [h.keys key]
    refine or_congr_right (exists_congr fun operation => and_congr_left fun hkey => ?_)
    exact (husers hkey).symm
  · intro operation hoperation space hspace
    have hmem := (husers (Operation.sharedKey?_of_space? hspace)).mp hoperation
    exact h.spaces operation hmem space hspace

end Shares

/-- A value that is declared for an operation that uses it. -/
theorem shares_declare {scope : Scope} {key : Text} {init : SharedInit} {operation : Operation}
    (hkey : operation.sharedKey? = some key)
    (hinit : (key = "svgNamespace".toList ∧ init = .literal svgNamespaceUri) ∨
      ∃ helper : Helper, key = helper.key ∧ init = .helper helper)
    (hspace : ∀ space, operation.space? = some space → space = (scope.declare key init).1) :
    scope.Shares [operation] (scope.declare key init).2 where
  kept := (scope.allocates_declare key init).kept
  once := nodup_keys_declare key init
  keys := by
    intro other
    rw [mem_keys_declare]
    simp only [List.mem_singleton, exists_eq_left, hkey, Option.some.injEq, @eq_comm _ other]
  added := by
    intro value hvalue
    rcases mem_shared_declare hvalue with hold | rfl
    · exact .inl hold
    · exact .inr (scope.proper_declared hinit)
  spaces := by
    intro other hother space hother'
    rw [List.mem_singleton.mp hother] at hother'
    rw [Operation.sharedKey?_of_space? hother', Option.some.injEq] at hkey
    rw [hkey, shared?_declare, hspace space hother']

theorem shares_createElement (b : Binding) (tag : Text) (scope : Scope) :
    scope.Shares [(scope.createElement b tag).1] (scope.createElement b tag).2 := by
  unfold createElement
  split
  · refine shares_declare rfl (.inl ⟨rfl, rfl⟩) ?_
    rintro space ⟨⟩
    rfl
  · refine (Shares.refl scope).among (List.nil_subset _) fun operation hoperation => .inr ?_
    rw [List.mem_singleton.mp hoperation]
    rfl

theorem finishLifecycle_shared (b : Binding) (slots : Option LifecycleSlots) (scope : Scope) :
    (scope.finishLifecycle b slots).2.shared = scope.shared := by
  unfold finishLifecycle
  split <;> rfl

/-- The helpers of the operations of one node are declared together. -/
theorem shares_declareHelpers (b : Binding) (operations : List Operation) (scope : Scope) :
    scope.Shares (operations.filter fun operation =>
        operation.binding = b ∧ operation.helper?.isSome)
      (scope.declareHelpers b operations) := by
  induction operations generalizing scope with
  | nil => exact Shares.refl scope
  | cons operation rest ih =>
      rw [declareHelpers, List.filter_cons]
      by_cases hbinding : operation.binding = b
      · rw [if_pos hbinding]
        cases hhelper : operation.helper? with
        | none => simpa using ih scope
        | some helper =>
            have hspace : ∀ space, operation.space? = some space →
                space = (scope.helper helper).1 := by
              intro space hspace
              cases operation <;> cases hhelper <;> cases hspace
            have hdeclare : scope.Shares [operation] (scope.helper helper).2 :=
              shares_declare (Operation.sharedKey?_of_helper? hhelper) (.inr ⟨helper, rfl, rfl⟩)
                hspace
            simpa [hbinding] using hdeclare.trans (ih (scope.helper helper).2)
      · rw [if_neg hbinding]
        simpa [hbinding] using ih scope

/-- The operations of an element declare what they use, if its children do: the operations on the
element itself create nothing, and their helpers are declared last. -/
theorem shares_element {s t u : Scope} {b : Binding} {create : Operation}
    {actions children appends : List Operation} (hopening : s.Shares [create] t)
    (hchildren : t.Shares children u)
    (hown : ∀ operation ∈ actions ++ appends, operation.space? = none ∧ operation.binding = b) :
    s.Shares (create :: actions ++ children ++ appends)
      (u.declareHelpers b (create :: actions ++ children ++ appends)) := by
  have hhelpers := u.shares_declareHelpers b (create :: actions ++ children ++ appends)
  refine ((hopening.trans hchildren).trans hhelpers).among ?_ ?_
  · refine List.append_subset.mpr ⟨fun operation hoperation => ?_, List.filter_subset_self _⟩
    rcases List.mem_cons.mp hoperation with rfl | hoperation
    · exact List.mem_cons_self
    · exact List.mem_append_left _ (List.mem_append_right _ hoperation)
  · intro operation hoperation
    by_cases hfirst : operation ∈ [create] ++ children
    · exact .inl (List.mem_append_left _ hfirst)
    · have hmem : operation ∈ actions ++ appends := by
        simp only [List.mem_append, List.mem_cons, List.not_mem_nil, or_false]
          at hoperation hfirst ⊢
        tauto
      obtain ⟨hspace, hbinding⟩ := hown operation hmem
      cases hhelper : operation.helper? with
      | none =>
          right
          rw [Operation.sharedKey?, hspace, hhelper]
          rfl
      | some helper =>
          left
          refine List.mem_append_right _ (List.mem_filter.mpr ⟨hoperation, ?_⟩)
          simp [hbinding, hhelper]

end Scope

/-! ## Whole trees -/

theorem Action.operation_binding (b : Binding) (action : Action) :
    (action.operation b).binding = b := by
  cases action <;> rfl

theorem Children.operation?_own {b : Binding} {values : List Value} {operation : Operation}
    (h : operation ∈ (Children.operation? b values).toList) :
    operation.space? = none ∧ operation.binding = b := by
  rw [Option.mem_toList] at h
  unfold Children.operation? at h
  split at h
  · cases h
  · cases h
    exact ⟨rfl, rfl⟩
  · cases h
    exact ⟨rfl, rfl⟩

/-- Opening an element declares the namespace if the element is created in it. The other operations
are on the element and create nothing. -/
theorem Scope.openElement_shares (options : LoweringOptions) (tag : Text)
    (attributes : Attributes) (scope : Scope) :
    ∃ create actions,
      (scope.openElement options tag attributes).operations = create :: actions ∧
      scope.Shares [create] (scope.openElement options tag attributes).scope ∧
      ∀ operation ∈ actions, operation.space? = none ∧
        operation.binding = (scope.openElement options tag attributes).binding := by
  obtain ⟨space, hoperations⟩ := scope.openElement_operations options tag attributes
  refine ⟨_, _, hoperations, ?_, ?_⟩
  · obtain ⟨hcreate, -⟩ := List.cons.inj hoperations
    rw [← hcreate]
    have hnamed : scope.Shares [] (scope.fresh (elementHint attributes tag)).2 :=
      .of_shared_eq rfl
    exact (hnamed.trans (shares_createElement _ tag _)).trans
      (.of_shared_eq (finishLifecycle_shared _ _ _))
  · intro operation hoperation
    obtain ⟨action, -, rfl⟩ := List.mem_map.mp hoperation
    refine ⟨?_, action.operation_binding _⟩
    cases action <;> rfl

namespace Node

mutual

/-- **The shared values of a tree.** Lowering a tree declares what its operations use. -/
theorem lower_shares (options : LoweringOptions) (scope : Scope) (node : Node) :
    scope.Shares (node.lower options scope).1 (node.lower options scope).2.2 := by
  match node with
  | .text content =>
      rw [lower]
      exact Scope.Shares.refl scope
  | .comment children =>
      rw [lower]
      have hnamed : scope.Shares [] (scope.fresh "comment".toList).2 := .of_shared_eq rfl
      refine hnamed.among (List.nil_subset _) fun operation hoperation => .inr ?_
      rw [List.mem_singleton.mp hoperation]
      rfl
  | .element tag attributes children =>
      rw [lower_element]
      obtain ⟨create, actions, hoperations, hopening, hactions⟩ :=
        scope.openElement_shares options tag attributes
      have hchildren := lowerAll_shares options
        (scope.openElement options tag attributes).scope children
      dsimp only
      rw [hoperations]
      refine Scope.shares_element hopening hchildren fun operation hoperation => ?_
      rcases List.mem_append.mp hoperation with hoperation | hoperation
      · exact hactions operation hoperation
      · exact Children.operation?_own hoperation

theorem lowerAll_shares (options : LoweringOptions) (scope : Scope) (nodes : List Node) :
    scope.Shares (lowerAll options scope nodes).1 (lowerAll options scope nodes).2.2 := by
  match nodes with
  | [] =>
      rw [lowerAll]
      exact Scope.Shares.refl scope
  | node :: nodes =>
      rw [lowerAll_cons]
      exact (lower_shares options scope node).trans
        (lowerAll_shares options (node.lower options scope).2.2 nodes)

end

end Node

/-! ## What a scope shares in the end -/

/-- The values that a scope shares are those that operations use, each of them once, and all
namespaces are the one that is shared. -/
structure Scope.DeclaresUsed (scope : Scope) (operations : List Operation) : Prop where
  once : scope.keys.Nodup
  used : ∀ key, key ∈ scope.keys ↔ ∃ operation ∈ operations, operation.sharedKey? = some key
  proper : ∀ value ∈ scope.shared, value.Proper
  spaces : ∀ operation ∈ operations, ∀ space, operation.space? = some space →
    (scope.shared? "svgNamespace".toList).map Shared.binding = some space

theorem Scope.Shares.declaresUsed {scope later : Scope} {operations : List Operation}
    (h : scope.Shares operations later) (hstart : scope.shared = []) :
    later.DeclaresUsed operations where
  once := h.once (by simp [Scope.keys, hstart])
  used := by
    intro key
    rw [h.keys key, Scope.keys, hstart, List.map_nil, or_iff_right List.not_mem_nil]
  proper := by
    intro value hvalue
    rcases h.added value hvalue with hold | hproper
    · rw [hstart] at hold
      exact absurd hold List.not_mem_nil
    · exact hproper
  spaces := h.spaces

/-- The operations of a template, none if it cannot be lowered. -/
def Template.operationsIn : Except LoweringError Lowered → List Operation
  | .ok lowered => lowered.operations
  | .error _ => []

theorem Template.lower_shares (options : LoweringOptions) (template : Template) (scope : Scope) :
    scope.Shares (operationsIn (template.lower options scope).1)
      (template.lower options scope).2 := by
  unfold Template.lower
  split
  · exact Scope.Shares.refl scope
  · split
    · exact Scope.Shares.refl scope
    · exact Scope.Shares.refl scope
    · next root _ => exact Node.lower_shares options scope root

/-! ## Rendering -/

/-- The binding of the helper that an operation calls. -/
def Scope.helperBinding? (scope : Scope) (operation : Operation) : Option Binding :=
  operation.helper?.bind fun helper => (scope.shared? helper.key).map Shared.binding

namespace Script

/-- The helpers that operations call are shared in a scope. -/
def HelpersDeclared (operations : List Operation) (scope : Scope) : Prop :=
  ∀ operation ∈ operations, ∀ helper, operation.helper? = some helper → helper.key ∈ scope.keys

/-- Statements by themselves, each with the name that its helper has in the scope. -/
def lines (expressions : List Text) (operations : List Operation) (scope : Scope) : Text :=
  operations.flatMap fun operation =>
    "  ".toList ++ statement expressions (scope.helperBinding? operation) operation ++ ['\n']

/-- **Rendering only looks up.** If all helpers are declared, each is found. -/
theorem statements_eq {operations : List Operation} {scope : Scope}
    (h : HelpersDeclared operations scope) (expressions : List Text) :
    statements expressions operations scope = (lines expressions operations scope, scope) := by
  induction operations with
  | nil => rfl
  | cons operation rest ih =>
      have hrest := ih fun other hother => h other (List.mem_cons_of_mem _ hother)
      rw [statements, lines, List.flatMap_cons, ← lines, Scope.helperBinding?]
      cases hhelper : operation.helper? with
      | none =>
          simp only [hrest]
          rfl
      | some helper =>
          obtain ⟨value, hvalue⟩ :=
            Scope.mem_keys.mp (h operation List.mem_cons_self helper hhelper)
          have hdeclare : scope.helper helper = (value.binding, scope) :=
            Scope.declare_of_shared? hvalue _
          simp only [hdeclare, hrest, Option.bind_some, hvalue, Option.map_some]

theorem HelpersDeclared.mono {operations : List Operation} {scope later : Scope}
    (h : HelpersDeclared operations scope) (hkept : scope.shared <+: later.shared) :
    HelpersDeclared operations later := by
  intro operation hoperation helper hhelper
  obtain ⟨value, hvalue⟩ := Scope.mem_keys.mp (h operation hoperation helper hhelper)
  exact Scope.mem_keys.mpr ⟨value, Scope.shared?_of_kept hkept hvalue⟩

theorem lines_of_kept {operations : List Operation} {scope later : Scope}
    (h : HelpersDeclared operations scope) (hkept : scope.shared <+: later.shared)
    (expressions : List Text) :
    lines expressions operations later = lines expressions operations scope := by
  refine List.flatMap_congr fun operation hoperation => ?_
  have hbinding : later.helperBinding? operation = scope.helperBinding? operation := by
    unfold Scope.helperBinding?
    cases hhelper : operation.helper? with
    | none => rfl
    | some helper =>
        obtain ⟨value, hvalue⟩ := Scope.mem_keys.mp (h operation hoperation helper hhelper)
        rw [Option.bind_some, Option.bind_some, hvalue, Scope.shared?_of_kept hkept hvalue]
  rw [hbinding]

theorem render_snd {lowered : Lowered} {scope : Scope}
    (h : HelpersDeclared lowered.operations scope) (expressions : List Text) :
    (render expressions lowered scope).2 = scope := by
  unfold render
  split
  · rfl
  · rw [statements_eq h]

/-- The code of a template stays the same when other values are declared after it. -/
theorem render_of_kept {lowered : Lowered} {scope later : Scope}
    (h : HelpersDeclared lowered.operations scope) (hkept : scope.shared <+: later.shared)
    (expressions : List Text) :
    (render expressions lowered later).1 = (render expressions lowered scope).1 := by
  unfold render
  split
  · rfl
  · rw [statements_eq h, statements_eq (h.mono hkept), lines_of_kept h hkept]

/-- What rendering a template does in a scope: nothing to the scope, and every helper is printed
under the name of the shared value that stands for it. -/
structure RendersIn (lowered : Lowered) (scope : Scope) : Prop where
  unchanged : ∀ expressions, (render expressions lowered scope).2 = scope
  printed : ∀ expressions, (statements expressions lowered.operations scope).1
    = lines expressions lowered.operations scope
  helpers : ∀ operation ∈ lowered.operations, ∀ helper, operation.helper? = some helper →
    ∃ value ∈ scope.shared, value.key = helper.key ∧ value.init = .helper helper ∧
      scope.helperBinding? operation = some value.binding ∧
      value.binding.name ≠ "undefined".toList

theorem helpersDeclared_of_used {operations : List Operation} {scope : Scope}
    (h : ∀ operation ∈ operations, ∀ key, operation.sharedKey? = some key → key ∈ scope.keys) :
    HelpersDeclared operations scope := by
  intro operation hoperation helper hhelper
  exact h operation hoperation _ (Operation.sharedKey?_of_helper? hhelper)

theorem helpersDeclared_of_shares {scope later : Scope} {operations : List Operation}
    (h : scope.Shares operations later) : HelpersDeclared operations later :=
  helpersDeclared_of_used fun operation hoperation key hkey =>
    (h.keys key).mpr (.inr ⟨operation, hoperation, hkey⟩)

theorem rendersIn_of_declaresUsed {scope : Scope} {operations : List Operation}
    (h : scope.DeclaresUsed operations) {lowered : Lowered}
    (hsub : lowered.operations ⊆ operations) : RendersIn lowered scope := by
  have hdeclared : HelpersDeclared lowered.operations scope :=
    helpersDeclared_of_used fun operation hoperation key hkey =>
      (h.used key).mpr ⟨operation, hsub hoperation, hkey⟩
  refine ⟨render_snd hdeclared, fun expressions => by rw [statements_eq hdeclared], ?_⟩
  intro operation hoperation helper hhelper
  obtain ⟨value, hvalue⟩ := Scope.mem_keys.mp (hdeclared operation hoperation helper hhelper)
  obtain ⟨hmem, hkey⟩ := Scope.shared?_spec hvalue
  have hproper := h.proper value hmem
  refine ⟨value, hmem, hkey, hproper.init_eq hkey, ?_, hproper.name_ne_undefined⟩
  rw [Scope.helperBinding?, hhelper, Option.bind_some, hvalue, Option.map_some]

/-! ## Templates one after the other -/

namespace Compiler

/-- The operations of a template, none if it cannot be compiled. -/
def emitted : Except LoweringError (Lowered × Text) → List Operation
  | .ok (lowered, _) => lowered.operations
  | .error _ => []

/-- **One template.** It declares what its operations use. Its code is the same in every scope that
shares at least these values. -/
theorem compile_shares (options : Options) (quasis expressions : List Text) (scope : Scope) :
    let result := compile options quasis expressions scope
    scope.Shares (emitted result.1) result.2 ∧
      ∀ lowered code later, result.1 = .ok (lowered, code) → result.2.shared <+: later.shared →
        code = (render expressions lowered later).1 := by
  unfold compile
  split
  · exact ⟨Scope.Shares.refl scope, fun _ _ _ h => nomatch h⟩
  · next template _ =>
      have hshares := Template.lower_shares options.lowering template scope
      split
      · next e later hlower =>
          rw [hlower] at hshares
          exact ⟨hshares, fun _ _ _ h => nomatch h⟩
      · next lowered later hlower =>
          rw [hlower] at hshares
          have hdeclared : HelpersDeclared lowered.operations later :=
            helpersDeclared_of_shares hshares
          dsimp only
          rw [render_snd hdeclared]
          refine ⟨hshares, ?_⟩
          rintro _ _ later' ⟨⟩ hkept
          exact (render_of_kept hdeclared hkept expressions).symm

/-- Templates, each given by its static parts and its expressions, that are compiled one after the
other in one scope. -/
def compileAll (options : Options) :
    List (List Text × List Text) → Scope → List (Except LoweringError (Lowered × Text)) × Scope
  | [], scope => ([], scope)
  | template :: templates, scope =>
    let first := compile options template.1 template.2 scope
    let others := compileAll options templates first.2
    (first.1 :: others.1, others.2)

theorem compileAll_shares (options : Options) (templates : List (List Text × List Text))
    (scope : Scope) :
    scope.Shares ((compileAll options templates scope).1.flatMap emitted)
      (compileAll options templates scope).2 := by
  induction templates generalizing scope with
  | nil => exact Scope.Shares.refl scope
  | cons template templates ih =>
      rw [compileAll, List.flatMap_cons]
      exact (compile_shares options template.1 template.2 scope).1.trans (ih _)

/-- The code that a template has in the end is the code that it was compiled to. -/
theorem compileAll_code (options : Options) (templates : List (List Text × List Text))
    (scope : Scope) :
    let run := compileAll options templates scope
    List.Forall₂ (fun template result => ∀ lowered code, result = .ok (lowered, code) →
      code = (render template.2 lowered run.2).1) templates run.1 := by
  induction templates generalizing scope with
  | nil => exact .nil
  | cons template templates ih =>
      refine .cons ?_ (ih _)
      intro lowered code h
      exact (compile_shares options template.1 template.2 scope).2 lowered code _ h
        (compileAll_shares options templates _).kept

end Compiler

/-! ## Whole scripts -/

/-- From one point of a run to a later one: the templates compiled in between declare what they
use. -/
def Progress.SharesTo (before after : Progress) : Prop :=
  ∃ compiled, after.compiled = before.compiled ++ compiled ∧
    before.scope.Shares (compiled.flatMap Lowered.operations) after.scope

theorem accumulates_sharesTo (options : Options) :
    Progress.Accumulates options Progress.SharesTo where
  refl := fun _ => ⟨[], (List.append_nil _).symm, Scope.Shares.refl _⟩
  trans := by
    rintro p q r ⟨first, hfirst, hshares⟩ ⟨second, hsecond, hshares'⟩
    refine ⟨first ++ second, by rw [hsecond, hfirst, List.append_assoc], ?_⟩
    rw [List.flatMap_append]
    exact hshares.trans hshares'
  compile := by
    intro quasis expressions before lowered code scope h
    have hshares := (Compiler.compile_shares options quasis expressions before.scope).1
    rw [h] at hshares
    exact ⟨[lowered], rfl, by rwa [List.flatMap_singleton]⟩

theorem compileTemplates_declaresUsed {options : Options} {source : Text} {items : List Item}
    {edits : List Edit} {progress : Progress}
    (h : compileTemplates options source = .ok (items, edits, progress)) :
    progress.scope.DeclaresUsed (progress.compiled.flatMap Lowered.operations) := by
  obtain ⟨compiled, hcompiled, hshares⟩ :=
    compileTemplates_accumulates (accumulates_sharesTo options) h
  rw [List.nil_append] at hcompiled
  rw [hcompiled]
  exact hshares.declaresUsed (Scope.reserve_shared _ _)

/-- **Shared values are declared exactly when used.** Compile any templates in a scope that shares
nothing at first. Then the scope shares exactly what the operations of these templates use, and so
it does after one more template is lowered. No shared value ever changes. Rendering a template
leaves the scope as it is, and prints each helper under the name of its shared value. The same holds
of a whole script: what is declared in it is what the operations of its compiled templates use. -/
theorem shared_exactly_used (options : Options) (taken : List Text) (generation : UInt32)
    (exhausted : Bool) (templates : List (List Text × List Text)) :
    let run := Compiler.compileAll options templates ⟨taken, [], generation, exhausted⟩
    let operations := run.1.flatMap Compiler.emitted
    run.2.DeclaresUsed operations ∧
      (∀ lowered code, .ok (lowered, code) ∈ run.1 → RendersIn lowered run.2) ∧
      List.Forall₂ (fun template result => ∀ lowered code, result = .ok (lowered, code) →
        code = (render template.2 lowered run.2).1) templates run.1 ∧
      (∀ template : Template,
        let next := template.lower options.lowering run.2
        run.2.shared <+: next.2.shared ∧
          next.2.DeclaresUsed (operations ++ Template.operationsIn next.1) ∧
          ∀ lowered, next.1 = .ok lowered → RendersIn lowered next.2) ∧
      ∀ source result, transform options source = .ok result →
        ∃ items edits progress, compileTemplates options source = .ok (items, edits, progress) ∧
          Edit.applyAll source (fileEdits options source items edits
            (declarations options progress.scope.shared)) = some result.code ∧
          progress.scope.DeclaresUsed (progress.compiled.flatMap Lowered.operations) ∧
          ∀ lowered ∈ progress.compiled, RendersIn lowered progress.scope := by
  intro run operations
  have hshares := Compiler.compileAll_shares options templates ⟨taken, [], generation, exhausted⟩
  have hused := hshares.declaresUsed rfl
  refine ⟨hused, ?_, Compiler.compileAll_code options templates _, ?_, ?_⟩
  · intro lowered code hmem
    apply rendersIn_of_declaresUsed hused
    exact fun operation hoperation => List.mem_flatMap.mpr ⟨_, hmem, hoperation⟩
  · intro template next
    have hnext := Template.lower_shares options.lowering template run.2
    have hused' := (hshares.trans hnext).declaresUsed rfl
    refine ⟨hnext.kept, hused', fun lowered hlowered => ?_⟩
    apply rendersIn_of_declaresUsed hused'
    intro operation hoperation
    refine List.mem_append_right _ ?_
    rw [show (template.lower options.lowering run.2).1 = .ok lowered from hlowered]
    exact hoperation
  · intro source result h
    rw [transform_eq] at h
    obtain ⟨⟨items, edits, progress⟩, hcompile, h⟩ := bind_eq_ok_iff.mp h
    dsimp only at h
    split at h
    · cases h
    next code hcode =>
    cases h
    have hused' := compileTemplates_declaresUsed hcompile
    refine ⟨items, edits, progress, hcompile, hcode, hused', fun lowered hlowered => ?_⟩
    apply rendersIn_of_declaresUsed hused'
    exact fun operation hoperation => List.mem_flatMap.mpr ⟨lowered, hlowered, hoperation⟩

/-- A helper can be declared that no code in the script calls. A lifecycle handler of several parts
is dropped, and with it the code of the template inside of it, which called the helper. -/
theorem declared_for_dropped_code :
    let source := ("require('bel')\x60<p onload=\"a$\x7b" ++
      "require('bel')\x60<b>$\x7bx\x7d</b>\x60\x7d\"></p>\x60").toList
    let declared := "var _appendChild = require(\"yo-yoify/lib/appendChild\");\n".toList
    let rest := ("var _onload = require(\"on-load\");\n(() => \x7b\n" ++
      "  var _p = document.createElement(\"p\");\n  _onload(_p, null, null, 1);\n" ++
      "  return _p;\n\x7d)()").toList
    (transform {} source).toOption = some ⟨declared ++ rest, 2⟩ ∧
      Text.includes "_appendChild".toList rest = false := by
  decide +kernel

end Script
end Hypertext
