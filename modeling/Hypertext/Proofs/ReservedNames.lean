import Hypertext.Proofs.SharedValues

set_option autoImplicit false

/-! # Reserved names that do not matter

A name is handed out as the first candidate that is not taken. So names that are reserved beforehand
change nothing, as long as none of them would have been handed out. `Scope.Over` relates two scopes
one of which has names reserved in addition. Every step of lowering keeps the relation and comes to
the same in both scopes, if the names that it hands out avoid the reserved ones. This is carried up
from one fresh name to whole templates (`Template.lower_over`).
-/

namespace Hypertext
namespace Scope

/-- The second scope is the first with some names reserved in addition. -/
structure Over (reserved : List Text) (scope wide : Scope) : Prop where
  shared : wide.shared = scope.shared
  generation : wide.generation = scope.generation
  taken : ∀ name, name ∈ wide.taken ↔ name ∈ reserved ∨ name ∈ scope.taken

/-- No value that a scope shares has a reserved name. -/
def Avoids (scope : Scope) (reserved : List Text) : Prop :=
  ∀ value ∈ scope.shared, value.binding.name ∉ reserved

theorem Avoids.before {scope later : Scope} {reserved : List Text} (h : later.Avoids reserved)
    (hkept : scope.shared <+: later.shared) : scope.Avoids reserved :=
  fun value hvalue => h value (hkept.subset hvalue)

theorem reserve_generation (names : List Text) (scope : Scope) :
    (scope.reserve names).generation = scope.generation := by
  induction names generalizing scope with
  | nil => rfl
  | cons first rest ih => exact ih (scope.take first)

theorem over_reserve (names : List Text) (scope : Scope) :
    Over names scope (scope.reserve names) where
  shared := reserve_shared names scope
  generation := reserve_generation names scope
  taken := fun _ => mem_reserve

section

variable {reserved : List Text} {scope wide : Scope} (h : Over reserved scope wide)

include h

/-! ## One name -/

/-- The first free candidate stays the first, unless it is reserved itself. -/
theorem freeName_over {base : Text} (hfree : scope.freeName base ∉ reserved) :
    wide.freeName base = scope.freeName base := by
  obtain ⟨i, -, hname, hnot, hbefore⟩ := scope.freeName_spec base
  obtain ⟨k, -, hname', hnot', hbefore'⟩ := wide.freeName_spec base
  rw [hname] at hfree
  -- both are the first candidate that is not taken, and only reserved names are taken in addition
  have hik : k = i := by
    by_contra hne
    rcases Nat.lt_or_gt_of_ne hne with hlt | hgt
    · exact hnot' ((h.taken _).mpr (.inr (hbefore k hlt)))
    · rcases (h.taken _).mp (hbefore' i hgt) with hreserved | htaken
      · exact hfree hreserved
      · exact hnot htaken
  rw [hname, hname', hik]

theorem fresh_over {hint : Text} (hfree : (scope.fresh hint).1.name ∉ reserved) :
    (wide.fresh hint).1 = (scope.fresh hint).1 ∧
      Over reserved (scope.fresh hint).2 (wide.fresh hint).2 := by
  have hname : (wide.fresh hint).1 = (scope.fresh hint).1 :=
    congrArg Binding.mk (freeName_over h hfree)
  refine ⟨hname, h.shared, h.generation, fun name => ?_⟩
  rw [mem_fresh, mem_fresh, hname, h.taken]
  exact or_left_comm

theorem declare_over {key : Text} {init : SharedInit}
    (havoids : (scope.declare key init).2.Avoids reserved) :
    (wide.declare key init).1 = (scope.declare key init).1 ∧
      Over reserved (scope.declare key init).2 (wide.declare key init).2 := by
  have hshared : wide.shared? key = scope.shared? key := by
    rw [shared?, shared?, h.shared]
  unfold declare at havoids ⊢
  rw [hshared]
  cases hfound : scope.shared? key with
  | some value => exact ⟨rfl, h⟩
  | none =>
      rw [hfound] at havoids
      have hfree : (scope.fresh key).1.name ∉ reserved :=
        havoids _ (List.mem_append_right _ List.mem_cons_self)
      obtain ⟨hname, hover⟩ := fresh_over h hfree
      refine ⟨hname, ?_, hover.generation, hover.taken⟩
      dsimp only
      rw [hname, hover.shared]

/-! ## One element -/

theorem createElement_over {binding : Binding} {tag : Text}
    (havoids : (scope.createElement binding tag).2.Avoids reserved) :
    (wide.createElement binding tag).1 = (scope.createElement binding tag).1 ∧
      Over reserved (scope.createElement binding tag).2 (wide.createElement binding tag).2 := by
  unfold createElement at havoids ⊢
  by_cases hsvg : isSvgTag tag = true
  · rw [if_pos hsvg] at havoids ⊢
    rw [if_pos hsvg]
    obtain ⟨hspace, hover⟩ := declare_over h havoids
    exact ⟨congrArg (Operation.createNamespacedElement binding · tag) hspace, hover⟩
  · rw [if_neg hsvg, if_neg hsvg]
    exact ⟨rfl, h⟩

theorem finishLifecycle_over (binding : Binding) (slots : Option LifecycleSlots) :
    (wide.finishLifecycle binding slots).1 = (scope.finishLifecycle binding slots).1 ∧
      Over reserved (scope.finishLifecycle binding slots).2
        (wide.finishLifecycle binding slots).2 := by
  unfold finishLifecycle
  rw [h.generation]
  cases slots.bind fun slots => slots.finish binding scope.generation with
  | none => exact ⟨rfl, h⟩
  | some operation => exact ⟨rfl, h.shared, congrArg (· + 1) h.generation, h.taken⟩

end

theorem declareHelpers_over {reserved : List Text} {scope wide : Scope}
    (h : Over reserved scope wide) {binding : Binding} {operations : List Operation}
    (havoids : (scope.declareHelpers binding operations).Avoids reserved) :
    Over reserved (scope.declareHelpers binding operations)
      (wide.declareHelpers binding operations) := by
  induction operations generalizing scope wide with
  | nil => exact h
  | cons operation rest ih =>
      unfold declareHelpers at havoids ⊢
      split at havoids
      · have hfirst := havoids.before (shares_declareHelpers binding rest _).kept
        exact ih (declare_over h hfirst).2 havoids
      · exact ih h havoids

theorem openElement_over {reserved : List Text} {scope wide : Scope}
    (h : Over reserved scope wide) {options : LoweringOptions} {tag : Text}
    {attributes : Attributes}
    (hfree : (scope.openElement options tag attributes).binding.name ∉ reserved)
    (havoids : (scope.openElement options tag attributes).scope.Avoids reserved) :
    (wide.openElement options tag attributes).binding
        = (scope.openElement options tag attributes).binding ∧
      (wide.openElement options tag attributes).operations
        = (scope.openElement options tag attributes).operations ∧
      Over reserved (scope.openElement options tag attributes).scope
        (wide.openElement options tag attributes).scope := by
  unfold openElement at hfree havoids ⊢
  dsimp only at hfree havoids ⊢
  rw [Avoids, finishLifecycle_shared] at havoids
  obtain ⟨hbinding, hfresh⟩ := fresh_over h hfree
  obtain ⟨hcreate, hover⟩ := createElement_over hfresh havoids
  rw [hbinding, hcreate]
  obtain ⟨hfinish, hfinished⟩ := finishLifecycle_over hover _ _
  rw [hfinish]
  exact ⟨rfl, rfl, hfinished⟩

end Scope

namespace Node

mutual

/-- **One tree.** It is lowered to the same operations in both scopes. -/
theorem lower_over {reserved : List Text} {scope wide : Scope} (h : Scope.Over reserved scope wide)
    (options : LoweringOptions) (node : Node)
    (hfree : ∀ binding ∈ createdBy (node.lower options scope).1, binding.name ∉ reserved)
    (havoids : (node.lower options scope).2.2.Avoids reserved) :
    (node.lower options wide).1 = (node.lower options scope).1 ∧
      (node.lower options wide).2.1 = (node.lower options scope).2.1 ∧
      Scope.Over reserved (node.lower options scope).2.2 (node.lower options wide).2.2 := by
  match node with
  | .text content =>
      rw [lower, lower]
      exact ⟨rfl, rfl, h⟩
  | .comment children =>
      rw [lower] at hfree
      obtain ⟨hname, hover⟩ := Scope.fresh_over h (hfree _ List.mem_cons_self)
      rw [lower, lower, hname]
      exact ⟨rfl, rfl, hover⟩
  | .element tag attributes children =>
      rw [lower_element] at hfree havoids
      rw [lower_element, lower_element]
      dsimp only at hfree havoids ⊢
      simp only [createdBy_append, Scope.createdBy_openElement, Children.createdBy_operation?,
        List.append_nil, List.singleton_append] at hfree
      -- what is shared in the end was free of reserved names before, since nothing is ever dropped
      have hbuilt := havoids.before (Scope.shares_declareHelpers _ _ _).kept
      have hopened := hbuilt.before (lowerAll_shares options _ children).kept
      obtain ⟨hbinding, hopening, hover⟩ :=
        Scope.openElement_over h (hfree _ List.mem_cons_self) hopened
      obtain ⟨hoperations, hgiven, hover⟩ := lowerAll_over hover options children
        (fun binding hmem => hfree binding (List.mem_cons_of_mem _ hmem)) hbuilt
      rw [hbinding, hopening, hoperations, hgiven]
      exact ⟨rfl, rfl, Scope.declareHelpers_over hover havoids⟩

theorem lowerAll_over {reserved : List Text} {scope wide : Scope}
    (h : Scope.Over reserved scope wide) (options : LoweringOptions) (nodes : List Node)
    (hfree : ∀ binding ∈ createdBy (lowerAll options scope nodes).1, binding.name ∉ reserved)
    (havoids : (lowerAll options scope nodes).2.2.Avoids reserved) :
    (lowerAll options wide nodes).1 = (lowerAll options scope nodes).1 ∧
      (lowerAll options wide nodes).2.1 = (lowerAll options scope nodes).2.1 ∧
      Scope.Over reserved (lowerAll options scope nodes).2.2
        (lowerAll options wide nodes).2.2 := by
  match nodes with
  | [] =>
      rw [lowerAll, lowerAll]
      exact ⟨rfl, rfl, h⟩
  | node :: nodes =>
      rw [lowerAll_cons] at hfree havoids
      rw [lowerAll_cons, lowerAll_cons]
      dsimp only at hfree havoids ⊢
      rw [createdBy_append] at hfree
      have hfirst := havoids.before (lowerAll_shares options _ nodes).kept
      obtain ⟨hoperations, hgiven, hover⟩ := lower_over h options node
        (fun binding hmem => hfree binding (List.mem_append_left _ hmem)) hfirst
      obtain ⟨hoperations', hgiven', hover'⟩ := lowerAll_over hover options nodes
        (fun binding hmem => hfree binding (List.mem_append_right _ hmem)) havoids
      rw [hoperations, hgiven, hoperations', hgiven']
      exact ⟨rfl, rfl, hover'⟩

end

end Node

/-- **One template.** It is lowered to the same in both scopes. -/
theorem Template.lower_over {reserved : List Text} {scope wide : Scope}
    (h : Scope.Over reserved scope wide) {options : LoweringOptions} {template : Template}
    (hfree : ∀ lowered, (template.lower options scope).1 = .ok lowered →
      ∀ binding ∈ lowered.created, binding.name ∉ reserved)
    (havoids : (template.lower options scope).2.Avoids reserved) :
    (template.lower options wide).1 = (template.lower options scope).1 ∧
      Scope.Over reserved (template.lower options scope).2 (template.lower options wide).2 := by
  unfold Template.lower at hfree havoids ⊢
  split at havoids
  · next hblank =>
      rw [if_pos hblank, if_pos hblank]
      exact ⟨rfl, h⟩
  · next hblank =>
      rw [if_neg hblank] at hfree
      rw [if_neg hblank, if_neg hblank]
      cases hparse : Node.parse template.source with
      | error e => exact ⟨rfl, h⟩
      | ok parsed =>
          cases parsed with
          | none => exact ⟨rfl, h⟩
          | some root =>
              rw [hparse] at hfree havoids
              obtain ⟨hoperations, hgiven, hover⟩ :=
                Node.lower_over h options root (hfree _ rfl) havoids
              dsimp only
              rw [hoperations, hgiven]
              exact ⟨rfl, hover⟩

/-- **One template as code.** It comes to the same code, and declares the same values. -/
theorem Script.Compiler.compile_over {reserved : List Text} {scope wide : Scope}
    (h : Scope.Over reserved scope wide) {options : Options} {quasis expressions : List Text}
    {lowered : Lowered} {code : Text} {later : Scope}
    (hcompile : compile options quasis expressions scope = (.ok (lowered, code), later))
    (hfree : ∀ binding ∈ lowered.created, binding.name ∉ reserved)
    (havoids : later.Avoids reserved) :
    ∃ later', compile options quasis expressions wide = (.ok (lowered, code), later') ∧
      later'.shared = later.shared := by
  obtain ⟨template, after, htemplate, hlower, hrender⟩ := compile_eq_ok_iff.mp hcompile
  have hshares := template.lower_shares options.lowering scope
  rw [hlower] at hshares
  have hdeclared : HelpersDeclared lowered.operations after := helpersDeclared_of_shares hshares
  -- rendering leaves the scope as lowering left it
  obtain rfl : after = later := by rw [← render_snd hdeclared expressions, hrender]
  have hnodes : ∀ other, (template.lower options.lowering scope).1 = .ok other →
      ∀ binding ∈ other.created, binding.name ∉ reserved := by
    rw [hlower]
    rintro _ ⟨⟩
    exact hfree
  obtain ⟨hsame, hover⟩ := Template.lower_over h hnodes (by rwa [hlower])
  cases hwide : template.lower options.lowering wide with
  | mk result after' =>
      rw [hwide, hlower] at hsame hover
      cases hsame
      have hshared : after'.shared = after.shared := hover.shared
      have hkept : after.shared <+: after'.shared := hshared ▸ List.prefix_rfl
      refine ⟨after', compile_eq_ok_iff.mpr ⟨template, after', htemplate, hwide, ?_⟩, hshared⟩
      ext1
      · rw [render_of_kept hdeclared hkept, hrender]
      · exact render_snd (hdeclared.mono hkept) expressions

end Hypertext
