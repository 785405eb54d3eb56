import Hypertext.Lowering
import Mathlib.Data.List.Nodup
import Mathlib.Data.List.Perm.Subperm

set_option autoImplicit false

/-! # Fresh names

A scope hands out names by trying candidates in turn. This file proves that the search stops at the
first candidate that is not taken, and describes what any number of allocations in a row do to a
scope (`Scope.Allocates`): which names went to nodes, which to shared values, that nothing is ever
handed out twice, and that the numbers of names do not run out before very many names are taken.
Every statement about the names of a lowered template is derived from that one description.
-/

namespace Hypertext

/-! ## Candidates -/

theorem Text.ofNat_injective : Function.Injective Text.ofNat := by
  intro m n h
  have hvalue := congrArg (fun digits => Nat.ofDigitChars 10 digits 0) h
  simpa [Text.ofNat] using hvalue

theorem Text.ofNat_ne_nil (n : Nat) : Text.ofNat n ≠ [] := Nat.toDigits_ne_nil

/-- No two candidates for a stem are the same. -/
theorem candidate_injective (base : Text) : Function.Injective (candidate base) := by
  intro i j h
  simp only [candidate, List.cons.injEq, true_and] at h
  -- only the first candidate has no number, and a number is never empty
  by_cases hi : i = 0
  · by_cases hj : j = 0
    · rw [hi, hj]
    · rw [if_pos hi, if_neg hj] at h
      exact absurd (List.append_right_eq_self.mp h.symm) (Text.ofNat_ne_nil _)
  · by_cases hj : j = 0
    · rw [if_neg hi, if_pos hj] at h
      exact absurd (List.append_right_eq_self.mp h) (Text.ofNat_ne_nil _)
    · rw [if_neg hi, if_neg hj] at h
      have := Text.ofNat_injective (List.append_cancel_left h)
      omega

namespace Scope

/-- Among one candidate more than there are taken names, one is not taken. -/
theorem exists_candidate_not_taken (scope : Scope) (base : Text) :
    ∃ i ∈ List.range (scope.taken.length + 1), candidate base i ∉ scope.taken := by
  by_contra hall
  push Not at hall
  -- otherwise they would be different names among fewer
  have hnodup : ((List.range (scope.taken.length + 1)).map (candidate base)).Nodup :=
    List.nodup_range.map (candidate_injective base)
  have hsub : (List.range (scope.taken.length + 1)).map (candidate base) ⊆ scope.taken := by
    intro name hname
    obtain ⟨i, hi, rfl⟩ := List.mem_map.mp hname
    exact hall i hi
  have hle := (hnodup.subperm hsub).length_le
  rw [List.length_map, List.length_range] at hle
  omega

/-- **The search for a name** stops at the first candidate that is not taken, after at most as many
candidates as there are taken names. -/
theorem freePlace_spec (scope : Scope) (base : Text) :
    scope.freePlace base ≤ scope.taken.length ∧
      candidate base (scope.freePlace base) ∉ scope.taken ∧
      ∀ j < scope.freePlace base, candidate base j ∈ scope.taken := by
  obtain ⟨k, hk, hfree⟩ := scope.exists_candidate_not_taken base
  have hsome : ((List.range (scope.taken.length + 1)).find? fun i =>
      !scope.isTaken (candidate base i)).isSome := by
    rw [List.find?_isSome]
    exact ⟨k, hk, by simpa [isTaken] using hfree⟩
  obtain ⟨i, hi⟩ := Option.isSome_iff_exists.mp hsome
  have hplace : scope.freePlace base = i := by
    rw [freePlace, hi]
    rfl
  rw [List.find?_range_eq_some] at hi
  obtain ⟨hnot, hlt, hbefore⟩ := hi
  rw [hplace]
  refine ⟨?_, ?_, ?_⟩
  · have := List.mem_range.mp hlt
    omega
  · simpa [isTaken] using hnot
  · intro j hj
    simpa [isTaken] using hbefore j hj

theorem freeName_spec (scope : Scope) (base : Text) :
    ∃ i, i ≤ scope.taken.length ∧ scope.freeName base = candidate base i ∧
      candidate base i ∉ scope.taken ∧ ∀ j < i, candidate base j ∈ scope.taken := by
  obtain ⟨hle, hfree, hbefore⟩ := scope.freePlace_spec base
  exact ⟨scope.freePlace base, hle, rfl, hfree, hbefore⟩

theorem freeName_not_taken (scope : Scope) (base : Text) :
    scope.freeName base ∉ scope.taken := by
  obtain ⟨i, -, hname, hfree, -⟩ := scope.freeName_spec base
  rw [hname]
  exact hfree

/-! ## The parts of a scope after each step -/

theorem mem_take {scope : Scope} {name other : Text} :
    other ∈ (scope.take name).taken ↔ other = name ∨ other ∈ scope.taken := by
  simp [take]

/-- After names are reserved, exactly these are taken in addition. -/
theorem mem_reserve {names : List Text} {scope : Scope} {name : Text} :
    name ∈ (scope.reserve names).taken ↔ name ∈ names ∨ name ∈ scope.taken := by
  induction names generalizing scope with
  | nil => simp [reserve]
  | cons first rest ih =>
      show name ∈ ((scope.take first).reserve rest).taken ↔ _
      rw [ih, mem_take, List.mem_cons]
      constructor
      · rintro (h | h | h)
        · exact Or.inl (Or.inr h)
        · exact Or.inl (Or.inl h)
        · exact Or.inr h
      · rintro ((h | h) | h)
        · exact Or.inr (Or.inl h)
        · exact Or.inl h
        · exact Or.inr (Or.inr h)

@[simp] theorem reserve_shared (names : List Text) (scope : Scope) :
    (scope.reserve names).shared = scope.shared := by
  induction names generalizing scope with
  | nil => rfl
  | cons first rest ih => exact ih (scope.take first)

@[simp] theorem reserve_exhausted (names : List Text) (scope : Scope) :
    (scope.reserve names).exhausted = scope.exhausted := by
  induction names generalizing scope with
  | nil => rfl
  | cons first rest ih => exact ih (scope.take first)

@[simp] theorem fresh_shared (hint : Text) (scope : Scope) :
    (scope.fresh hint).2.shared = scope.shared := rfl

@[simp] theorem fresh_generation (hint : Text) (scope : Scope) :
    (scope.fresh hint).2.generation = scope.generation := rfl

theorem fresh_not_taken (hint : Text) (scope : Scope) :
    (scope.fresh hint).1.name ∉ scope.taken :=
  scope.freeName_not_taken (stem hint)

/-- One name more is taken. -/
theorem length_fresh (hint : Text) (scope : Scope) :
    (scope.fresh hint).2.taken.length = scope.taken.length + 1 := by
  show (scope.taken.insert (scope.fresh hint).1.name).length = _
  rw [List.insert_of_not_mem (scope.fresh_not_taken hint), List.length_cons]

/-- A search ends if some candidate is not taken whose number it can count to. -/
theorem fresh_ends_iff {hint : Text} {scope : Scope} :
    (scope.fresh hint).2.exhausted = false ↔
      scope.exhausted = false ∧ ∃ i < maxNumber, candidate (stem hint) i ∉ scope.taken := by
  obtain ⟨-, hfree, hbefore⟩ := scope.freePlace_spec (stem hint)
  have hplace : scope.freePlace (stem hint) < maxNumber ↔
      ∃ i < maxNumber, candidate (stem hint) i ∉ scope.taken := by
    refine ⟨fun hlt => ⟨_, hlt, hfree⟩, ?_⟩
    rintro ⟨i, hi, hnot⟩
    by_contra hge
    exact hnot (hbefore i (by omega))
  rw [← hplace]
  show (scope.exhausted || decide (maxNumber ≤ scope.freePlace (stem hint))) = false ↔ _
  rw [Bool.or_eq_false_iff, decide_eq_false_iff_not, Nat.not_le]

/-- A search that does not end passes over more names than there are numbers. -/
theorem fresh_exhausted (hint : Text) (scope : Scope)
    (h : (scope.fresh hint).2.exhausted = true) :
    scope.exhausted = true ∨ maxNumber < (scope.fresh hint).2.taken.length := by
  obtain ⟨hle, -⟩ := scope.freePlace_spec (stem hint)
  rw [length_fresh]
  rcases Bool.or_eq_true_iff.mp h with h | h
  · exact Or.inl h
  · have := of_decide_eq_true h
    exact Or.inr (by omega)

theorem mem_fresh {hint name : Text} {scope : Scope} :
    name ∈ (scope.fresh hint).2.taken ↔ name = (scope.fresh hint).1.name ∨ name ∈ scope.taken :=
  mem_take

/-- The only name that becomes taken is a candidate for the hint. -/
theorem fresh_spelled (hint : Text) (scope : Scope) {name : Text}
    (h : name ∈ (scope.fresh hint).2.taken) :
    name ∈ scope.taken ∨ ∃ hint i, name = candidate (stem hint) i := by
  rcases mem_fresh.mp h with rfl | h
  · obtain ⟨i, -, hname, -, -⟩ := scope.freeName_spec (stem hint)
    exact Or.inr ⟨hint, i, hname⟩
  · exact Or.inl h

@[simp] theorem declare_generation (key : Text) (init : SharedInit) (scope : Scope) :
    (scope.declare key init).2.generation = scope.generation := by
  unfold declare
  split <;> rfl

/-! ## Allocation

`scope.Allocates nodes later` says that `later` is `scope` after some names were handed out, those
in `nodes` to nodes and others to shared values. -/

/-- The shared values of a scope have different names, all of them taken. -/
structure Sound (scope : Scope) : Prop where
  distinct : (scope.shared.map Shared.binding).Nodup
  taken : ∀ value ∈ scope.shared, value.binding.name ∈ scope.taken

/-- What any number of allocations do to a scope. -/
structure Allocates (scope : Scope) (nodes : List Binding) (later : Scope) : Prop where
  nodup : nodes.Nodup
  grows : scope.taken ⊆ later.taken
  fresh : ∀ b ∈ nodes, b.name ∉ scope.taken
  taken : ∀ b ∈ nodes, b.name ∈ later.taken
  /-- Shared values stay as they are; others may follow them. -/
  kept : scope.shared <+: later.shared
  /-- A shared value is an old one, or has a name of its own. -/
  shared : ∀ value ∈ later.shared, value ∈ scope.shared ∨
    (value.binding.name ∉ scope.taken ∧ value.binding.name ∈ later.taken ∧ value.binding ∉ nodes)
  /-- Every name that was handed out is a candidate for some hint. -/
  spelled : ∀ name ∈ later.taken, name ∈ scope.taken ∨ ∃ hint i, name = candidate (stem hint) i
  sound : scope.Sound → later.Sound
  longer : scope.taken.length ≤ later.taken.length
  /-- The numbers run out only if there are more taken names than numbers. -/
  exhausted : later.exhausted = true → scope.exhausted = true ∨ maxNumber < later.taken.length

namespace Allocates

theorem refl (scope : Scope) : scope.Allocates [] scope where
  nodup := List.nodup_nil
  grows := fun _ h => h
  fresh := fun _ h => absurd h List.not_mem_nil
  taken := fun _ h => absurd h List.not_mem_nil
  kept := List.prefix_rfl
  shared := fun _ h => Or.inl h
  spelled := fun _ h => Or.inl h
  sound := id
  longer := Nat.le_refl _
  exhausted := Or.inl

/-- **Allocations compose.** The names handed out first are taken when the others are sought. -/
theorem trans {s t u : Scope} {first second : List Binding} (h₁ : s.Allocates first t)
    (h₂ : t.Allocates second u) : s.Allocates (first ++ second) u where
  nodup := by
    refine List.Nodup.append h₁.nodup h₂.nodup ?_
    intro b hb hb'
    exact h₂.fresh b hb' (h₁.taken b hb)
  grows := fun name h => h₂.grows (h₁.grows h)
  fresh := by
    intro b hb
    rcases List.mem_append.mp hb with hb | hb
    · exact h₁.fresh b hb
    · exact fun h => h₂.fresh b hb (h₁.grows h)
  taken := by
    intro b hb
    rcases List.mem_append.mp hb with hb | hb
    · exact h₂.grows (h₁.taken b hb)
    · exact h₂.taken b hb
  kept := h₁.kept.trans h₂.kept
  shared := by
    intro value hvalue
    rcases h₂.shared value hvalue with hold | ⟨hfresh, htaken, hne⟩
    · rcases h₁.shared value hold with hold | ⟨hfresh, htaken, hne⟩
      · exact Or.inl hold
      · -- declared by the first, so its name is taken for the nodes of the second
        refine Or.inr ⟨hfresh, h₂.grows htaken, ?_⟩
        rw [List.mem_append]
        rintro (hmem | hmem)
        · exact hne hmem
        · exact h₂.fresh _ hmem htaken
    · refine Or.inr ⟨fun h => hfresh (h₁.grows h), htaken, ?_⟩
      rw [List.mem_append]
      rintro (hmem | hmem)
      · exact hfresh (h₁.taken _ hmem)
      · exact hne hmem
  spelled := by
    intro name hname
    rcases h₂.spelled name hname with hname | hname
    · exact h₁.spelled name hname
    · exact Or.inr hname
  sound := fun h => h₂.sound (h₁.sound h)
  longer := Nat.le_trans h₁.longer h₂.longer
  exhausted := by
    intro h
    rcases h₂.exhausted h with h | h
    · exact (h₁.exhausted h).imp_right fun hmore => Nat.lt_of_lt_of_le hmore h₂.longer
    · exact Or.inr h

/-- Allocations that hand out no names to nodes can follow others. -/
theorem trans_nil {s t u : Scope} {nodes : List Binding} (h₁ : s.Allocates nodes t)
    (h₂ : t.Allocates [] u) : s.Allocates nodes u := by
  have h := h₁.trans h₂
  rwa [List.append_nil] at h

end Allocates

theorem allocates_fresh (hint : Text) (scope : Scope) :
    scope.Allocates [(scope.fresh hint).1] (scope.fresh hint).2 where
  nodup := List.nodup_singleton _
  grows := fun _ h => mem_fresh.mpr (Or.inr h)
  fresh := by
    intro b hb
    rw [List.mem_singleton.mp hb]
    exact scope.fresh_not_taken hint
  taken := by
    intro b hb
    rw [List.mem_singleton.mp hb]
    exact mem_fresh.mpr (Or.inl rfl)
  kept := List.prefix_rfl
  shared := fun _ h => Or.inl h
  spelled := fun _ h => scope.fresh_spelled hint h
  sound := fun h => ⟨h.distinct, fun value hvalue => mem_fresh.mpr (Or.inr (h.taken value hvalue))⟩
  longer := by
    rw [length_fresh]
    omega
  exhausted := scope.fresh_exhausted hint

theorem allocates_declare (key : Text) (init : SharedInit) (scope : Scope) :
    scope.Allocates [] (scope.declare key init).2 := by
  unfold declare
  split
  · exact Allocates.refl scope
  · have hfresh := scope.allocates_fresh key
    refine ⟨List.nodup_nil, hfresh.grows, by simp, by simp, List.prefix_append _ _, ?_,
      hfresh.spelled, fun hsound => ⟨?_, ?_⟩, hfresh.longer, hfresh.exhausted⟩
    · intro value hvalue
      simp only [fresh_shared, List.mem_append, List.mem_singleton] at hvalue
      rcases hvalue with hold | rfl
      · exact Or.inl hold
      · exact Or.inr ⟨scope.fresh_not_taken key, mem_fresh.mpr (Or.inl rfl), List.not_mem_nil⟩
    · -- the new name is not taken, those of the other values are
      simp only [fresh_shared, List.map_append, List.map_cons, List.map_nil]
      refine List.Nodup.append hsound.distinct (List.nodup_singleton _) ?_
      intro binding hold hnew
      rw [List.mem_singleton.mp hnew] at hold
      obtain ⟨value, hvalue, heq⟩ := List.mem_map.mp hold
      exact scope.fresh_not_taken key (heq ▸ hsound.taken value hvalue)
    · intro value hvalue
      simp only [fresh_shared, List.mem_append, List.mem_singleton] at hvalue
      rcases hvalue with hold | rfl
      · exact mem_fresh.mpr (Or.inr (hsound.taken value hold))
      · exact mem_fresh.mpr (Or.inl rfl)

theorem allocates_createElement (binding : Binding) (tag : Text) (scope : Scope) :
    scope.Allocates [] (scope.createElement binding tag).2 := by
  unfold createElement
  split
  · exact scope.allocates_declare _ _
  · exact Allocates.refl scope

theorem allocates_finishLifecycle (binding : Binding) (slots : Option LifecycleSlots)
    (scope : Scope) : scope.Allocates [] (scope.finishLifecycle binding slots).2 := by
  unfold finishLifecycle
  split
  · exact ⟨List.nodup_nil, fun _ h => h, by simp, by simp, List.prefix_rfl, fun _ h => Or.inl h,
      fun _ h => Or.inl h, fun h => ⟨h.distinct, h.taken⟩, Nat.le_refl _, Or.inl⟩
  · exact Allocates.refl scope

theorem allocates_declareHelpers (binding : Binding) (operations : List Operation)
    (scope : Scope) : scope.Allocates [] (scope.declareHelpers binding operations) := by
  induction operations generalizing scope with
  | nil => exact Allocates.refl scope
  | cons operation rest ih =>
      rw [declareHelpers]
      split
      · exact (scope.allocates_declare _ _).trans_nil (ih _)
      · exact ih scope

end Scope
end Hypertext
