import Hypertext.Proofs.Renaming
import Mathlib.Data.List.Dedup

set_option autoImplicit false

/-! # Runs of a scope

A scope is asked to reserve names, to find a name for a hint and to declare a shared value, in any
order and any number of times. This file writes down what it was asked for and what it answered
(`Event`), and proves that the scope is determined by that record (`Scope.Records`): exactly the
recorded names are taken, and exactly the first declaration of each key is shared. Everything about
the answers follows from the scope in which they were given.

The search for a name counts in 32 bits with a sign, and after the greatest number it goes on at the
least (`Search`). It ends exactly if a candidate is free that it can count to (`exists_search_iff`),
so there are requests without an answer only when all those candidates are taken
(`Event.Answered`).
-/

namespace Hypertext

/-! ## Requests and their answers -/

/-- What a scope can be asked for. -/
inductive Request where
  | reserve (names : List Text)
  | fresh (hint : Text)
  | declare (key : Text) (init : SharedInit)
  deriving DecidableEq, Repr

/-- A request together with its answer. A declaration is recorded with the key and the initial value
that it was asked for, and the binding that was given back. -/
inductive Event where
  | reserved (names : List Text)
  | named (hint : Text) (answer : Binding)
  | declared (value : Shared)
  deriving DecidableEq, Repr

namespace Event

/-- The request that an event answers. -/
def request : Event → Request
  | .reserved names => .reserve names
  | .named hint _ => .fresh hint
  | .declared value => .declare value.key value.init

/-- The names that were reserved or given back. -/
def names : Event → List Text
  | .reserved names => names
  | .named _ answer => [answer.name]
  | .declared value => [value.binding.name]

/-- The declaration that was asked for. -/
def declaration? : Event → Option Shared
  | .declared value => some value
  | _ => none

/-- All names that were reserved or given back. -/
def known (events : List Event) : List Text := events.flatMap names

/-- All declarations that were asked for, repeated ones included. -/
def declarations (events : List Event) : List Shared := events.filterMap declaration?

/-- The keys of all declarations that were asked for. -/
def keys (events : List Event) : List Text := (declarations events).map Shared.key

/-- The hint for which an event introduces a name, when values with the given keys are declared. A
key that is declared already gets no new name. -/
def hint? (declared : List Text) : Event → Option Text
  | .reserved _ => none
  | .named hint _ => some hint
  | .declared value => if value.key ∈ declared then none else some value.key

/-- The value was declared when its key had not been declared before. -/
def FirstDeclared (events : List Event) (value : Shared) : Prop :=
  ∃ before after, events = before ++ .declared value :: after ∧ value.key ∉ keys before

theorem known_concat (events : List Event) (event : Event) :
    known (events ++ [event]) = known events ++ event.names := by
  simp [known]

theorem mem_declarations {events : List Event} {value : Shared} :
    value ∈ declarations events ↔ .declared value ∈ events := by
  unfold declarations
  rw [List.mem_filterMap]
  constructor
  · rintro ⟨event, hmem, heq⟩
    cases event with
    | declared other =>
        cases heq
        exact hmem
    | reserved names => cases heq
    | named hint answer => cases heq
  · exact fun hmem => ⟨_, hmem, rfl⟩

theorem keys_concat {event : Event} (h : event.declaration? = none) (events : List Event) :
    keys (events ++ [event]) = keys events := by
  simp [keys, declarations, List.filterMap_append, h]

theorem keys_concat_declared (events : List Event) (value : Shared) :
    keys (events ++ [.declared value]) = keys events ++ [value.key] := by
  simp [keys, declarations, declaration?]

theorem FirstDeclared.append {events : List Event} {value : Shared}
    (h : FirstDeclared events value) (more : List Event) :
    FirstDeclared (events ++ more) value := by
  obtain ⟨before, after, rfl, hkey⟩ := h
  exact ⟨before, after ++ more, by simp, hkey⟩

end Event

namespace Scope

/-- The answer to a request, and the scope after it. -/
def serve (scope : Scope) : Request → Event × Scope
  | .reserve names => (.reserved names, scope.reserve names)
  | .fresh hint => (.named hint (scope.fresh hint).1, (scope.fresh hint).2)
  | .declare key init =>
    (.declared ⟨key, (scope.declare key init).1, init⟩, (scope.declare key init).2)

/-- The answers to requests in a row, and the scope after them. -/
def serveAll (scope : Scope) : List Request → List Event × Scope
  | [] => ([], scope)
  | request :: requests =>
    let first := scope.serve request
    let others := first.2.serveAll requests
    (first.1 :: others.1, others.2)

/-- There is a candidate for the hint that is not used and that the search can count to. -/
def Available (used : List Text) (hint : Text) : Prop :=
  ∃ i < maxNumber, candidate (stem hint) i ∉ used

/-- Whenever a name was introduced, a candidate was free that the search could count to. -/
def Answered (events : List Event) : Prop :=
  ∀ before event after, events = before ++ event :: after →
    ∀ hint, event.hint? (Event.keys before) = some hint → Available (Event.known before) hint

theorem answered_concat {events : List Event} {event : Event} :
    Answered (events ++ [event]) ↔ Answered events ∧
      ∀ hint, event.hint? (Event.keys events) = some hint →
        Available (Event.known events) hint := by
  constructor
  · intro h
    refine ⟨fun before other after heq => h before other (after ++ [event]) (by simp [heq]), ?_⟩
    exact h events event [] rfl
  · rintro ⟨h, hlast⟩ before other after heq
    rcases List.eq_nil_or_concat' after with rfl | ⟨middle, last, rfl⟩
    · obtain ⟨rfl, rfl⟩ := List.append_inj' heq rfl |>.imp_right List.singleton_inj.mp
      exact hlast
    · rw [← List.cons_append, ← List.append_assoc] at heq
      exact h before other middle (List.append_inj' heq rfl).1

/-- The scope after the requests that are recorded. -/
structure Records (scope : Scope) (events : List Event) : Prop where
  taken : ∀ name, name ∈ scope.taken ↔ name ∈ Event.known events
  once : scope.taken.Nodup
  keys : scope.keys = (Event.keys events).eraseDups
  distinct : scope.keys.Nodup
  first : ∀ value ∈ scope.shared, Event.FirstDeclared events value
  /-- Every declaration was answered with the binding of the value that is shared. -/
  answered : ∀ value ∈ Event.declarations events,
    ∃ shared ∈ scope.shared, shared.key = value.key ∧ shared.binding = value.binding
  /-- No shared value has a name that was given back for a hint. -/
  apart : ∀ value ∈ scope.shared, ∀ hint answer, .named hint answer ∈ events →
    value.binding ≠ answer
  sound : scope.Sound
  ends : scope.exhausted = false ↔ Answered events

theorem nodup_take {scope : Scope} (h : scope.taken.Nodup) (name : Text) :
    (scope.take name).taken.Nodup := h.insert

theorem nodup_reserve {scope : Scope} (h : scope.taken.Nodup) (names : List Text) :
    (scope.reserve names).taken.Nodup := by
  induction names generalizing scope with
  | nil => exact h
  | cons name names ih => exact ih (nodup_take h name)

namespace Records

variable {scope : Scope} {events : List Event}

theorem mem_keys (h : scope.Records events) {key : Text} :
    key ∈ scope.keys ↔ key ∈ Event.keys events := by
  rw [h.keys, List.mem_eraseDups]

/-- A request for a name is answered if a candidate is free. -/
theorem fresh_ends (h : scope.Records events) (hint : Text) :
    (scope.fresh hint).2.exhausted = false ↔
      Answered events ∧ Available (Event.known events) hint := by
  rw [fresh_ends_iff, h.ends]
  simp only [h.taken, Available]

theorem reserve (h : scope.Records events) (names : List Text) :
    (scope.reserve names).Records (events ++ [.reserved names]) where
  taken := by
    intro name
    rw [mem_reserve, h.taken, Event.known_concat, List.mem_append, or_comm]
    rfl
  once := nodup_reserve h.once names
  keys := by
    rw [Scope.keys, reserve_shared, Event.keys_concat rfl]
    exact h.keys
  distinct := by
    rw [Scope.keys, reserve_shared]
    exact h.distinct
  first := by
    rw [reserve_shared]
    exact fun value hvalue => (h.first value hvalue).append _
  answered := by
    rw [reserve_shared]
    simpa [Event.mem_declarations] using h.answered
  apart := by
    rw [reserve_shared]
    simpa using h.apart
  sound := h.sound.reserve names
  ends := by
    rw [reserve_exhausted, h.ends, answered_concat]
    refine (and_iff_left ?_).symm
    intro hint hhint
    cases hhint

theorem fresh (h : scope.Records events) (hint : Text) :
    (scope.fresh hint).2.Records (events ++ [.named hint (scope.fresh hint).1]) where
  taken := by
    intro name
    rw [mem_fresh, h.taken, Event.known_concat, List.mem_append, or_comm]
    simp [Event.names]
  once := nodup_take h.once _
  keys := by
    rw [Event.keys_concat rfl]
    exact h.keys
  distinct := h.distinct
  first := fun value hvalue => (h.first value hvalue).append _
  answered := by simpa [Event.mem_declarations] using h.answered
  apart := by
    intro value hvalue other answer hmem
    rcases List.mem_append.mp hmem with hmem | hmem
    · exact h.apart value hvalue other answer hmem
    · -- the new name was not taken, those of shared values are
      cases List.mem_singleton.mp hmem
      rintro heq
      exact scope.fresh_not_taken hint (heq ▸ h.sound.taken value hvalue)
  sound := (allocates_fresh hint scope).sound h.sound
  ends := by
    rw [h.fresh_ends, answered_concat]
    simp [Event.hint?]

/-- A key that was declared before is answered with the binding of its value. -/
theorem declare_known (h : scope.Records events) {key : Text} {value : Shared}
    (hvalue : scope.shared? key = some value) (init : SharedInit) :
    (scope.declare key init).2.Records
      (events ++ [.declared ⟨key, (scope.declare key init).1, init⟩]) := by
  rw [declare_of_shared? hvalue]
  obtain ⟨hmem, hkey⟩ := shared?_spec hvalue
  exact {
    taken := by
      intro name
      have hknown : value.binding.name ∈ Event.known events :=
        (h.taken _).mp (h.sound.taken value hmem)
      rw [h.taken, Event.known_concat, List.mem_append]
      refine ⟨Or.inl, ?_⟩
      rintro (hname | hname)
      · exact hname
      · rw [List.mem_singleton.mp hname]
        exact hknown
    once := h.once
    keys := by
      have hold : key ∈ Event.keys events := h.mem_keys.mp (Scope.mem_keys.mpr ⟨value, hvalue⟩)
      rw [h.keys, Event.keys_concat_declared, List.eraseDups_append]
      simp [List.removeAll, hold]
    distinct := h.distinct
    first := fun other hother => (h.first other hother).append _
    answered := by
      intro other hother
      rw [Event.mem_declarations, List.mem_append, List.mem_singleton] at hother
      rcases hother with hother | hother
      · exact h.answered other (Event.mem_declarations.mpr hother)
      · cases hother
        exact ⟨value, hmem, hkey, rfl⟩
    apart := by simpa using h.apart
    sound := h.sound
    ends := by
      have hold : key ∈ Event.keys events := h.mem_keys.mp (Scope.mem_keys.mpr ⟨value, hvalue⟩)
      rw [h.ends, answered_concat]
      simp [Event.hint?, hold] }

/-- A key that was not declared before gets a name of its own. -/
theorem declare_new (h : scope.Records events) {key : Text} (hnone : scope.shared? key = none)
    (init : SharedInit) :
    (scope.declare key init).2.Records
      (events ++ [.declared ⟨key, (scope.declare key init).1, init⟩]) := by
  obtain ⟨hshared, hbinding⟩ := declare_of_shared?_eq_none hnone init
  have htaken : (scope.declare key init).2.taken = (scope.fresh key).2.taken := by
    rw [declare, hnone]
  have hnew : key ∉ Event.keys events := by
    rw [← h.mem_keys, Scope.mem_keys, hnone]
    simp
  have hmem : ∀ value, value ∈ (scope.declare key init).2.shared ↔
      value ∈ scope.shared ∨ value = ⟨key, (scope.fresh key).1, init⟩ := by
    intro value
    rw [hshared, List.mem_append, List.mem_singleton]
  rw [hbinding]
  exact {
    taken := by
      intro name
      rw [htaken, mem_fresh, h.taken, Event.known_concat, List.mem_append, or_comm]
      simp [Event.names]
    once := by
      rw [htaken]
      exact nodup_take h.once _
    keys := by
      have hkeys : (scope.declare key init).2.keys = scope.keys ++ [key] := by
        simp [Scope.keys, hshared]
      rw [hkeys, h.keys, Event.keys_concat_declared, List.eraseDups_append]
      simp [List.removeAll, hnew, List.eraseDups_cons]
    distinct := nodup_keys_declare key init h.distinct
    first := by
      intro value hvalue
      rcases (hmem value).mp hvalue with hvalue | rfl
      · exact (h.first value hvalue).append _
      · exact ⟨events, [], rfl, hnew⟩
    answered := by
      intro value hvalue
      rw [Event.mem_declarations, List.mem_append, List.mem_singleton] at hvalue
      rcases hvalue with hvalue | hvalue
      · obtain ⟨shared, hold, hsame⟩ := h.answered value (Event.mem_declarations.mpr hvalue)
        exact ⟨shared, (hmem shared).mpr (.inl hold), hsame⟩
      · cases hvalue
        exact ⟨_, (hmem _).mpr (.inr rfl), rfl, rfl⟩
    apart := by
      intro value hvalue hint answer hanswer
      have hanswer : .named hint answer ∈ events := by simpa using hanswer
      rcases (hmem value).mp hvalue with hvalue | rfl
      · exact h.apart value hvalue hint answer hanswer
      · -- a name that was given back is recorded, so it is not chosen again
        rintro rfl
        refine scope.fresh_not_taken key ((h.taken _).mpr ?_)
        exact List.mem_flatMap.mpr ⟨_, hanswer, List.mem_singleton.mpr rfl⟩
    sound := (allocates_declare key init scope).sound h.sound
    ends := by
      have hends : (scope.declare key init).2.exhausted = (scope.fresh key).2.exhausted := by
        rw [declare, hnone]
      rw [hends, h.fresh_ends, answered_concat]
      simp [Event.hint?, hnew] }

/-- **One request** and its answer are added to the record. -/
theorem serve (h : scope.Records events) (request : Request) :
    (scope.serve request).2.Records (events ++ [(scope.serve request).1]) := by
  cases request with
  | reserve names => exact h.reserve names
  | fresh hint => exact h.fresh hint
  | declare key init =>
      cases hvalue : scope.shared? key with
      | some value => exact h.declare_known hvalue init
      | none => exact h.declare_new hvalue init

/-- **Any number of requests** are recorded one after the other. -/
theorem serveAll (h : scope.Records events) (requests : List Request) :
    (scope.serveAll requests).2.Records (events ++ (scope.serveAll requests).1) := by
  induction requests generalizing scope events with
  | nil =>
      rw [Scope.serveAll, List.append_nil]
      exact h
  | cons request requests ih =>
      have hrest := ih (h.serve request)
      rw [List.append_assoc, List.singleton_append] at hrest
      exact hrest

end Records

/-- A declared name that is reserved afterwards stays with its key, and is passed over for hints. -/
example :
    let key := "p".toList
    (empty.serveAll [.declare key (.helper .onLoad), .reserve ["_p".toList, "_p2".toList],
      .fresh key, .declare key (.literal [])]).1.map Event.names
      = [["_p"], ["_p", "_p2"], ["_p3"], ["_p"]].map (List.map String.toList) := by
  decide +kernel

end Scope
end Hypertext
