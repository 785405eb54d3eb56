import Hypertext.Proofs.Shifted
import Hypertext.Proofs.Places

set_option autoImplicit false

/-! # Rules at two places

Two scripts that are alike are read alike. To say so, let `R` relate the places of one script to
those of the other. Two rules agree if at related places they both fail, or both read and come to
related places again (`Rule.Agrees`). Agreement is closed under all ways to put rules together, so
that it only has to be proved for the smallest ones.
-/

namespace Hypertext
namespace Script
namespace Rule

variable {α β γ δ : Type} {R : Cursor → Cursor → Prop} {S : α → β → Prop} {T : γ → δ → Prop}

/-- At two places, both rules fail, or both read; `S` relates what they read. -/
def AgreesAt (R : Cursor → Cursor → Prop) (S : α → β → Prop) (p : Rule α) (q : Rule β)
    (left right : Cursor) : Prop :=
  Option.Rel (fun a b => S a.1 b.1 ∧ R a.2 b.2) (p left).result (q right).result

/-- Two rules agree at all related places. -/
def Agrees (R : Cursor → Cursor → Prop) (S : α → β → Prop) (p : Rule α) (q : Rule β) : Prop :=
  ∀ left right, R left right → AgreesAt R S p q left right

namespace AgreesAt

variable {p p' : Rule α} {q q' : Rule β} {left right : Cursor}

theorem of_fails (h : (p left).result = none) (h' : (q right).result = none) :
    AgreesAt R S p q left right := by
  rw [AgreesAt, h, h']
  exact .none

theorem of_reads {a : α} {b : β} {next next' : Cursor} (h : p.Reads left a next)
    (h' : q.Reads right b next') (hvalue : S a b) (hplace : R next next') :
    AgreesAt R S p q left right := by
  rw [AgreesAt, h, h']
  exact .some ⟨hvalue, hplace⟩

theorem reads (h : AgreesAt R S p q left right) {a : α} {next : Cursor}
    (hreads : p.Reads left a next) :
    ∃ b next', q.Reads right b next' ∧ S a b ∧ R next next' := by
  unfold AgreesAt at h
  rw [hreads] at h
  cases hq : (q right).result with
  | none =>
      rw [hq] at h
      cases h
  | some found =>
      rw [hq] at h
      cases h with
      | some h => exact ⟨found.1, found.2, hq, h.1, h.2⟩

theorem fails (h : AgreesAt R S p q left right) (hfails : (p left).result = none) :
    (q right).result = none := by
  unfold AgreesAt at h
  rw [hfails] at h
  cases hq : (q right).result with
  | none => rfl
  | some found =>
      rw [hq] at h
      cases h

/-- What one rule reads the other does, and the other reads nothing else. -/
theorem of_forall (h : ∀ a next, p.Reads left a next →
      ∃ b next', q.Reads right b next' ∧ S a b ∧ R next next')
    (h' : ∀ b next', q.Reads right b next' → ∃ a next, p.Reads left a next) :
    AgreesAt R S p q left right := by
  cases hp : (p left).result with
  | none =>
      refine of_fails hp (result_eq_none fun b next' hreads => ?_)
      obtain ⟨a, next, hreads⟩ := h' b next' hreads
      rw [Reads, hp] at hreads
      cases hreads
  | some found =>
      obtain ⟨b, next', hq, hvalue, hplace⟩ := h found.1 found.2 hp
      exact of_reads hp hq hvalue hplace

theorem orElse (h : AgreesAt R S p q left right)
    (h' : (p left).result = none → AgreesAt R S p' q' left right) :
    AgreesAt R S (p <|> p') (q <|> q') left right := by
  cases hp : (p left).result with
  | none =>
      have h' := h' hp
      unfold AgreesAt at h' ⊢
      rw [orElse_result, orElse_result, hp, h.fails hp]
      exact h'
  | some found =>
      obtain ⟨b, next, hq, hvalue, hplace⟩ := h.reads hp
      exact of_reads (reads_orElse.mpr (.inl hp)) (reads_orElse.mpr (.inl hq)) hvalue hplace

theorem bind {f : α → Rule γ} {g : β → Rule δ} (h : AgreesAt R S p q left right)
    (hnext : ∀ a b next next', p.Reads left a next → S a b → R next next' →
      AgreesAt R T (f a) (g b) next next') :
    AgreesAt R T (p >>= f) (q >>= g) left right := by
  refine of_forall (fun c next hreads => ?_) fun d next' hreads => ?_
  · obtain ⟨a, middle, hp, hf⟩ := reads_bind.mp hreads
    obtain ⟨b, middle', hq, hvalue, hplace⟩ := h.reads hp
    obtain ⟨d, next', hg, hresult⟩ := (hnext a b _ _ hp hvalue hplace).reads hf
    exact ⟨d, next', reads_bind.mpr ⟨b, middle', hq, hg⟩, hresult⟩
  · -- back to the left: neither part can fail there, because it would fail here as well
    obtain ⟨b, middle', hq, hg⟩ := reads_bind.mp hreads
    cases hp : (p left).result with
    | none =>
        rw [Reads, h.fails hp] at hq
        cases hq
    | some found =>
        obtain ⟨b', middle'', hq', hvalue, hplace⟩ := h.reads hp
        obtain ⟨rfl, rfl⟩ := hq.unique hq'
        have hagrees := hnext found.1 b _ _ hp hvalue hplace
        cases hf : (f found.1 found.2).result with
        | none =>
            rw [Reads, hagrees.fails hf] at hg
            cases hg
        | some result => exact ⟨result.1, result.2, reads_bind.mpr ⟨_, _, hp, hf⟩⟩

theorem named (expectation : Expectation) (h : AgreesAt R S p q left right) :
    AgreesAt R S (Rule.named expectation p) (Rule.named expectation q) left right := by
  have hresult {α : Type} (p : Rule α) (cursor : Cursor) :
      (Rule.named expectation p cursor).result = (p cursor).result :=
    Option.ext fun _ => reads_named
  rw [AgreesAt, hresult, hresult]
  exact h

theorem maybe (h : AgreesAt R S p q left right) (hplace : R left right) :
    AgreesAt R Eq (Rule.maybe p) (Rule.maybe q) left right := by
  have hvalue : () = () := rfl
  cases hp : (p left).result with
  | none =>
      exact of_reads (reads_maybe.mpr (.inr ⟨hp, rfl⟩)) (reads_maybe.mpr (.inr ⟨h.fails hp, rfl⟩))
        hvalue hplace
  | some found =>
      obtain ⟨b, next, hq, -, hplace⟩ := h.reads hp
      exact of_reads (reads_maybe.mpr (.inl ⟨_, hp⟩)) (reads_maybe.mpr (.inl ⟨_, hq⟩)) hvalue hplace

theorem ahead (h : (∃ a next, p.Reads left a next) ↔ ∃ b next, q.Reads right b next)
    (hplace : R left right) : AgreesAt R Eq (Rule.ahead p) (Rule.ahead q) left right := by
  refine of_forall (fun _ next hreads => ?_) fun _ next hreads => ?_
  · obtain ⟨rfl, hfound⟩ := reads_ahead.mp hreads
    exact ⟨(), right, reads_ahead.mpr ⟨rfl, h.mp hfound⟩, rfl, hplace⟩
  · obtain ⟨-, hfound⟩ := reads_ahead.mp hreads
    exact ⟨(), left, reads_ahead.mpr ⟨rfl, h.mpr hfound⟩⟩

end AgreesAt

namespace Agrees

variable {p p' : Rule α} {q q' : Rule β}

theorem pure {a : α} {b : β} (h : S a b) : Agrees R S (Pure.pure a) (Pure.pure b) :=
  fun _ _ hplace => .of_reads (reads_pure.mpr ⟨rfl, rfl⟩) (reads_pure.mpr ⟨rfl, rfl⟩) h hplace

theorem bind {f : α → Rule γ} {g : β → Rule δ} (h : Agrees R S p q)
    (hnext : ∀ a b, S a b → Agrees R T (f a) (g b)) : Agrees R T (p >>= f) (q >>= g) :=
  fun left right hplace => (h left right hplace).bind fun a b _ _ _ hvalue => hnext a b hvalue _ _

theorem orElse (h : Agrees R S p q) (h' : Agrees R S p' q') :
    Agrees R S (p <|> p') (q <|> q') :=
  fun left right hplace => (h left right hplace).orElse fun _ => h' left right hplace

theorem named (expectation : Expectation) (h : Agrees R S p q) :
    Agrees R S (Rule.named expectation p) (Rule.named expectation q) :=
  fun left right hplace => (h left right hplace).named expectation

theorem offset (h : ∀ left right, R left right → left.offset = right.offset) :
    Agrees R Eq Rule.offset Rule.offset :=
  fun left right hplace => .of_reads (reads_offset.mpr ⟨rfl, rfl⟩) (reads_offset.mpr ⟨rfl, rfl⟩)
    (h left right hplace) hplace

theorem readsAll {p q : Rule α} (h : Agrees R Eq p q) {left right next : Cursor} {found : List α}
    (hplace : R left right) (hreads : p.ReadsAll left found next) :
    ∃ next', q.ReadsAll right found next' ∧ R next next' := by
  induction hreads generalizing right with
  | nil _ => exact ⟨right, .nil _, hplace⟩
  | cons first _ ih =>
      obtain ⟨_, middle, hfirst, rfl, hplace⟩ := (h _ _ hplace).reads first
      obtain ⟨next, hothers, hplace⟩ := ih hplace
      exact ⟨next, .cons hfirst hothers, hplace⟩

theorem many {p q : Rule α} (h : Agrees R Eq p q) (hp : Takes p) (hq : Takes q) :
    Agrees R Eq (Rule.many p) (Rule.many q) := by
  intro left right hplace
  obtain ⟨found, next, hfound⟩ := many_reads p left
  obtain ⟨hreads, hstop⟩ := (reads_many_iff hp).mp hfound
  obtain ⟨next', hreads', hplace⟩ := h.readsAll hplace hreads
  refine .of_reads hfound ((reads_many_iff hq).mpr ⟨hreads', ?_⟩) rfl hplace
  exact (h next next' hplace).fails hstop

end Agrees

end Rule
end Script
end Hypertext
