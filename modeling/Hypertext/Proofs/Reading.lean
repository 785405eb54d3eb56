import Hypertext.Script.Grammar

set_option autoImplicit false

/-! # What a rule reads

A rule of the grammar either fails or reads something at a cursor and moves it on. Here every way to
put rules together is given as a law of `Rule.Reads`, so that what a rule of the grammar
reads can be taken apart into what its parts read, without looking at failed attempts.

`Cursor.Advances` is the invariant of all rules: a cursor only moves over text that stands there,
and its offset counts the bytes of it.
-/

namespace Hypertext
namespace Script

/-! ## Cursors -/

/-- The second cursor is the first one moved over the given text. -/
structure Cursor.Advances (cursor : Cursor) (taken : Text) (next : Cursor) : Prop where
  rest : cursor.rest = taken ++ next.rest
  offset : next.offset = cursor.offset + Text.byteSize taken

namespace Cursor.Advances

theorem refl (cursor : Cursor) : cursor.Advances [] cursor := ⟨rfl, rfl⟩

theorem trans {a b c : Cursor} {s t : Text} (h₁ : a.Advances s b) (h₂ : b.Advances t c) :
    a.Advances (s ++ t) c where
  rest := by rw [h₁.rest, h₂.rest, List.append_assoc]
  offset := by rw [h₂.offset, h₁.offset, Text.byteSize_append, Nat.add_assoc]

theorem cons {a b c : Cursor} {first : Char} {t : Text} (h₁ : a.Advances [first] b)
    (h₂ : b.Advances t c) : a.Advances (first :: t) c :=
  h₁.trans h₂

end Cursor.Advances

/-! ## Laws of rules -/

namespace Rule

variable {α β : Type}

/-- A rule reads `a` between two cursors. -/
def Reads (p : Rule α) (cursor : Cursor) (a : α) (next : Cursor) : Prop :=
  (p cursor).result = some (a, next)

instance [DecidableEq α] (p : Rule α) (cursor : Cursor) (a : α) (next : Cursor) :
    Decidable (p.Reads cursor a next) :=
  inferInstanceAs (Decidable ((p cursor).result = some (a, next)))

theorem reads_pure {a b : α} {cursor next : Cursor} :
    (Pure.pure a : Rule α).Reads cursor b next ↔ b = a ∧ next = cursor := by
  show some (a, cursor) = some (b, next) ↔ _
  rw [Option.some.injEq, Prod.mk.injEq]
  exact ⟨fun h => ⟨h.1.symm, h.2.symm⟩, fun h => ⟨h.1.symm, h.2.symm⟩⟩

theorem reads_bind {p : Rule α} {f : α → Rule β} {cursor next : Cursor} {b : β} :
    (p >>= f).Reads cursor b next ↔
      ∃ a middle, p.Reads cursor a middle ∧ (f a).Reads middle b next := by
  show (Rule.bind p f cursor).result = some (b, next) ↔ _
  unfold Rule.bind Reads
  cases h : (p cursor).result with
  | none => simp [h]
  | some result =>
      obtain ⟨a, middle⟩ := result
      simp only [h, Option.some.injEq, Prod.mk.injEq]
      constructor
      · intro hsecond
        exact ⟨a, middle, ⟨rfl, rfl⟩, hsecond⟩
      · rintro ⟨_, _, ⟨rfl, rfl⟩, hsecond⟩
        exact hsecond

theorem reads_orElse {p q : Rule α} {cursor next : Cursor} {a : α} :
    (p <|> q).Reads cursor a next ↔
      p.Reads cursor a next ∨ ((p cursor).result = none ∧ q.Reads cursor a next) := by
  show (Rule.orElse p (fun _ => q) cursor).result = some (a, next) ↔ _
  unfold Rule.orElse Reads
  cases h : (p cursor).result with
  | none => simp [h]
  | some result => simp [h]

theorem reads_named {expectation : Expectation} {p : Rule α} {cursor next : Cursor} {a : α} :
    (named expectation p).Reads cursor a next ↔ p.Reads cursor a next := by
  unfold named Reads
  cases h : (p cursor).result with
  | none => simp [h]
  | some result => simp [h]

theorem reads_ahead {p : Rule α} {cursor next : Cursor} {u : Unit} :
    (ahead p).Reads cursor u next ↔ next = cursor ∧ ∃ a after, p.Reads cursor a after := by
  unfold ahead Reads
  cases h : (p cursor).result with
  | none => simp [h]
  | some result =>
      obtain ⟨a, after⟩ := result
      simp [h, eq_comm]

theorem reads_maybe {p : Rule α} {cursor next : Cursor} {u : Unit} :
    (maybe p).Reads cursor u next ↔
      (∃ a, p.Reads cursor a next) ∨ ((p cursor).result = none ∧ next = cursor) := by
  unfold maybe Reads
  cases h : (p cursor).result with
  | none => simp [h, eq_comm]
  | some result =>
      obtain ⟨a, after⟩ := result
      simp [h]

theorem reads_lexeme {reader : Lexeme.Reader} {cursor next : Cursor} {t : Text} :
    (lexeme reader).Reads cursor t next ↔
      reader cursor.rest = some (t, next.rest) ∧
        next.offset = cursor.offset + Text.byteSize t := by
  unfold lexeme Reads
  cases h : reader cursor.rest with
  | none => simp [h]
  | some result =>
      obtain ⟨taken, rest⟩ := result
      obtain ⟨offset, after⟩ := next
      simp only [h, Option.some.injEq, Prod.mk.injEq, Cursor.mk.injEq]
      constructor
      · rintro ⟨rfl, rfl, rfl⟩
        exact ⟨⟨rfl, rfl⟩, rfl⟩
      · rintro ⟨⟨rfl, rfl⟩, rfl⟩
        exact ⟨rfl, rfl, rfl⟩

theorem lexeme_reads {reader : Lexeme.Reader} {offset : Nat} {t taken rest : Text}
    (h : reader t = some (taken, rest)) :
    (lexeme reader).Reads ⟨offset, t⟩ taken ⟨offset + taken.byteSize, rest⟩ :=
  reads_lexeme.mpr ⟨h, rfl⟩

theorem reads_offset {cursor next : Cursor} {n : Nat} :
    offset.Reads cursor n next ↔ n = cursor.offset ∧ next = cursor := by
  show some (cursor.offset, cursor) = some (n, next) ↔ _
  rw [Option.some.injEq, Prod.mk.injEq]
  exact ⟨fun h => ⟨h.1.symm, h.2.symm⟩, fun h => ⟨h.1.symm, h.2.symm⟩⟩

theorem reads_endOfInput {cursor next : Cursor} {u : Unit} :
    endOfInput.Reads cursor u next ↔ cursor.rest = [] ∧ next = cursor := by
  refine reads_named.trans ?_
  show (if cursor.rest.isEmpty then some ((), cursor) else none) = some (u, next) ↔ _
  by_cases h : cursor.rest = []
  · simp [h, eq_comm]
  · simp [h]

/-! ## Repeated rules -/

/-- A rule reads several times in a row. -/
inductive ReadsAll (p : Rule α) : Cursor → List α → Cursor → Prop where
  | nil (cursor : Cursor) : ReadsAll p cursor [] cursor
  | cons {cursor middle next : Cursor} {a : α} {rest : List α} (first : p.Reads cursor a middle)
      (others : ReadsAll p middle rest next) : ReadsAll p cursor (a :: rest) next

/-- If a rule moves the cursor over text that stands there, so does reading several times. -/
theorem ReadsAll.advances {p : Rule α}
    (hp : ∀ cursor a next, p.Reads cursor a next → ∃ t, cursor.Advances t next)
    {cursor next : Cursor} {results : List α} (h : p.ReadsAll cursor results next) :
    ∃ t, cursor.Advances t next := by
  induction h with
  | nil cursor => exact ⟨[], .refl cursor⟩
  | cons first _ ih =>
      obtain ⟨s, hs⟩ := hp _ _ _ first
      obtain ⟨t, ht⟩ := ih
      exact ⟨s ++ t, hs.trans ht⟩

theorem upTo_succ (p : Rule α) (fuel : Nat) (cursor : Cursor) :
    (upTo p (fuel + 1) cursor).result = match (p cursor).result with
      | none => some ([], cursor)
      | some (a, next) =>
        (upTo p fuel next).result.map fun others => (a :: others.1, others.2) := by
  cases h : (p cursor).result with
  | none => simp [upTo, h]
  | some result => simp [upTo, h]

theorem readsAll_of_upTo {p : Rule α} {fuel : Nat} {cursor next : Cursor} {results : List α}
    (h : (upTo p fuel).Reads cursor results next) : p.ReadsAll cursor results next := by
  induction fuel generalizing cursor results with
  | zero =>
      obtain ⟨rfl, rfl⟩ := reads_pure.mp h
      exact .nil _
  | succ fuel ih =>
      rw [Reads, upTo_succ] at h
      cases hfirst : (p cursor).result with
      | none =>
          rw [hfirst] at h
          cases h
          exact .nil _
      | some result =>
          obtain ⟨a, middle⟩ := result
          rw [hfirst] at h
          obtain ⟨⟨others, after⟩, hothers, heq⟩ := Option.map_eq_some_iff.mp h
          cases heq
          exact .cons hfirst (ih hothers)

theorem readsAll_of_many {p : Rule α} {cursor next : Cursor} {results : List α}
    (h : (many p).Reads cursor results next) : p.ReadsAll cursor results next :=
  readsAll_of_upTo h

end Rule

theorem toOption_eq_some_iff {ε α : Type} {x : Except ε α} {a : α} :
    x.toOption = some a ↔ x = .ok a := by
  cases x <;> simp [Except.toOption]

/-- A script is scanned by reading items, as often as there are any, up to its end. -/
theorem scan_eq_ok_iff {source : Text} {items : List Item} :
    scan source = .ok items ↔ ∃ found next,
      (Rule.many Rule.item).Reads ⟨0, source⟩ found next ∧ next.rest = [] ∧
        found.filterMap id = items := by
  have hfile : scan source = .ok items ↔ ∃ next, Rule.file.Reads ⟨0, source⟩ items next := by
    unfold scan Rule.Reads
    cases hresult : (Rule.file ⟨0, source⟩).result with
    | none => simp [hresult]
    | some result => simp [hresult, Prod.ext_iff]
  rw [hfile]
  simp only [Rule.file, Rule.reads_named, Rule.reads_bind, Rule.reads_endOfInput, Rule.reads_pure]
  constructor
  · rintro ⟨_, found, middle, hfound, _, _, ⟨hend, rfl⟩, hitems, -⟩
    exact ⟨found, _, hfound, hend, hitems.symm⟩
  · rintro ⟨found, next, hfound, hend, hitems⟩
    exact ⟨next, found, next, hfound, (), next, ⟨hend, rfl⟩, hitems.symm, rfl⟩

end Script
end Hypertext
