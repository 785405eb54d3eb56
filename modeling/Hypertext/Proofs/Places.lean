import Hypertext.Proofs.Barren

set_option autoImplicit false

/-! # The places the scanner comes to

The scanner reads one piece of a script after the other, and at every place there is at most one
piece for it to read. So its way through a script is determined by the script, and can be followed
from any place on it: what is read from there on is what the scan finds behind that place
(`Reaches.finish`).
-/

namespace Hypertext
namespace Script

open Lexeme

/-! ## Rules that are repeated -/

namespace Rule

variable {α : Type} {p : Rule α} {cursor middle next : Cursor} {found others : List α}

theorem Reads.unique {a b : α} (h : p.Reads cursor a next) (h' : p.Reads cursor b middle) :
    a = b ∧ next = middle := by
  rw [Reads, h, Option.some.injEq, Prod.mk.injEq] at h'
  exact h'

namespace ReadsAll

theorem append (h : p.ReadsAll cursor found middle) (h' : p.ReadsAll middle others next) :
    p.ReadsAll cursor (found ++ others) next := by
  induction h with
  | nil _ => exact h'
  | cons first _ ih => exact .cons first (ih h')

theorem concat {a : α} (h : p.ReadsAll cursor found middle) (h' : p.Reads middle a next) :
    p.ReadsAll cursor (found ++ [a]) next :=
  h.append (.cons h' (.nil next))

theorem mem {a : α} (h : p.ReadsAll cursor found next) (ha : a ∈ found) :
    ∃ before start stop, p.ReadsAll cursor before start ∧ p.Reads start a stop := by
  induction h with
  | nil _ => cases ha
  | cons first _ ih =>
      rcases List.mem_cons.mp ha with rfl | ha
      · exact ⟨[], _, _, .nil _, first⟩
      · obtain ⟨before, start, stop, hbefore, hreads⟩ := ih ha
        exact ⟨_ :: before, start, stop, .cons first hbefore, hreads⟩

/-- Of two ways from one place, one that ends where nothing can be read goes on from the end of the
other. -/
theorem resume {all : List α} (h : p.ReadsAll cursor found middle)
    (hall : p.ReadsAll cursor all next) (hstop : (p next).result = none) :
    ∃ others, all = found ++ others ∧ p.ReadsAll middle others next := by
  induction h generalizing all with
  | nil _ => exact ⟨all, rfl, hall⟩
  | cons first _ ih =>
      cases hall with
      | nil =>
          rw [Reads, hstop] at first
          cases first
      | cons first' rest' =>
          obtain ⟨rfl, rfl⟩ := first.unique first'
          obtain ⟨others, rfl, hothers⟩ := ih rest'
          exact ⟨others, rfl, hothers⟩

/-- There is only one way to where nothing can be read. -/
theorem unique (h : p.ReadsAll cursor found middle) (hmiddle : (p middle).result = none)
    (h' : p.ReadsAll cursor others next) (hnext : (p next).result = none) : found = others := by
  obtain ⟨more, rfl, hmore⟩ := h.resume h' hnext
  cases hmore with
  | nil => rw [List.append_nil]
  | cons first _ =>
      rw [Reads, hmiddle] at first
      cases first

end ReadsAll

/-- Repeating a rule never fails. -/
theorem many_reads (p : Rule α) (cursor : Cursor) :
    ∃ found next, (many p).Reads cursor found next := by
  have hupTo : ∀ fuel (cursor : Cursor), ∃ found next, (upTo p fuel).Reads cursor found next := by
    intro fuel
    induction fuel with
    | zero => exact fun cursor => ⟨[], cursor, rfl⟩
    | succ fuel ih =>
        intro cursor
        cases hfirst : (p cursor).result with
        | none => exact ⟨[], cursor, by rw [Reads, upTo_succ, hfirst]⟩
        | some result =>
            obtain ⟨others, next, hothers⟩ := ih result.2
            exact ⟨_, next, reads_upTo_cons hfirst hothers⟩
  exact hupTo _ cursor

/-- A rule that takes at least one character each time. -/
def Takes (p : Rule α) : Prop :=
  ∀ cursor a next, p.Reads cursor a next → ∃ t, cursor.Advances t next ∧ t ≠ []

theorem Takes.shorter (h : Takes p) {a : α} (hreads : p.Reads cursor a next) :
    next.rest.length < cursor.rest.length := by
  obtain ⟨t, hadvances, hne⟩ := h cursor a next hreads
  have hpos := List.length_pos_iff.mpr hne
  rw [hadvances.rest, List.length_append]
  omega

theorem Takes.readsAll (h : Takes p) (hreads : p.ReadsAll cursor found next) :
    ∃ t, cursor.Advances t next := by
  refine hreads.advances fun cursor a next hfirst => ?_
  obtain ⟨t, hadvances, -⟩ := h cursor a next hfirst
  exact ⟨t, hadvances⟩

/-- A rule that takes characters is repeated until it fails. -/
theorem reads_many_iff (h : Takes p) :
    (many p).Reads cursor found next ↔ p.ReadsAll cursor found next ∧ (p next).result = none := by
  have hupTo : ∀ fuel (cursor : Cursor) found, cursor.rest.length < fuel →
      ((upTo p fuel).Reads cursor found next ↔
        p.ReadsAll cursor found next ∧ (p next).result = none) := by
    intro fuel
    induction fuel with
    | zero => exact fun _ _ hlt => absurd hlt (Nat.not_lt_zero _)
    | succ fuel ih =>
        intro cursor found hlt
        constructor
        · intro hreads
          refine ⟨readsAll_of_upTo hreads, ?_⟩
          rw [Reads, upTo_succ] at hreads
          cases hfirst : (p cursor).result with
          | none =>
              rw [hfirst] at hreads
              cases hreads
              exact hfirst
          | some result =>
              obtain ⟨a, middle⟩ := result
              rw [hfirst] at hreads
              obtain ⟨⟨others, after⟩, hothers, heq⟩ := Option.map_eq_some_iff.mp hreads
              cases heq
              have hshorter := h.shorter hfirst
              exact ((ih middle others (by omega)).mp hothers).2
        · rintro ⟨hreads, hstop⟩
          cases hreads with
          | nil => rw [Reads, upTo_succ, hstop]
          | cons first rest =>
              have hshorter := h.shorter first
              exact reads_upTo_cons first ((ih _ _ (by omega)).mpr ⟨rest, hstop⟩)
  exact hupTo _ cursor found (Nat.lt_succ_self _)

/-! ## Words and chains of names -/

section

variable {offset : Nat} {rest : Text}

theorem run_reads {p : Char → Bool} {s : Text} (hs : ∀ c ∈ s, p c = true)
    (hrest : ∀ c ∈ rest.head?, p c = false) :
    (lexeme (run p)).Reads ⟨offset, s ++ rest⟩ s ⟨offset + s.byteSize, rest⟩ := by
  obtain ⟨htake, hdrop⟩ := span_append hs hrest
  refine lexeme_reads ?_
  rw [run, htake, hdrop]

theorem identifier_reads {w : Text} (hw : IsWord w) (hrest : WordEnds rest) :
    identifier.Reads ⟨offset, w ++ rest⟩ w ⟨offset + w.byteSize, rest⟩ :=
  reads_named.mpr (lexeme_reads (word_append hw hrest))

end

/-- One further name in a chain. -/
def furtherName : Rule Text := do
  let _ ← spaces
  let _ ← exactly "."
  let _ ← spaces
  identifier

theorem memberPath_eq : memberPath = named .memberPath (do
    let first ← identifier
    let others ← many furtherName
    return .path (first :: others)) :=
  rfl

theorem takes_furtherName : Takes furtherName := by
  intro cursor name next h
  simp only [furtherName, reads_bind] at h
  obtain ⟨s₁, c₁, hs₁, _, c₂, hdot, s₂, c₃, hs₂, hname⟩ := h
  obtain ⟨hname, hword⟩ := identifier_spec hname
  exact ⟨_, (run_spec hs₁).1.trans ((exactly_spec hdot).2.trans ((run_spec hs₂).1.trans hname)),
    by simp⟩

end Rule

/-! ## Pieces of a script -/

theorem IsWord.ne_nil {w : Text} (h : IsWord w) : w ≠ [] := by
  rintro rfl
  cases h

theorem ModuleBinding.Spells.ne_nil {name moduleName t : Text} {kind : BindingKind}
    (h : ModuleBinding.Spells name moduleName kind t) : t ≠ [] := by
  cases h with
  | importDeclaration => exact List.cons_ne_nil _ _
  | declaration hkeyword => rcases hkeyword with rfl | rfl | rfl <;> exact List.cons_ne_nil _ _
  | declarator hname => exact List.append_ne_nil_of_left_ne_nil hname.ne_nil _

theorem Item.Spells.ne_nil {offset : Nat} {found : Item} {t : Text} (h : found.Spells offset t) :
    t ≠ [] := by
  cases h with
  | binding h _ => exact h.ne_nil
  | template _ _ _ => simp

theorem Inert.ne_nil {after t : Text} (h : Inert after t) : t ≠ [] := by
  rintro rfl
  cases h

namespace Rule

theorem otherCharacter_cons (c : Char) (t : Text) :
    otherCharacter (c :: t) = if isPlain c then some ([c], t) else none := by
  rw [otherCharacter, isPlain]
  cases c == '\x60' || c == '"' || c == '\x27' <;> rfl

theorem otherCharacter_eq_some {t taken rest : Text} (h : otherCharacter t = some (taken, rest)) :
    ∃ c, isPlain c = true ∧ t = c :: rest ∧ taken = [c] := by
  cases t with
  | nil => cases h
  | cons c t =>
      rw [otherCharacter_cons] at h
      split at h
      · next hc =>
          cases h
          exact ⟨c, hc, rfl, rfl⟩
      · cases h

theorem splits_otherCharacter : Splits otherCharacter := by
  intro t taken rest h
  obtain ⟨c, -, rfl, rfl⟩ := otherCharacter_eq_some h
  rfl

/-- **Every step of the scanner takes something.** -/
theorem takes_item : Takes item := by
  intro cursor found next h
  simp only [item, reads_orElse, reads_bind, reads_pure] at h
  rcases h with h | ⟨-, h | ⟨-, h | ⟨-, h | ⟨-, h | ⟨-, h | ⟨-, h | ⟨-, h⟩⟩⟩⟩⟩⟩⟩
  all_goals obtain ⟨t, _, hread, rfl, rfl⟩ := h
  · have hne := (inert_comment (reads_lexeme.mp hread).1).ne_nil
    exact ⟨t, advances_lexeme splits_comment hread, hne⟩
  · obtain ⟨t, hadvances, hspells⟩ := importDeclaration_spec hread
    exact ⟨t, hadvances, hspells.ne_nil⟩
  · obtain ⟨lead, t, hadvances, -, hspells⟩ := requireDeclaration_spec hread
    exact ⟨_, hadvances, List.append_ne_nil_of_right_ne_nil lead hspells.ne_nil⟩
  · obtain ⟨t, hadvances, hspells⟩ := taggedTemplate_spec hread
    exact ⟨t, hadvances, hspells.ne_nil⟩
  · obtain ⟨t, hadvances, hspells⟩ := untaggedTemplate_spec hread
    exact ⟨t, hadvances, hspells.ne_nil⟩
  · exact ⟨t, advances_lexeme splits_string hread, (inert_string (reads_lexeme.mp hread).1).ne_nil⟩
  · obtain ⟨hadvances, hword⟩ := identifier_spec hread
    exact ⟨t, hadvances, hword.ne_nil⟩
  · obtain ⟨hread, hoffset⟩ := reads_lexeme.mp hread
    obtain ⟨c, -, hrest, rfl⟩ := otherCharacter_eq_some hread
    exact ⟨[c], ⟨hrest, hoffset⟩, List.cons_ne_nil _ _⟩

end Rule

/-- A scan is a way through the whole script. -/
theorem scan_eq_ok_iff_readsAll {source : Text} {items : List Item} :
    scan source = .ok items ↔ ∃ found next, Rule.item.ReadsAll ⟨0, source⟩ found next ∧
      next.rest = [] ∧ found.filterMap id = items := by
  rw [scan_eq_ok_iff]
  constructor
  · rintro ⟨found, next, hreads, hend, hitems⟩
    exact ⟨found, next, Rule.readsAll_of_many hreads, hend, hitems⟩
  · rintro ⟨found, ⟨offset, _⟩, hreads, rfl, hitems⟩
    refine ⟨found, _, (Rule.reads_many_iff Rule.takes_item).mpr ⟨hreads, ?_⟩, rfl, hitems⟩
    exact Rule.item_nil offset

/-! ## Places -/

/-- The scanner comes to a place of the script. -/
def Reaches (source : Text) (cursor : Cursor) : Prop :=
  ∃ found, Rule.item.ReadsAll ⟨0, source⟩ found cursor

namespace Reaches

variable {source : Text} {cursor next : Cursor} {items : List Item}

theorem step {found : Option Item} (h : Reaches source cursor)
    (hreads : Rule.item.Reads cursor found next) : Reaches source next := by
  obtain ⟨before, hbefore⟩ := h
  exact ⟨_, hbefore.concat hreads⟩

theorem advances (h : Reaches source cursor) :
    ∃ before, source = before ++ cursor.rest ∧ cursor.offset = Text.byteSize before := by
  obtain ⟨found, hfound⟩ := h
  obtain ⟨before, hadvances⟩ := Rule.takes_item.readsAll hfound
  refine ⟨before, hadvances.rest, ?_⟩
  rw [hadvances.offset, Nat.zero_add]

/-- From any place that the scanner comes to, it goes on to the end. -/
theorem finish (h : Reaches source cursor) (hscan : scan source = .ok items) :
    ∃ others last, Rule.item.ReadsAll cursor others last ∧ last.rest = [] ∧
      ∀ found ∈ others.filterMap id, found ∈ items := by
  obtain ⟨before, hbefore⟩ := h
  obtain ⟨all, ⟨offset, _⟩, hall, rfl, rfl⟩ := scan_eq_ok_iff_readsAll.mp hscan
  obtain ⟨others, rfl, hothers⟩ := hbefore.resume hall (Rule.item_nil offset)
  refine ⟨others, _, hothers, rfl, fun found hfound => ?_⟩
  rw [List.filterMap_append]
  exact List.mem_append_right _ hfound

/-- Something is read at every place that is not the end. -/
theorem reads (h : Reaches source cursor) (hscan : scan source = .ok items)
    (hne : cursor.rest ≠ []) : ∃ found next, Rule.item.Reads cursor found next := by
  obtain ⟨others, last, hothers, hend, -⟩ := h.finish hscan
  cases hothers with
  | nil => exact absurd hend hne
  | cons first _ => exact ⟨_, _, first⟩

theorem mem {found : Item} (h : Reaches source cursor) (hscan : scan source = .ok items)
    (hreads : Rule.item.Reads cursor (some found) next) : found ∈ items := by
  obtain ⟨others, ⟨offset, _⟩, hothers, rfl, hitems⟩ := h.finish hscan
  cases hothers with
  | nil =>
      rw [Rule.Reads, Rule.item_nil] at hreads
      cases hreads
  | cons first _ =>
      obtain ⟨rfl, -⟩ := first.unique hreads
      exact hitems found List.mem_cons_self

end Reaches

theorem exists_reaches_of_mem {source : Text} {items : List Item} {found : Item}
    (hscan : scan source = .ok items) (hmem : found ∈ items) :
    ∃ cursor next, Reaches source cursor ∧ Rule.item.Reads cursor (some found) next := by
  obtain ⟨all, last, hall, -, rfl⟩ := scan_eq_ok_iff_readsAll.mp hscan
  obtain ⟨_, hfound, rfl⟩ := List.mem_filterMap.mp hmem
  obtain ⟨before, start, stop, hbefore, hreads⟩ := hall.mem hfound
  exact ⟨start, stop, ⟨before, hbefore⟩, hreads⟩

end Script
end Hypertext
