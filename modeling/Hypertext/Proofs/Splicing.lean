import Hypertext.Proofs.Tiling
import Hypertext.Script.Edit

set_option autoImplicit false

/-! # When edits can be applied

Edits are sorted and then applied from left to right. This works out exactly for separate edits:
each of them replaces a slice of the script, and in sorted order none begins before the one in front
of it has ended (`applyAll_isSome_iff`). To find out that edits are separate it is not necessary to
sort them, since of two edits that are apart the earlier one is sorted first.
-/

namespace Hypertext

/-! ## Sorted lists -/

section

variable {α : Type} {le : α → α → Bool} (total : ∀ a b, le a b = true ∨ le b a = true)
  (trans : ∀ a b c, le a b = true → le b c = true → le a c = true)

include total trans

theorem insertSorted_pairwise (a : α) {l : List α} (h : l.Pairwise fun x y => le x y = true) :
    (insertSorted le a l).Pairwise fun x y => le x y = true := by
  induction l with
  | nil => exact List.pairwise_singleton _ a
  | cons b rest ih =>
      obtain ⟨hb, hrest⟩ := List.pairwise_cons.mp h
      by_cases hab : le a b = true
      · rw [insertSorted, if_pos hab]
        refine List.pairwise_cons.mpr ⟨fun c hc => ?_, h⟩
        rcases List.mem_cons.mp hc with rfl | hc
        · exact hab
        · exact trans a b c hab (hb c hc)
      · rw [insertSorted, if_neg hab]
        refine List.pairwise_cons.mpr ⟨fun c hc => ?_, ih hrest⟩
        rcases List.mem_cons.mp ((insertSorted_perm le a rest).mem_iff.mp hc) with rfl | hc
        · exact (total c b).resolve_left hab
        · exact hb c hc

theorem sorted_pairwise (l : List α) : (sorted le l).Pairwise fun x y => le x y = true := by
  induction l with
  | nil => exact .nil
  | cons a rest ih => exact insertSorted_pairwise total trans a ih

end

/-! ## Places in a text -/

/-- Of two ways to take a text apart, the longer start begins with the shorter one. -/
theorem Text.append_eq_append_of_le {s₁ t₁ s₂ t₂ : Text} (h : s₁ ++ t₁ = s₂ ++ t₂)
    (hle : s₁.byteSize ≤ s₂.byteSize) : ∃ s, s₂ = s₁ ++ s ∧ t₁ = s ++ t₂ := by
  rcases List.append_eq_append_iff.mp h with ⟨s, hs₂, ht₁⟩ | ⟨s, hs₁, ht₂⟩
  · exact ⟨s, hs₂, ht₁⟩
  · have hsize : Text.byteSize s = 0 := by
      rw [hs₁, byteSize_append] at hle
      omega
    obtain rfl := eq_nil_of_byteSize_eq_zero hsize
    exact ⟨[], by simpa using hs₁.symm, by simpa using ht₂.symm⟩

namespace Script
namespace Edit

/-! ## Separate edits -/

/-- Two edits, neither of which begins inside of the other. -/
def Apart (a b : Edit) : Prop := a.span.stop ≤ b.span.start ∨ b.span.stop ≤ a.span.start

/-- Edits that replace slices of a script and do not overlap once they are sorted. -/
structure Separate (source : Text) (edits : List Edit) : Prop where
  inBounds : ∀ edit ∈ edits, (Span.slice? source edit.span).isSome = true
  inOrder : (sorted le edits).Pairwise fun a b => a.span.stop ≤ b.span.start

theorem le_iff {a b : Edit} : le a b = true ↔ a.span.start < b.span.start ∨
    (a.span.start = b.span.start ∧ a.span.stop ≤ b.span.stop) := by
  simp [le]

theorem sorted_le (edits : List Edit) : (sorted le edits).Pairwise fun a b => le a b = true := by
  refine sorted_pairwise ?_ ?_ edits
  · intro a b
    simp only [le_iff]
    omega
  · intro a b c
    simp only [le_iff]
    omega

/-- Edits that are apart from each other are separate, in whatever order they are given. -/
theorem separate_of_apart {source : Text} {edits : List Edit}
    (hbounds : ∀ edit ∈ edits, (Span.slice? source edit.span).isSome = true)
    (hapart : edits.Pairwise Apart) : Separate source edits := by
  refine ⟨hbounds, ?_⟩
  have hsymm : ∀ {a b : Edit}, Apart a b → Apart b a := fun h => h.symm
  have hperm := sorted_perm le edits
  have happart := (hperm.pairwise_iff hsymm).mpr hapart
  have hle := sorted_le edits
  refine (happart.and hle).imp_of_mem fun {a b} ha hb h => ?_
  obtain ⟨t, ht⟩ := Option.isSome_iff_exists.mp (hbounds b (hperm.mem_iff.mp hb))
  obtain ⟨before, after, -, hspan⟩ := Span.slice?_eq_some_iff.mp ht
  have hspan : b.span.start ≤ b.span.stop := by
    rw [hspan]
    exact Nat.le_add_right _ _
  have horder := le_iff.mp h.2
  -- if the second edit ended first, both would be insertions at one place
  rcases h.1 with h | h
  · exact h
  · omega

/-! ## Applying edits -/

/-- One step: an edit can be applied if its span takes what remains of the script apart, and the
others can be applied to what is left then. The result has the text of the edit for its span. -/
theorem applyFrom_cons_eq_some_iff {before rest result : Text} {edit : Edit} {edits : List Edit} :
    applyFrom (Text.byteSize before) rest (edit :: edits) = some result ↔
      ∃ kept t after tail, rest = kept ++ (t ++ after) ∧
        edit.span = ⟨Text.byteSize (before ++ kept), Text.byteSize (before ++ kept ++ t)⟩ ∧
        applyFrom (Text.byteSize (before ++ kept ++ t)) after edits = some tail ∧
        result = kept ++ edit.text ++ tail := by
  obtain ⟨⟨start, stop⟩, text⟩ := edit
  constructor
  · intro h
    unfold applyFrom at h
    dsimp only at h
    split at h
    · cases h
    split at h
    · cases h
    split at h
    · cases h
    next hrange _ kept tail hkept _ t after ht =>
      obtain ⟨rfl, hstart⟩ := Text.cut?_eq_some_iff.mp hkept
      obtain ⟨rfl, hstop⟩ := Text.cut?_eq_some_iff.mp ht
      obtain ⟨tail, htail, rfl⟩ := Option.map_eq_some_iff.mp h
      have hsize : stop = Text.byteSize (before ++ kept ++ t) := by
        rw [Text.byteSize_append, Text.byteSize_append]
        omega
      rw [hsize] at htail
      refine ⟨kept, t, after, tail, rfl, ?_, htail, rfl⟩
      rw [hsize, Text.byteSize_append before kept, hstart, Nat.add_sub_cancel' (by omega)]
  · rintro ⟨kept, t, after, tail, rfl, hspan, htail, rfl⟩
    obtain ⟨rfl, rfl⟩ := Span.mk.inj hspan
    have hkept : Text.cut? (Text.byteSize (before ++ kept) - Text.byteSize before)
        (kept ++ (t ++ after)) = some (kept, t ++ after) := by
      rw [Text.cut?_eq_some_iff, Text.byteSize_append, Nat.add_sub_cancel_left]
      exact ⟨rfl, rfl⟩
    have ht : Text.cut? (Text.byteSize (before ++ kept ++ t) - Text.byteSize (before ++ kept))
        (t ++ after) = some (t, after) := by
      rw [Text.cut?_eq_some_iff, Text.byteSize_append _ t, Nat.add_sub_cancel_left]
      exact ⟨rfl, rfl⟩
    have hrange : ¬(Text.byteSize (before ++ kept) < Text.byteSize before ∨
        Text.byteSize (before ++ kept ++ t) < Text.byteSize (before ++ kept)) := by
      simp only [Text.byteSize_append]
      omega
    simp only [applyFrom, hkept, ht]
    rw [if_neg hrange, htail]
    rfl

theorem applyFrom_cons_isSome_iff {before rest : Text} {edit : Edit} {edits : List Edit} :
    (applyFrom (Text.byteSize before) rest (edit :: edits)).isSome = true ↔
      ∃ kept t after, rest = kept ++ (t ++ after) ∧
        edit.span = ⟨Text.byteSize (before ++ kept), Text.byteSize (before ++ kept ++ t)⟩ ∧
        (applyFrom (Text.byteSize (before ++ kept ++ t)) after edits).isSome = true := by
  simp only [Option.isSome_iff_exists, applyFrom_cons_eq_some_iff]
  constructor
  · rintro ⟨_, kept, t, after, tail, hrest, hspan, htail, -⟩
    exact ⟨kept, t, after, hrest, hspan, tail, htail⟩
  · rintro ⟨kept, t, after, hrest, hspan, tail, htail⟩
    exact ⟨_, kept, t, after, tail, hrest, hspan, htail, rfl⟩

/-- Edits in order can be applied to what remains of a script, and only such. -/
theorem applyFrom_isSome_iff {source : Text} (before rest : Text) (edits : List Edit)
    (hsource : source = before ++ rest) :
    (applyFrom (Text.byteSize before) rest edits).isSome = true ↔
      (∀ edit ∈ edits, (Span.slice? source edit.span).isSome = true) ∧
        (∀ edit ∈ edits, Text.byteSize before ≤ edit.span.start) ∧
        edits.Pairwise fun a b => a.span.stop ≤ b.span.start := by
  induction edits generalizing before rest with
  | nil => simp [applyFrom]
  | cons edit edits ih =>
      rw [applyFrom_cons_isSome_iff, List.forall_mem_cons, List.forall_mem_cons, List.pairwise_cons]
      constructor
      · rintro ⟨kept, t, after, rfl, hspan, h⟩
        have hplace : source = (before ++ kept) ++ (t ++ after) := by
          rw [hsource, List.append_assoc]
        have hslice : Span.slice? source edit.span = some t := by
          rw [Text.byteSize_append _ t] at hspan
          exact Span.slice?_eq_some_iff.mpr ⟨_, _, hplace, hspan⟩
        obtain ⟨hbounds, hstarts, horder⟩ := (ih _ _ (by rw [hplace, List.append_assoc _ t])).mp h
        have hsize : Text.byteSize before ≤ Text.byteSize (before ++ kept) ∧
            Text.byteSize before ≤ Text.byteSize (before ++ kept ++ t) := by
          simp only [Text.byteSize_append]
          omega
        refine ⟨⟨by rw [hslice]; rfl, hbounds⟩, ⟨?_, fun e he => ?_⟩, fun e he => ?_, horder⟩
        · rw [hspan]
          exact hsize.1
        · exact Nat.le_trans hsize.2 (hstarts e he)
        · rw [hspan]
          exact hstarts e he
      · rintro ⟨⟨hslice, hbounds⟩, ⟨hstart, -⟩, hfirst, horder⟩
        obtain ⟨t, ht⟩ := Option.isSome_iff_exists.mp hslice
        obtain ⟨left, after, hplace, hspan⟩ := Span.slice?_eq_some_iff.mp ht
        rw [hspan] at hstart
        obtain ⟨kept, rfl, rfl⟩ := Text.append_eq_append_of_le (hsource.symm.trans hplace) hstart
        rw [← Text.byteSize_append] at hspan
        refine ⟨kept, t, after, rfl, hspan, ?_⟩
        have hrest : source = ((before ++ kept) ++ t) ++ after := by
          rw [hplace, List.append_assoc _ t]
        refine (ih _ _ hrest).mpr ⟨hbounds, fun e he => ?_, horder⟩
        have hlater := hfirst e he
        rwa [hspan] at hlater

/-- **Edits can be applied exactly if they are separate.** -/
theorem applyAll_isSome_iff {source : Text} {edits : List Edit} :
    (applyAll source edits).isSome = true ↔ Separate source edits := by
  have hperm := sorted_perm le edits
  refine (applyFrom_isSome_iff [] source (sorted le edits) rfl).trans ?_
  constructor
  · rintro ⟨hbounds, -, horder⟩
    exact ⟨fun edit he => hbounds edit (hperm.mem_iff.mpr he), horder⟩
  · rintro ⟨hbounds, horder⟩
    exact ⟨fun edit he => hbounds edit (hperm.mem_iff.mp he), fun _ _ => Nat.zero_le _, horder⟩

end Edit
end Script
end Hypertext
