import Hypertext.Proofs.Splicing
import Mathlib.Data.List.Nodup

set_option autoImplicit false

/-! # The order of edits

Edits with different spans that are apart from each other can be given in any order: they have one
sorted order only (`Edit.eq_sorted`). The script and what it is changed to agree but for the spans
(`Edit.Woven`), and the same comes out when the spans are replaced one after the other, each in the
whole text, from the right-most to the left-most (`Edit.Woven.foldrM_replace`).
-/

namespace Hypertext
namespace Script
namespace Edit

/-! ## Two ways to apply edits -/

/-- Replaces the span of one edit in a text. -/
def replace (text : Text) (edit : Edit) : Option Text :=
  match Text.cut? edit.span.stop text with
  | none => none
  | some (front, after) =>
    (Text.cut? edit.span.start front).map fun parts => parts.1 ++ (edit.text ++ after)

/-- The edits from the right-most to the left-most one: each ends before those in front of it in the
list begin. An insertion at the start of a span is to the left of the edit that replaces it. -/
def RightToLeft (edits : List Edit) : Prop := edits.Pairwise fun a b => b.span.stop ≤ a.span.start

/-- Two texts that begin at `place` in the script and agree but for the spans of edits, which follow
each other. In the second text the edits' own texts stand there. -/
inductive Woven : Nat → Text → List Edit → Text → Prop where
  | rest (place : Nat) (t : Text) : Woven place t [] t
  | edit {place : Nat} {kept replaced after result : Text} {edit : Edit} {edits : List Edit}
      (hspan : edit.span
        = ⟨place + kept.byteSize, place + kept.byteSize + replaced.byteSize⟩)
      (h : Woven edit.span.stop after edits result) :
      Woven place (kept ++ (replaced ++ after)) (edit :: edits) (kept ++ (edit.text ++ result))

theorem replace_of_span {before t after : Text} {edit : Edit}
    (h : edit.span = ⟨Text.byteSize before, Text.byteSize (before ++ t)⟩) :
    replace (before ++ (t ++ after)) edit = some (before ++ (edit.text ++ after)) := by
  have hstop : Text.cut? edit.span.stop (before ++ (t ++ after)) = some (before ++ t, after) := by
    rw [Text.cut?_eq_some_iff, h, List.append_assoc]
    exact ⟨rfl, rfl⟩
  have hstart : Text.cut? edit.span.start (before ++ t) = some (before, t) := by
    rw [Text.cut?_eq_some_iff, h]
    exact ⟨rfl, rfl⟩
  simp only [replace, hstop, hstart, Option.map_some]

theorem woven_of_applyFrom (before : Text) {rest result : Text} {edits : List Edit}
    (h : applyFrom (Text.byteSize before) rest edits = some result) :
    Woven (Text.byteSize before) rest edits result := by
  induction edits generalizing before rest result with
  | nil =>
      cases h
      exact .rest _ rest
  | cons edit edits ih =>
      obtain ⟨kept, t, after, tail, rfl, hspan, htail, rfl⟩ := applyFrom_cons_eq_some_iff.mp h
      have hwoven := ih _ htail
      rw [List.append_assoc]
      refine .edit (by simpa [Nat.add_assoc] using hspan) ?_
      rwa [hspan]

/-- **From the right to the left.** Each edit is made in a text that is still the script up to the
end of its span. -/
theorem Woven.foldrM_replace (before : Text) {rest result : Text} {edits : List Edit}
    (h : Woven (Text.byteSize before) rest edits result) :
    edits.foldrM (fun edit text => replace text edit) (before ++ rest)
      = some (before ++ result) := by
  generalize hplace : Text.byteSize before = place at h
  induction h generalizing before with
  | rest place t => rfl
  | @edit place kept replaced after result edit edits hspan _ ih =>
      subst hplace
      -- the later edits are made first, and leave the text up to their place alone
      have hstart : edit.span
          = ⟨Text.byteSize (before ++ kept), Text.byteSize ((before ++ kept) ++ replaced)⟩ := by
        simpa [Nat.add_assoc] using hspan
      have hlater := ih ((before ++ kept) ++ replaced) (by rw [hstart])
      rw [List.append_assoc (before ++ kept), List.append_assoc before] at hlater
      rw [List.foldrM_cons, hlater, Option.bind_eq_bind, Option.bind_some,
        List.append_assoc (before ++ kept), replace_of_span hstart, List.append_assoc]

/-! ## The one order of edits -/

/-- Edits that lie next to each other from left to right are sorted. -/
theorem le_of_stop_le {a b : Edit} (ha : a.span.start ≤ a.span.stop)
    (hb : b.span.start ≤ b.span.stop) (h : a.span.stop ≤ b.span.start) : le a b = true := by
  rw [le_iff]
  omega

/-- **There is only one sorted order** of edits with different spans. -/
theorem eq_sorted {edits order : List Edit} (hdistinct : (edits.map Edit.span).Nodup)
    (hperm : order.Perm edits) (hsorted : order.Pairwise fun a b => le a b = true) :
    order = sorted le edits := by
  have hsame := sorted_perm le edits
  refine List.Perm.eq_of_pairwise (fun a b ha hb hab hba => ?_) hsorted (sorted_le edits)
    (hperm.trans hsame.symm)
  refine List.inj_on_of_nodup_map hdistinct (hperm.mem_iff.mp ha) (hsame.mem_iff.mp hb) ?_
  -- edits that are before each other have one span, and the list has no two of those
  have hab := le_iff.mp hab
  have hba := le_iff.mp hba
  obtain ⟨⟨start, stop⟩, _⟩ := a
  obtain ⟨⟨start', stop'⟩, _⟩ := b
  simp only [Span.mk.injEq]
  dsimp only at hab hba
  omega

/-! ## Insertions -/

/-- Two edits that touch leave their texts next to each other. -/
theorem Woven.adjacent {place : Nat} {rest result : Text} {first second : Edit} {edits : List Edit}
    (h : Woven place rest (first :: second :: edits) result)
    (htouch : second.span.start = first.span.stop) :
    ∃ left right, result = left ++ (first.text ++ (second.text ++ right)) := by
  cases h with
  | @edit _ kept _ _ _ _ _ _ h =>
      cases h with
      | @edit _ between _ _ tail _ _ hspan _ =>
          have hsize : Text.byteSize between = 0 := by
            rw [hspan] at htouch
            dsimp only at htouch
            omega
          rw [Text.eq_nil_of_byteSize_eq_zero hsize]
          exact ⟨kept, tail, rfl⟩

/-- **An insertion at the start of a replaced span** comes out right before the replacement. -/
theorem Woven.insertion_first {place : Nat} {rest result : Text} {edits : List Edit}
    {insertion replacement : Edit} (h : Woven place rest edits result)
    (horder : edits.Pairwise fun a b => a.span.stop ≤ b.span.start)
    (hdistinct : (edits.map Edit.span).Nodup) (hinsertion : insertion ∈ edits)
    (hreplacement : replacement ∈ edits) (hempty : insertion.span.stop = insertion.span.start)
    (hsame : insertion.span.start = replacement.span.start)
    (hproper : replacement.span.start < replacement.span.stop) :
    ∃ left right, result = left ++ (insertion.text ++ (replacement.text ++ right)) := by
  induction h with
  | rest place t => exact absurd hinsertion List.not_mem_nil
  | @edit place kept replaced after result edit edits hspan h ih =>
      obtain ⟨hfirst, hlater⟩ := List.pairwise_cons.mp horder
      rw [List.map_cons, List.nodup_cons] at hdistinct
      rcases List.mem_cons.mp hinsertion with rfl | hinside
      · rcases List.mem_cons.mp hreplacement with rfl | hbehind
        · omega
        -- the replacement is the next edit, since another one in between would have the same span
        cases h with
        | rest => exact absurd hbehind List.not_mem_nil
        | @edit _ _ _ _ _ next edits hnext h =>
            rcases List.mem_cons.mp hbehind with rfl | hbehind
            · exact (Woven.edit hspan (.edit hnext h)).adjacent (hsame.symm.trans hempty.symm)
            · have hbefore := hfirst next List.mem_cons_self
              have hafter := (List.pairwise_cons.mp hlater).1 replacement hbehind
              refine absurd (List.mem_map.mpr ⟨next, List.mem_cons_self, ?_⟩) hdistinct.1
              have hproper : next.span.start ≤ next.span.stop := by
                rw [hnext]
                exact Nat.le_add_right _ _
              obtain ⟨⟨start, stop⟩, _⟩ := next
              obtain ⟨⟨start', stop'⟩, _⟩ := insertion
              simp only [Span.mk.injEq]
              dsimp only at hbefore hafter hempty hsame hproper
              omega
      · rcases List.mem_cons.mp hreplacement with rfl | hbehind
        · -- the replacement would end before the insertion, where it begins
          have hbefore := hfirst insertion hinside
          omega
        · obtain ⟨left, right, rfl⟩ := ih hlater hdistinct.2 hinside hbehind
          exact ⟨kept ++ (edit.text ++ left), right, by simp⟩

/-! ## Any order -/

theorem start_le_stop_of_slice? {text : Text} {edit : Edit}
    (h : (Span.slice? text edit.span).isSome = true) : edit.span.start ≤ edit.span.stop := by
  obtain ⟨t, ht⟩ := Option.isSome_iff_exists.mp h
  obtain ⟨_, _, -, hspan⟩ := Span.slice?_eq_some_iff.mp ht
  rw [hspan]
  exact Nat.le_add_right _ _

/-- **Edits can be given in any order.** Edits in a text that have different spans and are apart,
where an insertion may touch the border of another span, give one result in whatever order they are
given. It is what comes out when the spans are replaced one after the other from the right-most edit
to the left-most one, for which there is an order, and all text outside of the spans is kept in its
place among the edits. An insertion at the start of a replaced span comes out right before the
replacement. -/
theorem applyAll_any_order {text : Text} {edits : List Edit}
    (hbounds : ∀ edit ∈ edits, (Span.slice? text edit.span).isSome = true)
    (hdistinct : (edits.map Edit.span).Nodup) (hapart : edits.Pairwise Apart) :
    ∃ result, (∀ given, given.Perm edits → applyAll text given = some result) ∧
      (∃ order, order.Perm edits ∧ RightToLeft order) ∧
      (∀ order, order.Perm edits → RightToLeft order →
        order.foldlM replace text = some result ∧ Woven 0 text order.reverse result) ∧
      ∀ insertion ∈ edits, ∀ replacement ∈ edits, insertion.span.stop = insertion.span.start →
        insertion.span.start = replacement.span.start →
        replacement.span.start < replacement.span.stop →
        ∃ left right, result = left ++ (insertion.text ++ (replacement.text ++ right)) := by
  have hseparate := separate_of_apart hbounds hapart
  have hsorted := sorted_perm le edits
  obtain ⟨result, hresult⟩ := Option.isSome_iff_exists.mp (applyAll_isSome_iff.mpr hseparate)
  have hwoven : Woven 0 text (sorted le edits) result := woven_of_applyFrom [] hresult
  refine ⟨result, fun given hgiven => ?_, ⟨(sorted le edits).reverse, ?_, ?_⟩,
    fun order horder hleft => ?_, fun insertion hinsertion replacement hreplacement => ?_⟩
  · have hsame : sorted le given = sorted le edits :=
      eq_sorted hdistinct ((sorted_perm le given).trans hgiven) (sorted_le given)
    rw [applyAll, hsame]
    exact hresult
  · exact (List.reverse_perm _).trans hsorted
  · exact List.pairwise_reverse.mpr hseparate.inOrder
  · have hle : order.reverse.Pairwise fun a b => le a b = true := by
      refine List.pairwise_reverse.mpr (hleft.imp_of_mem fun {a b} ha hb hab => ?_)
      exact le_of_stop_le (start_le_stop_of_slice? (hbounds b (horder.mem_iff.mp hb)))
        (start_le_stop_of_slice? (hbounds a (horder.mem_iff.mp ha))) hab
    have hsame := eq_sorted hdistinct ((List.reverse_perm order).trans horder) hle
    rw [hsame]
    refine ⟨?_, hwoven⟩
    have hfold := hwoven.foldrM_replace []
    rwa [← hsame, List.foldrM_reverse, List.nil_append, List.nil_append] at hfold
  · refine hwoven.insertion_first hseparate.inOrder ?_ (hsorted.mem_iff.mpr hinsertion)
      (hsorted.mem_iff.mpr hreplacement)
    exact (hsorted.map Edit.span).nodup_iff.mpr hdistinct

/-- A replaced character of two bytes with an insertion at each of its borders. -/
theorem applyAll_any_order_touching :
    let text := "aäbc".toList
    let replacement : Edit := ⟨⟨1, 3⟩, "x".toList⟩
    let insertion : Edit := ⟨⟨1, 1⟩, "[".toList⟩
    let closing : Edit := ⟨⟨3, 3⟩, "]".toList⟩
    applyAll text [replacement, closing, insertion] = some "a[x]bc".toList ∧
      applyAll text [closing, insertion, replacement] = some "a[x]bc".toList ∧
      [closing, replacement, insertion].foldlM replace text = some "a[x]bc".toList ∧
      ∃ left right, "a[x]bc".toList = left ++ (insertion.text ++ (replacement.text ++ right)) := by
  intro text replacement insertion closing
  have hbounds : ∀ edit ∈ [replacement, closing, insertion],
      (Span.slice? text edit.span).isSome = true := by decide
  have hapart : [replacement, closing, insertion].Pairwise Apart := by
    simp [Apart, replacement, closing, insertion]
  obtain ⟨result, hany, -, hleft, hinsertion⟩ :=
    applyAll_any_order hbounds (by decide) hapart
  have hresult : result = "a[x]bc".toList :=
    Option.some.inj ((hany _ (.refl _)).symm.trans (by decide))
  subst hresult
  refine ⟨hany _ (.refl _), hany _ (by decide), (hleft _ (by decide) ?_).1,
    hinsertion insertion (by decide) replacement (by decide) rfl rfl (by decide)⟩
  simp [RightToLeft, replacement, closing, insertion]

end Edit
end Script
end Hypertext
