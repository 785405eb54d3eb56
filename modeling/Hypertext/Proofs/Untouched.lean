import Hypertext.Proofs.ErrorPositions

set_option autoImplicit false

/-! # Code that stays untouched

Every template of a script is taken apart, whether it is compiled or not: its substitutions are
read, compiled and compared, and those that changed are put in their places. This file proves that
nothing comes of it where nothing is compiled. If no template was compiled, a script loses the
declarations that are no longer needed and is otherwise left as it is (`transform_untouched`).

What is deleted is said without edits, by `without`: the characters that lie in certain spans are
left out. That edits without text do the same is `Edit.applyAll_deletions`.
-/

namespace Hypertext
namespace Script

/-! ## Leaving out spans -/

/-- Whether the byte at an offset lies in a span. -/
def Span.covers (span : Span) (offset : Nat) : Bool := span.start ≤ offset && offset < span.stop

/-- A text that begins at an offset, without the characters that lie in one of the spans. -/
def without (spans : List Span) : Nat → Text → Text
  | _, [] => []
  | offset, c :: t =>
    if spans.any fun span => span.covers offset then without spans (offset + c.utf8Size) t
    else c :: without spans (offset + c.utf8Size) t

theorem without_append (spans : List Span) (offset : Nat) (s t : Text) :
    without spans offset (s ++ t)
      = without spans offset s ++ without spans (offset + Text.byteSize s) t := by
  induction s generalizing offset with
  | nil => rfl
  | cons c s ih =>
      simp only [List.cons_append, without, ih, Text.byteSize_cons, Nat.add_assoc]
      split <;> rfl

/-- A text stays whole between the spans. -/
theorem without_of_clear {spans : List Span} {offset : Nat} {t : Text}
    (h : ∀ span ∈ spans, offset + Text.byteSize t ≤ span.start ∨ span.stop ≤ offset) :
    without spans offset t = t := by
  induction t generalizing offset with
  | nil => rfl
  | cons c t ih =>
      have hpos := c.utf8Size_pos
      simp only [Text.byteSize_cons] at h
      have hfirst : (spans.any fun span => span.covers offset) = false := by
        rw [List.any_eq_false]
        intro span hspan
        have := h span hspan
        simp only [Span.covers, Bool.and_eq_true, decide_eq_true_eq]
        omega
      rw [without, hfirst, ih]
      · rfl
      · intro span hspan
        have := h span hspan
        omega

/-- Nothing is left of a text inside of a span. -/
theorem without_of_covered {spans : List Span} {span : Span} (hspan : span ∈ spans) {offset : Nat}
    {t : Text} (hstart : span.start ≤ offset) (hstop : offset + Text.byteSize t ≤ span.stop) :
    without spans offset t = [] := by
  induction t generalizing offset with
  | nil => rfl
  | cons c t ih =>
      have hpos := c.utf8Size_pos
      rw [Text.byteSize_cons] at hstop
      have hfirst : (spans.any fun span => span.covers offset) = true := by
        refine List.any_eq_true.mpr ⟨span, hspan, ?_⟩
        simp only [Span.covers, Bool.and_eq_true, decide_eq_true_eq]
        omega
      rw [without, hfirst, if_pos rfl]
      exact ih (by omega) (by omega)

/-- Behind the end of a span it does not matter. -/
theorem without_cons_of_le {spans : List Span} {span : Span} {offset : Nat}
    (h : span.stop ≤ offset) (t : Text) :
    without (span :: spans) offset t = without spans offset t := by
  induction t generalizing offset with
  | nil => rfl
  | cons c t ih =>
      have hpast : span.covers offset = false := by
        simp only [Span.covers, Bool.and_eq_false_iff, decide_eq_false_iff_not]
        omega
      simp only [without, List.any_cons, hpast, Bool.false_or, ih (Nat.le_add_right_of_le h)]

theorem without_perm {spans spans' : List Span} (h : spans.Perm spans') (offset : Nat) (t : Text) :
    without spans offset t = without spans' offset t := by
  induction t generalizing offset with
  | nil => rfl
  | cons c t ih => rw [without, without, h.any_eq, ih]

namespace Edit

/-- **Deletions in order.** Edits without text leave out their spans. -/
theorem applyFrom_deletions {edits : List Edit} (hdelete : ∀ edit ∈ edits, edit.text = [])
    {before rest result : Text} (h : applyFrom (Text.byteSize before) rest edits = some result) :
    result = without (edits.map Edit.span) (Text.byteSize before) rest := by
  induction edits generalizing before rest result with
  | nil =>
      cases h
      exact (without_of_clear fun _ hspan => absurd hspan List.not_mem_nil).symm
  | cons edit edits ih =>
      obtain ⟨kept, t, after, tail, rfl, hspan, htail, rfl⟩ := applyFrom_cons_eq_some_iff.mp h
      -- the other edits begin behind this one
      have hlater : ∀ span ∈ edits.map Edit.span,
          Text.byteSize (before ++ kept ++ t) ≤ span.start := by
        intro span hspan
        obtain ⟨later, hmem, rfl⟩ := List.mem_map.mp hspan
        have hsome := Option.isSome_iff_exists.mpr ⟨tail, htail⟩
        exact ((applyFrom_isSome_iff _ _ _ rfl).mp hsome).2.1 later hmem
      simp only [Text.byteSize_append] at hspan hlater
      rw [List.map_cons, without_append, without_append]
      have hkept : without (edit.span :: edits.map Edit.span) (Text.byteSize before) kept
          = kept := by
        refine without_of_clear fun span hmem => ?_
        rcases List.mem_cons.mp hmem with rfl | hmem
        · rw [hspan]
          exact .inl (Nat.le_refl _)
        · have := hlater span hmem
          omega
      have ht : without (edit.span :: edits.map Edit.span)
          (Text.byteSize before + Text.byteSize kept) t = [] := by
        refine without_of_covered List.mem_cons_self ?_ ?_
        · rw [hspan]
        · rw [hspan]
      rw [hkept, ht, without_cons_of_le (by rw [hspan]), List.nil_append,
        hdelete edit List.mem_cons_self, List.append_nil]
      congr 1
      have hrest := ih (fun later hmem => hdelete later (List.mem_cons_of_mem _ hmem)) htail
      rw [hrest, Text.byteSize_append, Text.byteSize_append]

/-- Deletions can be given in any order. -/
theorem applyAll_deletions {edits : List Edit} (hdelete : ∀ edit ∈ edits, edit.text = [])
    {text result : Text} (h : applyAll text edits = some result) :
    result = without (edits.map Edit.span) 0 text := by
  have hperm := sorted_perm le edits
  have hsorted : ∀ edit ∈ sorted le edits, edit.text = [] :=
    fun edit hmem => hdelete edit (hperm.mem_iff.mp hmem)
  have h : applyFrom (Text.byteSize []) text (sorted le edits) = some result := h
  calc
    result = without ((sorted le edits).map Edit.span) 0 text := applyFrom_deletions hsorted h
    _ = without (edits.map Edit.span) 0 text := without_perm (hperm.map _) 0 text

end Edit

/-! ## Runs that compile nothing -/

namespace Compiler

/-- Substitutions that come out as they are need no edits. -/
theorem changedEdits_same (literal : TemplateLiteral) :
    changedEdits literal (literal.substitutions.map Piece.text) = [] := by
  unfold changedEdits
  rw [List.map_eq_nil_iff]
  induction literal.substitutions with
  | nil => rfl
  | cons piece pieces ih => simpa using ih

section

variable {compiler : Compiler} {inner : Inner} {text : Text} {base : Nat}
  (hinner : ∀ text base before code after, inner text base before = .ok (code, after) →
    after.compiled = [] → code = text ∧ after = before)

include hinner

theorem substitutions_idle {pieces : List Piece} {before after : Progress} {texts : List Text}
    (h : substitutions inner base pieces before = .ok (texts, after))
    (hnone : after.compiled = []) :
    texts = pieces.map Piece.text ∧ after = before := by
  induction pieces generalizing before texts with
  | nil =>
      cases h
      exact ⟨rfl, rfl⟩
  | cons piece pieces ih =>
      unfold substitutions at h
      obtain ⟨first, hfirst, h⟩ := bind_eq_ok_iff.mp h
      obtain ⟨others, hothers, h⟩ := bind_eq_ok_iff.mp h
      cases h
      -- the last substitution tells that nothing was compiled in the ones before it
      obtain ⟨htexts, hlast⟩ := ih hothers
      rw [hlast] at hnone
      obtain ⟨hcode, hsame⟩ := hinner _ _ _ _ _ hfirst hnone
      exact ⟨by rw [hcode, htexts, List.map_cons], hlast.trans hsame⟩

/-- **One template.** It is not compiled, and nothing inside of it changes. -/
theorem template_idle {literal : TemplateLiteral} {before after : Progress} {edits : List Edit}
    (h : compiler.template inner text base literal before = .ok (edits, after))
    (hnone : after.compiled = []) : edits = [] ∧ after = before := by
  have houtcome := template_outcome compiler inner text base literal before
  rw [h] at houtcome
  cases houtcome with
  | kept hsubstitutions =>
      obtain ⟨rfl, hsame⟩ := substitutions_idle hinner hsubstitutions hnone
      exact ⟨changedEdits_same literal, hsame⟩
  | compiled => exact absurd hnone (List.append_ne_nil_of_right_ne_nil _ (List.cons_ne_nil _ _))

theorem templates_idle {items : List Item} {before after : Progress} {edits : List Edit}
    (h : compiler.templates inner text base items before = .ok (edits, after))
    (hnone : after.compiled = []) : edits = [] ∧ after = before := by
  induction items generalizing before edits with
  | nil =>
      cases h
      exact ⟨rfl, rfl⟩
  | cons item items ih =>
      cases item with
      | binding declaration => exact ih h
      | template literal =>
          unfold templates at h
          obtain ⟨first, hfirst, h⟩ := bind_eq_ok_iff.mp h
          obtain ⟨others, hothers, h⟩ := bind_eq_ok_iff.mp h
          cases h
          obtain ⟨hrest, hlast⟩ := ih hothers
          rw [hlast] at hnone
          obtain ⟨hedits, hsame⟩ := template_idle hinner hfirst hnone
          exact ⟨by rw [hedits, hrest, List.append_nil], hlast.trans hsame⟩

end

/-- **Nested templates.** A text in which no template was compiled comes out as it is, whatever
other templates it has, and however deep they nest. -/
theorem fragment_idle {compiler : Compiler} (fuel : Nat) (text : Text) (base : Nat)
    (before : Progress) (code : Text) (after : Progress)
    (h : compiler.fragment fuel text base before = .ok (code, after))
    (hnone : after.compiled = []) :
    code = text ∧ after = before := by
  induction fuel generalizing text base before code after with
  | zero =>
      cases h
      exact ⟨rfl, rfl⟩
  | succ fuel ih =>
      unfold fragment at h
      obtain ⟨items, -, h⟩ := bind_eq_ok_iff.mp h
      obtain ⟨⟨edits, progress⟩, htemplates, h⟩ := bind_eq_ok_iff.mp h
      dsimp only at h
      split at h
      · cases h
      next result hresult =>
      cases h
      obtain ⟨rfl, hsame⟩ := templates_idle ih htemplates hnone
      cases hresult
      exact ⟨rfl, hsame⟩

/-! ## Scripts without templates to compile -/

theorem substitutions_same {inner : Inner} {base : Nat} {pieces : List Piece} {progress : Progress}
    (h : ∀ piece ∈ pieces, ∀ progress,
      inner piece.text (base + piece.span.start) progress = .ok (piece.text, progress)) :
    substitutions inner base pieces progress = .ok (pieces.map Piece.text, progress) := by
  induction pieces with
  | nil => rfl
  | cons piece pieces ih =>
      have hothers := ih fun later hmem => h later (List.mem_cons_of_mem _ hmem)
      rw [substitutions, h piece List.mem_cons_self]
      simp only [bind, Except.bind, hothers]
      rfl

section

variable {compiler : Compiler} {inner : Inner} {text : Text} {base : Nat} {items : List Item}
  {progress : Progress}
  (hnone : ∀ base literal, ¬RecognizedAt compiler.options compiler.source base literal)
  (hinner : ∀ text base progress, Fragment compiler.source text base →
    inner text base progress = .ok (text, progress))

include hinner hnone

theorem templates_same (htags : compiler.TagsDeclared)
    (hfragment : Fragment compiler.source text base) (hscan : scan text = .ok items)
    {later : List Item} (hlater : later ⊆ items) :
    compiler.templates inner text base later progress = .ok ([], progress) := by
  induction later with
  | nil => rfl
  | cons item later ih =>
      obtain ⟨hmem, hrest⟩ := List.cons_subset.mp hlater
      cases item with
      | binding declaration => exact ih hrest
      | template literal =>
          have hkept : compiler.recognizes literal.tag = false := by
            rw [← Bool.not_eq_true]
            intro hrecognized
            exact hnone base literal ⟨recognized_of_recognizes htags hrecognized, text, items,
              hfragment, hscan, hmem⟩
          have hsubstitutions : substitutions inner base literal.substitutions progress
              = .ok (literal.substitutions.map Piece.text, progress) :=
            substitutions_same fun piece hpiece progress =>
              hinner _ _ _ (.substitution hfragment hscan hmem hpiece)
          have hedits := changedEdits_same literal
          unfold changedEdits at hedits
          rw [templates, Compiler.template, hsubstitutions]
          simp only [bind, Except.bind, hkept, Bool.not_false, if_true, pure, Except.pure, hedits,
            ih hrest, List.nil_append]

end

/-- A text for which there are no edits comes out as it is. -/
theorem fragment_of_no_edits {compiler : Compiler} {fuel : Nat} {text : Text} {base : Nat}
    {items : List Item} {progress after : Progress} (hscan : scan text = .ok items)
    (h : compiler.templates (compiler.fragment fuel) text base items progress = .ok ([], after)) :
    compiler.fragment (fuel + 1) text base progress = .ok (text, after) := by
  simp only [fragment, hscan, Except.mapError, bind, Except.bind, h]
  rfl

/-- **Nested templates.** A text without templates to compile comes out as it is, if it can be read
with all substitutions in it. -/
theorem fragment_same {compiler : Compiler} (htags : compiler.TagsDeclared)
    (hnone : ∀ base literal, ¬RecognizedAt compiler.options compiler.source base literal)
    (hreadable : ∀ text base, Fragment compiler.source text base → ∃ items, scan text = .ok items)
    (fuel : Nat) (text : Text) (base : Nat) (progress : Progress)
    (hfragment : Fragment compiler.source text base) :
    compiler.fragment fuel text base progress = .ok (text, progress) := by
  induction fuel generalizing text base progress with
  | zero => rfl
  | succ fuel ih =>
      obtain ⟨items, hscan⟩ := hreadable text base hfragment
      apply fragment_of_no_edits hscan
      exact templates_same hnone ih htags hfragment hscan (List.Subset.refl items)

end Compiler

/-! ## Whole scripts -/

/-- The spans of the declarations that are no longer needed. -/
def removedSpans (options : Options) (source : Text) (items : List Item) : List Span :=
  ((bindings items).filter fun binding => options.removesImport binding.moduleName).map
    fun binding => withLineBreak source binding.span

section

variable {options : Options} {source : Text} {items : List Item}

/-- If nothing was compiled, nothing is declared either. -/
theorem fileEdits_idle :
    fileEdits options source items [] (declarations options [])
      = removals options source items := by
  simp [fileEdits, declarations]

theorem applyAll_removals {code : Text}
    (h : Edit.applyAll source (removals options source items) = some code) :
    code = without (removedSpans options source items) 0 source := by
  have hspans : (removals options source items).map Edit.span
      = removedSpans options source items := by
    simp [removals, removedSpans]
  rw [← hspans]
  refine Edit.applyAll_deletions (fun edit hmem => ?_) h
  obtain ⟨binding, -, rfl⟩ := List.mem_map.mp hmem
  rfl

/-- Declarations can always be deleted. -/
theorem applyAll_removals_isSome (hscan : scan source = .ok items) :
    (Edit.applyAll source (removals options source items)).isSome = true := by
  have htiles := tiles_of_scan hscan
  refine Edit.applyAll_isSome_iff.mpr (Edit.separate_of_apart ?_ (removals_pairwise htiles))
  exact fun edit hmem => (mem_removals htiles hmem).1

end

theorem compileTemplates_idle {options : Options} {source : Text} {items : List Item}
    {edits : List Edit} {progress : Progress}
    (h : compileTemplates options source = .ok (items, edits, progress))
    (hnone : progress.compiled = []) :
    scan source = .ok items ∧ edits = [] ∧ progress.scope.shared = [] := by
  unfold compileTemplates at h
  obtain ⟨found, hscan, h⟩ := bind_eq_ok_iff.mp h
  obtain ⟨result, htemplates, h⟩ := bind_eq_ok_iff.mp h
  cases h
  obtain ⟨hedits, hsame⟩ := Compiler.templates_idle (Compiler.fragment_idle _) htemplates hnone
  refine ⟨mapError_eq_ok_iff.mp hscan, hedits, ?_⟩
  rw [hsame, Scope.reserve_shared]
  rfl

theorem compileTemplates_same {options : Options} {source : Text} {items : List Item}
    (hreadable : ∀ text base, Fragment source text base → ∃ items, scan text = .ok items)
    (hnone : ∀ base literal, ¬RecognizedAt options source base literal)
    (hscan : scan source = .ok items) :
    compileTemplates options source
      = .ok (items, [], ⟨Scope.empty.reserve (namesIn source), []⟩) := by
  have htags := tagsDeclared_of_scan options hscan
  have hinner := Compiler.fragment_same htags hnone hreadable source.length
  simp only [compileTemplates, hscan, Except.mapError, bind, Except.bind]
  rw [Compiler.templates_same hnone hinner htags .script hscan (List.Subset.refl items)]
  rfl

/-- **Untouched code stays untouched.** If no template of a script was compiled, the result is the
script without the declarations that are no longer needed, each with the line break after it. If
there are none of those either, it is the script itself. And no template is compiled if none is
recognized, in the script or in any substitution in it. -/
theorem transform_untouched (options : Options) (source : Text) :
    (∀ result, transform options source = .ok result → result.templates = 0 →
      ∃ items, scan source = .ok items ∧
        result.code = without (removedSpans options source items) 0 source ∧
        ((∀ binding, .binding binding ∈ items →
          options.removesImport binding.moduleName = false) → result.code = source)) ∧
    ((∀ text base, Fragment source text base → ∃ items, scan text = .ok items) →
      (∀ base literal, ¬RecognizedAt options source base literal) →
      ∃ code, transform options source = .ok ⟨code, 0⟩) := by
  constructor
  · intro result h hnone
    obtain ⟨items, edits, progress, hcompile, hcode, htemplates⟩ := transform_eq_ok_iff.mp h
    have hcompiled := List.eq_nil_of_length_eq_zero (htemplates.symm.trans hnone)
    obtain ⟨hscan, rfl, hshared⟩ := compileTemplates_idle hcompile hcompiled
    rw [hshared, fileEdits_idle] at hcode
    have hcode := applyAll_removals hcode
    refine ⟨items, hscan, hcode, fun hkept => ?_⟩
    have hspans : removedSpans options source items = [] := by
      refine List.map_eq_nil_iff.mpr (List.filter_eq_nil_iff.mpr fun binding hmem => ?_)
      rw [hkept binding (mem_bindings.mp hmem)]
      exact Bool.false_ne_true
    rw [hcode, hspans]
    exact without_of_clear fun _ hspan => absurd hspan List.not_mem_nil
  · intro hreadable hnone
    obtain ⟨items, hscan⟩ := hreadable source 0 .script
    have happly : (Edit.applyAll source (removals options source items)).isSome = true :=
      applyAll_removals_isSome hscan
    obtain ⟨code, hcode⟩ := Option.isSome_iff_exists.mp happly
    refine ⟨code, transform_eq_ok_iff.mpr ⟨items, [], _,
      compileTemplates_same hreadable hnone hscan, ?_, rfl⟩⟩
    rw [Scope.reserve_shared]
    exact (congrArg (Edit.applyAll source) fileEdits_idle).trans hcode

/-- A backquote in a comment, a declaration that is deleted, and a template with a foreign tag
around one without a tag. -/
theorem transform_untouched_nested :
    let source := "// \x60\nimport h from 'bel';\nx\x60a$\x7b\x60b\x60\x7d\x60".toList
    ∃ items, scan source = .ok items ∧
      transform {} source = .ok ⟨without (removedSpans {} source items) 0 source, 0⟩ ∧
      without (removedSpans {} source items) 0 source
        = "// \x60\nx\x60a$\x7b\x60b\x60\x7d\x60".toList := by
  intro source
  let declaration : ModuleBinding :=
    ⟨"h".toList, "bel".toList, .importDeclaration, ⟨5, 25⟩⟩
  let nested : Piece := ⟨"\x60b\x60".toList, ⟨31, 34⟩⟩
  let foreign : TemplateLiteral :=
    ⟨some (.path ["x".toList]), ⟨26, 36⟩, [⟨"a".toList, ⟨28, 29⟩⟩, ⟨[], ⟨35, 35⟩⟩], [nested]⟩
  let untagged : TemplateLiteral := ⟨none, ⟨0, 3⟩, [⟨"b".toList, ⟨1, 2⟩⟩], []⟩
  have hscan : scan source = .ok [.binding declaration, .template foreign] := by
    decide +kernel
  have hnested : scan nested.text = .ok [.template untagged] := by
    decide +kernel
  -- the only text beside the script itself is the one substitution
  have htexts : ∀ text base, Fragment source text base → text = source ∨ text = nested.text := by
    intro text base h
    induction h with
    | script => exact .inl rfl
    | @substitution text base items literal piece _ hitems hmem hpiece ih =>
        rcases ih with rfl | rfl
        · cases hscan.symm.trans hitems
          have hliteral : literal = foreign := by simpa using hmem
          rw [hliteral] at hpiece
          exact .inr (congrArg Piece.text (List.mem_singleton.mp hpiece))
        · cases hnested.symm.trans hitems
          have hliteral : literal = untagged := by simpa using hmem
          rw [hliteral] at hpiece
          exact absurd hpiece List.not_mem_nil
  have hreadable : ∀ text base, Fragment source text base → ∃ items, scan text = .ok items := by
    intro text base h
    rcases htexts text base h with rfl | rfl
    · exact ⟨_, hscan⟩
    · exact ⟨_, hnested⟩
  have hforeign : ∀ tag, Recognized {} source tag → tag ≠ .path ["x".toList] := by
    intro tag hrecognized htag
    cases hrecognized with
    | require => cases htag
    | @declared items binding hitems hmem _ =>
        cases hscan.symm.trans hitems
        have hbinding : binding = declaration := by simpa using hmem
        rw [hbinding] at htag
        cases htag
  have hnone : ∀ base literal, ¬RecognizedAt {} source base literal := by
    rintro base literal ⟨⟨tag, htag, hrecognized⟩, text, items, hfragment, hitems, hmem⟩
    rcases htexts text base hfragment with rfl | rfl
    · cases hscan.symm.trans hitems
      have hliteral : literal = foreign := by simpa using hmem
      rw [hliteral] at htag
      exact hforeign tag hrecognized (Option.some.inj htag).symm
    · cases hnested.symm.trans hitems
      have hliteral : literal = untagged := by simpa using hmem
      rw [hliteral] at htag
      cases htag
  obtain ⟨code, hcode⟩ := (transform_untouched {} source).2 hreadable hnone
  obtain ⟨items, hitems, hwithout, -⟩ := (transform_untouched {} source).1 _ hcode rfl
  cases hscan.symm.trans hitems
  exact ⟨_, hscan, hwithout ▸ hcode, by decide⟩

end Script
end Hypertext
