import Hypertext.Proofs.Bindings
import Hypertext.Proofs.Compiling

set_option autoImplicit false

/-! # Hygiene

Compiled code brings names of its own into a script. This file proves that they stay out of each
other's way and out of the way of the script (`transform_hygienic`).

Two facts meet here. The names that are reserved before anything is compiled include every
generated name that stands in the script as a word: names are found by cutting the script wherever
a character cannot belong to a name (`namesIn_append_break`). And however deep templates nest, the
scope only ever hands out names that are not taken (`Progress.LeadsTo`).
-/

namespace Hypertext

/-! ## How generated names are spelled -/

theorem isLower_iff {c : Char} : c.isLower = true ↔ 97 ≤ c.toNat ∧ c.toNat ≤ 122 := by
  show (decide (97 ≤ c.toNat) && decide (c.toNat ≤ 122)) = true ↔ _
  rw [Bool.and_eq_true, decide_eq_true_eq, decide_eq_true_eq]

theorem isUpper_iff {c : Char} : c.isUpper = true ↔ 65 ≤ c.toNat ∧ c.toNat ≤ 90 := by
  show decide (65 ≤ c.toNat ∧ c.toNat ≤ 90) = true ↔ _
  rw [decide_eq_true_eq]

theorem isDigit_iff {c : Char} : c.isDigit = true ↔ 48 ≤ c.toNat ∧ c.toNat ≤ 57 := by
  show (decide (48 ≤ c.toNat) && decide (c.toNat ≤ 57)) = true ↔ _
  rw [Bool.and_eq_true, decide_eq_true_eq, decide_eq_true_eq]

theorem isAlphanum_iff {c : Char} :
    c.isAlphanum = true ↔ (c.isUpper = true ∨ c.isLower = true) ∨ c.isDigit = true := by
  show ((c.isUpper || c.isLower) || c.isDigit) = true ↔ _
  rw [Bool.or_eq_true, Bool.or_eq_true]

theorem isUpper_toUpper {c : Char} (h : c.isLower = true) : c.toUpper.isUpper = true := by
  have hle := isLower_iff.mp h
  have hval : c.toUpper.toNat = c.toNat - 32 := by
    have hlower : 'a'.val ≤ c.val ∧ c.val ≤ 'z'.val := hle
    unfold Char.toUpper
    rw [dif_pos hlower]
    show (c.val + ('A'.val - 'a'.val)).toNat = c.val.toNat - 32
    -- the difference of the cases is negative, so it wraps around
    have hshift : ('A'.val - 'a'.val).toNat = 2 ^ 32 - 32 := rfl
    have hrange : 97 ≤ c.val.toNat ∧ c.val.toNat ≤ 122 := hle
    rw [UInt32.toNat_add, hshift]
    omega
  rw [isUpper_iff, hval]
  omega

theorem isStemChar_toUpper {c : Char} (h : isStemChar c = true) : isStemChar c.toUpper = true := by
  by_cases hlower : c.isLower = true
  · have halphanum : c.toUpper.isAlphanum = true :=
      isAlphanum_iff.mpr (.inl (.inl (isUpper_toUpper hlower)))
    simp [isStemChar, halphanum]
  · have hsame : c.toUpper = c := by
      unfold Char.toUpper
      rw [dif_neg]
      exact fun hrange => hlower (isLower_iff.mpr hrange)
    rw [hsame]
    exact h

theorem stemTail_all (upper : Bool) (t : Text) : ∀ c ∈ stemTail upper t, isStemChar c = true := by
  induction t generalizing upper with
  | nil => exact fun _ h => absurd h List.not_mem_nil
  | cons d t ih =>
      intro c hc
      rw [stemTail] at hc
      by_cases hd : isStemChar d = true
      · rw [if_pos hd] at hc
        rcases List.mem_cons.mp hc with rfl | hc
        · cases upper with
          | true => exact isStemChar_toUpper hd
          | false => exact hd
        · exact ih false c hc
      · rw [if_neg hd] at hc
        exact ih true c hc

theorem stemChars_all (t : Text) : ∀ c ∈ stemChars t, isStemChar c = true := by
  induction t with
  | nil => exact fun _ h => absurd h List.not_mem_nil
  | cons d t ih =>
      intro c hc
      rw [stemChars] at hc
      split at hc
      · next hd =>
          rcases List.mem_cons.mp hc with rfl | hc
          · exact (Bool.and_eq_true_iff.mp hd).1
          · exact stemTail_all false t c hc
      · exact ih c hc

theorem stem_all (hint : Text) : ∀ c ∈ stem hint, isStemChar c = true := by
  intro c hc
  unfold stem at hc
  split at hc
  · exact List.all_eq_true.mp (by decide : "ref".toList.all isStemChar = true) c hc
  · have hmem := List.mem_reverse.mp hc
    exact stemChars_all hint c (List.mem_reverse.mp ((List.dropWhile_sublist _).mem hmem))

theorem candidate_all {base : Text} (hbase : ∀ c ∈ base, isStemChar c = true) (i : Nat) :
    ∀ c ∈ candidate base i, isStemChar c = true := by
  intro c hc
  rcases List.mem_cons.mp hc with rfl | hc
  · rfl
  · split at hc
    · exact hbase c hc
    · rcases List.mem_append.mp hc with hc | hc
      · exact hbase c hc
      · have hdigit : c.isDigit = true := Nat.isDigit_of_mem_toDigits (by decide) (by decide) hc
        simp [isStemChar, isAlphanum_iff.mpr (.inr hdigit)]

namespace Script

theorem toNat_lt_of_isAlphanum {c : Char} (h : c.isAlphanum = true) : c.toNat < 128 := by
  rw [isAlphanum_iff, isUpper_iff, isLower_iff, isDigit_iff] at h
  omega

theorem isNamePart_of_isStemChar {c : Char} (h : isStemChar c = true) : isNamePart c = true := by
  simp only [isStemChar, Bool.or_eq_true, beq_iff_eq] at h
  rcases h with (h | rfl) | rfl
  · simp [isNamePart, isWord, toNat_lt_of_isAlphanum h, h]
  · rfl
  · rfl

/-- Every name that a scope hands out is a name. -/
theorem isName_candidate (hint : Text) (i : Nat) : isName (candidate (stem hint) i) = true := by
  have hall := candidate_all (stem_all hint) i
  refine Bool.and_eq_true_iff.mpr ⟨rfl, List.all_eq_true.mpr fun c hc => ?_⟩
  exact isNamePart_of_isStemChar (hall c (List.mem_cons_of_mem _ hc))

/-! ## Names that stand in a script -/

theorem isNamePart_of_isNameStart {c : Char} (h : isNameStart c = true) : isNamePart c = true := by
  apply isNamePart_of_isStemChar
  simp only [isNameStart, Bool.or_eq_true, beq_iff_eq] at h
  rcases h with (h | rfl) | rfl
  · simp [isStemChar, Char.isAlphanum, h]
  · rfl
  · rfl

theorem namesIn_cons_of_start {c : Char} (t : Text) (h : isNameStart c = true) :
    namesIn (c :: t) = (c :: t.takeWhile isNamePart) :: namesIn (t.dropWhile isNamePart) := by
  rw [namesIn, if_pos h]

theorem namesIn_cons_of_not_start {c : Char} (t : Text) (h : isNameStart c = false) :
    namesIn (c :: t) = namesIn t := by
  rw [namesIn, if_neg (by simp [h])]

/-- **Names end at a break.** A character that belongs to no name separates the names before it from
those after it. -/
theorem namesIn_append_break {c : Char} (hc : isNamePart c = false) (before rest : Text) :
    namesIn (before ++ c :: rest) = namesIn before ++ namesIn rest := by
  have hstart : isNameStart c = false := by
    by_contra hstart
    rw [Bool.not_eq_false] at hstart
    rw [isNamePart_of_isNameStart hstart] at hc
    cases hc
  fun_induction namesIn before with
  | case1 => rw [List.nil_append, List.nil_append, namesIn_cons_of_not_start rest hstart]
  | case2 d t hd _ ih =>
      -- a name that begins before the break also ends before it
      have htake : (t ++ c :: rest).takeWhile isNamePart = t.takeWhile isNamePart := by
        rw [List.takeWhile_append, List.takeWhile_cons_of_neg (by simp [hc])]
        split
        · next hlength =>
            rw [List.append_nil]
            exact ((List.takeWhile_prefix isNamePart).eq_of_length hlength).symm
        · rfl
      have hdrop : (t ++ c :: rest).dropWhile isNamePart = t.dropWhile isNamePart ++ c :: rest := by
        rw [List.dropWhile_append]
        split
        · next hempty =>
            rw [List.isEmpty_iff.mp hempty, List.dropWhile_cons_of_neg (by simp [hc])]
            rfl
        · rfl
      rw [List.cons_append, namesIn_cons_of_start _ hd, htake, hdrop, ih, List.cons_append]
  | case3 d t hd ih =>
      rw [List.cons_append, namesIn_cons_of_not_start _ (by simpa using hd), ih]

/-- A name stands in a script as a word if nothing next to it, before or after, could belong to a
name. -/
def StandsIn (source name : Text) : Prop :=
  ∃ before after, source = before ++ (name ++ after) ∧
    (∀ c, before.getLast? = some c → isNamePart c = false) ∧
    ∀ c, after.head? = some c → isNamePart c = false

theorem mem_namesIn_append {name after : Text} (hname : isName name = true)
    (hafter : ∀ c, after.head? = some c → isNamePart c = false) :
    name ∈ namesIn (name ++ after) := by
  cases name with
  | nil => cases hname
  | cons c t =>
      obtain ⟨hstart, hparts⟩ := Bool.and_eq_true_iff.mp hname
      have htail : after.takeWhile isNamePart = [] := by
        cases after with
        | nil => rfl
        | cons d after => exact List.takeWhile_cons_of_neg (by simp [hafter d rfl])
      have htake : (t ++ after).takeWhile isNamePart = t := by
        rw [List.takeWhile_append_of_pos (List.all_eq_true.mp hparts), htail, List.append_nil]
      rw [List.cons_append, namesIn_cons_of_start _ hstart, htake]
      exact List.mem_cons_self

/-- A name that stands in a script is found there. -/
theorem mem_namesIn_of_standsIn {source name : Text} (hname : isName name = true)
    (h : StandsIn source name) : name ∈ namesIn source := by
  obtain ⟨before, after, rfl, hbefore, hafter⟩ := h
  have hfound := mem_namesIn_append hname hafter
  rcases List.eq_nil_or_concat before with rfl | ⟨start, c, rfl⟩
  · exact hfound
  · have hbreak : isNamePart c = false := hbefore c (by simp)
    rw [List.concat_eq_append, List.append_assoc, List.singleton_append,
      namesIn_append_break hbreak]
    exact List.mem_append_right _ hfound

/-! ## Compiling takes names that are free -/

theorem statements_allocates (expressions : List Text) (operations : List Operation)
    (scope : Scope) : scope.Allocates [] (statements expressions operations scope).2 := by
  induction operations generalizing scope with
  | nil => exact Scope.Allocates.refl scope
  | cons operation rest ih =>
      rw [statements]
      cases operation.helper? with
      | none => exact ih scope
      | some helper => exact (scope.allocates_declare _ _).trans_nil (ih _)

theorem render_allocates (expressions : List Text) (lowered : Lowered) (scope : Scope) :
    scope.Allocates [] (render expressions lowered scope).2 := by
  unfold render
  split
  · exact Scope.Allocates.refl scope
  · exact statements_allocates expressions lowered.operations scope

/-- From one point of a run to a later one: the nodes of the templates compiled in between have
names that were free before. -/
def Progress.LeadsTo (before after : Progress) : Prop :=
  ∃ compiled, after.compiled = before.compiled ++ compiled ∧
    before.scope.Allocates (compiled.flatMap Lowered.created) after.scope

theorem Progress.LeadsTo.refl (progress : Progress) : progress.LeadsTo progress :=
  ⟨[], (List.append_nil _).symm, Scope.Allocates.refl _⟩

theorem Progress.LeadsTo.trans {p q r : Progress} (h₁ : p.LeadsTo q) (h₂ : q.LeadsTo r) :
    p.LeadsTo r := by
  obtain ⟨first, hfirst, hallocates⟩ := h₁
  obtain ⟨second, hsecond, hallocates'⟩ := h₂
  refine ⟨first ++ second, by rw [hsecond, hfirst, List.append_assoc], ?_⟩
  rw [List.flatMap_append]
  exact hallocates.trans hallocates'

namespace Compiler

theorem compile_allocates {options : Options} {quasis expressions : List Text}
    {scope later : Scope} {lowered : Lowered} {code : Text}
    (h : compile options quasis expressions scope = (.ok (lowered, code), later)) :
    scope.Allocates lowered.created later := by
  obtain ⟨template, after, -, hlower, hrender⟩ := compile_eq_ok_iff.mp h
  have hspec := (Template.lower_spec options.lowering template scope).1
  have hrendered := render_allocates expressions lowered after
  rw [hlower] at hspec
  rw [hrender] at hrendered
  exact hspec.trans_nil hrendered

/-- Templates that are compiled take names one after the other. -/
theorem accumulates_leadsTo (options : Options) :
    Progress.Accumulates options Progress.LeadsTo where
  refl := .refl
  trans := .trans
  compile := by
    intro quasis expressions before lowered code scope h
    refine ⟨[lowered], rfl, ?_⟩
    rw [List.flatMap_singleton]
    exact compile_allocates h

end Compiler

/-! ## Whole scripts -/

/-- The first half of compiling a script: its items, the edits for its templates, and the progress
that was made with them. -/
def compileTemplates (options : Options) (source : Text) :
    Except TransformError (List Item × List Edit × Progress) := do
  let items ← (scan source).mapError fun e => .unreadable (.ofOffset source e.offset) e
  let tags := ((bindings items).filter fun binding =>
    options.isTemplateModule binding.moduleName).map ModuleBinding.name
  let compiler : Compiler := ⟨source, options, tags⟩
  let result ← compiler.templates (compiler.fragment source.length) source 0 items
    ⟨Scope.empty.reserve (namesIn source), []⟩
  return (items, result)

/-- The second half puts the compiled templates in their places and declares what they share. -/
theorem transform_eq (options : Options) (source : Text) :
    transform options source = (do
      let (items, edits, progress) ← compileTemplates options source
      match Edit.applyAll source (fileEdits options source items edits
          (declarations options progress.scope.shared)) with
      | none => .error .overlap
      | some code => .ok ⟨code, progress.compiled.length⟩) := by
  unfold transform compileTemplates
  simp only [bind_assoc]
  rfl

theorem transform_eq_ok_iff {options : Options} {source : Text} {result : Transformed} :
    transform options source = .ok result ↔ ∃ items edits progress,
      compileTemplates options source = .ok (items, edits, progress) ∧
      Edit.applyAll source (fileEdits options source items edits
        (declarations options progress.scope.shared)) = some result.code ∧
      result.templates = progress.compiled.length := by
  rw [transform_eq]
  constructor
  · intro h
    obtain ⟨⟨items, edits, progress⟩, hcompile, h⟩ := bind_eq_ok_iff.mp h
    dsimp only at h
    split at h
    · cases h
    · next code hcode =>
        cases h
        exact ⟨items, edits, progress, hcompile, hcode, rfl⟩
  · rintro ⟨items, edits, progress, hcompile, hcode, htemplates⟩
    refine bind_eq_ok_iff.mpr ⟨_, hcompile, ?_⟩
    simp only [hcode, ← htemplates]

/-- The names that compiling brings into a script: those of the nodes of all templates, and those of
the values they share. -/
def Progress.introduced (progress : Progress) : List Text :=
  (progress.compiled.flatMap Lowered.created ++ progress.scope.shared.map Shared.binding).map
    Binding.name

theorem compileTemplates_accumulates {options : Options} {R : Progress → Progress → Prop}
    (hR : Progress.Accumulates options R) {source : Text} {items : List Item} {edits : List Edit}
    {progress : Progress} (h : compileTemplates options source = .ok (items, edits, progress)) :
    R ⟨Scope.empty.reserve (namesIn source), []⟩ progress := by
  unfold compileTemplates at h
  obtain ⟨items', -, h⟩ := bind_eq_ok_iff.mp h
  obtain ⟨⟨edits', progress'⟩, htemplates, h⟩ := bind_eq_ok_iff.mp h
  cases h
  exact Compiler.templates_accumulates hR (Compiler.fragment_accumulates hR _) htemplates

theorem compileTemplates_leadsTo {options : Options} {source : Text} {items : List Item}
    {edits : List Edit} {progress : Progress}
    (h : compileTemplates options source = .ok (items, edits, progress)) :
    Progress.LeadsTo ⟨Scope.empty.reserve (namesIn source), []⟩ progress :=
  compileTemplates_accumulates (Compiler.accumulates_leadsTo options) h

section

variable {start : Scope} (hstart : start.shared = []) {progress : Progress}

include hstart

/-- Nothing is shared at the start of a run, so every shared value is declared in it. -/
theorem shared_declared {nodes : List Binding} {later : Scope} (h : start.Allocates nodes later)
    {value : Shared} (hvalue : value ∈ later.shared) :
    value.binding.name ∉ start.taken ∧ value.binding.name ∈ later.taken ∧
      value.binding ∉ nodes := by
  rcases h.shared value hvalue with hold | hnew
  · rw [hstart] at hold
    exact absurd hold List.not_mem_nil
  · exact hnew

/-- A name that is introduced was free before, and it is one that a scope hands out. -/
theorem introduced_new (h : Progress.LeadsTo ⟨start, []⟩ progress) {name : Text}
    (hname : name ∈ progress.introduced) :
    name ∉ start.taken ∧ ∃ hint i, name = candidate (stem hint) i := by
  obtain ⟨compiled, hcompiled, hallocates⟩ := h
  rw [List.nil_append] at hcompiled
  have hnew : name ∉ start.taken ∧ name ∈ progress.scope.taken := by
    obtain ⟨binding, hbinding, rfl⟩ := List.mem_map.mp hname
    rcases List.mem_append.mp hbinding with hnode | hshared
    · rw [hcompiled] at hnode
      exact ⟨hallocates.fresh binding hnode, hallocates.taken binding hnode⟩
    · obtain ⟨value, hvalue, rfl⟩ := List.mem_map.mp hshared
      have hdeclared := shared_declared hstart hallocates hvalue
      exact ⟨hdeclared.1, hdeclared.2.1⟩
  exact ⟨hnew.1, (hallocates.spelled name hnew.2).resolve_left hnew.1⟩

end

section

variable {source : Text} {progress : Progress}

theorem introduced_nodup
    (h : Progress.LeadsTo ⟨Scope.empty.reserve (namesIn source), []⟩ progress) :
    progress.introduced.Nodup := by
  obtain ⟨compiled, hcompiled, hallocates⟩ := h
  rw [List.nil_append] at hcompiled
  have hsound : (Scope.empty.reserve (namesIn source)).Sound := by
    constructor
    · rw [Scope.reserve_shared]
      exact List.nodup_nil
    · rw [Scope.reserve_shared]
      exact fun _ hvalue => absurd hvalue List.not_mem_nil
  have hinjective : Function.Injective Binding.name := by
    rintro ⟨a⟩ ⟨b⟩ rfl
    rfl
  unfold Progress.introduced
  rw [hcompiled]
  refine List.Nodup.map hinjective (List.Nodup.append hallocates.nodup
    (hallocates.sound hsound).distinct ?_)
  intro binding hnode hshared
  obtain ⟨value, hvalue, rfl⟩ := List.mem_map.mp hshared
  exact (shared_declared (Scope.reserve_shared _ _) hallocates hvalue).2.2 hnode

theorem introduced_fresh
    (h : Progress.LeadsTo ⟨Scope.empty.reserve (namesIn source), []⟩ progress) {name : Text}
    (hname : name ∈ progress.introduced) :
    isName name = true ∧ name ∉ namesIn source := by
  obtain ⟨hnew, hint, i, rfl⟩ := introduced_new (Scope.reserve_shared _ _) h hname
  exact ⟨isName_candidate hint i, fun hfound => hnew (Scope.mem_reserve.mpr (Or.inl hfound))⟩

end

/-- **Hygiene.** The names that compiling a script brings into it are all different, and none of
them stands in the script. -/
theorem transform_hygienic {options : Options} {source : Text} {result : Transformed}
    (h : transform options source = .ok result) :
    ∃ items edits progress, compileTemplates options source = .ok (items, edits, progress) ∧
      Edit.applyAll source (fileEdits options source items edits
        (declarations options progress.scope.shared)) = some result.code ∧
      result.templates = progress.compiled.length ∧
      progress.introduced.Nodup ∧
      ∀ name ∈ progress.introduced, ¬StandsIn source name := by
  rw [transform_eq] at h
  obtain ⟨⟨items, edits, progress⟩, hcompile, h⟩ := bind_eq_ok_iff.mp h
  dsimp only at h
  split at h
  · cases h
  next code hcode =>
  cases h
  have hrun := compileTemplates_leadsTo hcompile
  refine ⟨items, edits, progress, hcompile, hcode, rfl, introduced_nodup hrun, ?_⟩
  intro name hname hstands
  obtain ⟨hisName, hnotFound⟩ := introduced_fresh hrun hname
  exact hnotFound (mem_namesIn_of_standsIn hisName hstands)

/-- A template in a substitution of another, in a script that has a name of the generated kind. The
name `_p` is passed over, although it stands in a comment only. -/
theorem transform_hygienic_nested :
    let source :=
      "/* _p */ require('bel')\x60<p>$\x7brequire('bel')\x60<p></p>\x60\x7d</p>\x60".toList
    StandsIn source "_p".toList ∧ ∃ result items edits progress,
      transform {} source = .ok result ∧
      compileTemplates {} source = .ok (items, edits, progress) ∧
      progress.introduced = ["_p2", "_p3", "_appendChild"].map String.toList ∧
      progress.introduced.Nodup ∧ ∀ name ∈ progress.introduced, ¬StandsIn source name := by
  intro source
  have hstands : StandsIn source "_p".toList := by
    refine ⟨"/* ".toList, source.drop 5, by decide, ?_, ?_⟩
    · rintro c ⟨⟩
      rfl
    · rintro c ⟨⟩
      rfl
  have hnames : (compileTemplates {} source).toOption.map (fun run => run.2.2.introduced)
      = some (["_p2", "_p3", "_appendChild"].map String.toList) := by
    decide +kernel
  have hok : (transform {} source).toOption.isSome = true := by
    decide +kernel
  cases htransform : transform {} source with
  | error e =>
      rw [htransform] at hok
      cases hok
  | ok result =>
      obtain ⟨items, edits, progress, hcompile, -, -, hnodup, hfresh⟩ :=
        transform_hygienic htransform
      rw [hcompile] at hnames
      exact ⟨hstands, result, items, edits, progress, rfl, hcompile, Option.some.inj hnames, hnodup,
        hfresh⟩

end Script
end Hypertext
