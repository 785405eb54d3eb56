import Hypertext.Proofs.Hygiene

set_option autoImplicit false

/-! # Where helpers come from

The code of a template calls helpers, and some options say where a script gets them from: a module
for each helper, and whether modules are imported or required. This file proves that these options
decide over the declarations after the prologue and over nothing else (`transform_wiring`).

That the templates compile to the same operations is a matter of the definitions: none of them asks
for the options in question. It is less plain that the declarations can be told from the rest of the
output, because they are put in by an edit among the others. An edit is sorted by its span, whatever
its text is, so that the text stands in the result once, with the same surroundings for every text
(`Edit.applyAll_insertion`).
-/

namespace Hypertext

/-! ## A text among the edits of a script -/

namespace Script
namespace Edit

variable {span : Span}

/-- An edit is sorted in before or behind another by the span of the other alone. -/
theorem insertSorted_split (edit : Edit) {earlier later : List Edit}
    (h : (earlier ++ ⟨span, []⟩ :: later).Pairwise fun a b => le a b = true) :
    ∃ earlier' later', insertSorted le edit (earlier ++ later) = earlier' ++ later' ∧
      ∀ text, insertSorted le edit (earlier ++ ⟨span, text⟩ :: later)
        = earlier' ++ ⟨span, text⟩ :: later' := by
  induction earlier with
  | nil =>
      obtain ⟨hlater, -⟩ := List.pairwise_cons.mp h
      by_cases hle : le edit ⟨span, []⟩ = true
      · refine ⟨[edit], later, ?_, fun text => if_pos hle⟩
        -- what comes before the text also comes before all that is sorted behind it
        cases later with
        | nil => rfl
        | cons next later =>
            have hnext := hlater next List.mem_cons_self
            have : le edit next = true := by
              rw [le_iff] at *
              dsimp only at hle hnext
              omega
            exact if_pos this
      · exact ⟨[], insertSorted le edit later, rfl, fun text => if_neg hle⟩
  | cons first earlier ih =>
      by_cases hle : le edit first = true
      · exact ⟨edit :: first :: earlier, later, if_pos hle, fun text => if_pos hle⟩
      · obtain ⟨earlier', later', hrest, htext⟩ := ih (List.pairwise_cons.mp h).2
        refine ⟨first :: earlier', later', ?_, fun text => ?_⟩
        · exact (if_neg hle).trans (congrArg (first :: ·) hrest)
        · exact (if_neg hle).trans (congrArg (first :: ·) (htext text))

/-- The edits before and behind a text are the same for every text. -/
theorem sorted_split (edits : List Edit) (span : Span) :
    ∃ earlier later, sorted le edits = earlier ++ later ∧
      ∀ text, sorted le (edits ++ [⟨span, text⟩]) = earlier ++ ⟨span, text⟩ :: later := by
  induction edits with
  | nil => exact ⟨[], [], rfl, fun text => rfl⟩
  | cons edit edits ih =>
      obtain ⟨earlier, later, hedits, htext⟩ := ih
      have hordered : (earlier ++ ⟨span, []⟩ :: later).Pairwise fun a b => le a b = true := by
        rw [← htext]
        exact sorted_le _
      obtain ⟨earlier', later', hedits', htext'⟩ := insertSorted_split edit hordered
      refine ⟨earlier', later', ?_, fun text => ?_⟩
      · rw [sorted, hedits, hedits']
      · rw [List.cons_append, sorted, htext, htext']

/-- What remains of a script, before and behind a span. -/
def cutAround? (place : Nat) (rest : Text) (span : Span) : Option (Text × Text) :=
  if span.start < place ∨ span.stop < span.start then none
  else
    (Text.cut? (span.start - place) rest).bind fun parts =>
      (Text.cut? (span.stop - span.start) parts.2).map fun inner => (parts.1, inner.2)

theorem applyFrom_cons (place : Nat) (rest : Text) (edit : Edit) (edits : List Edit) :
    applyFrom place rest (edit :: edits)
      = (cutAround? place rest edit.span).bind fun parts =>
          (applyFrom edit.span.stop parts.2 edits).map
            fun tail => parts.1 ++ edit.text ++ tail := by
  rw [applyFrom, cutAround?]
  split
  · rfl
  · cases Text.cut? (edit.span.start - place) rest with
    | none => rfl
    | some parts =>
        dsimp only [Option.bind_some]
        cases Text.cut? (edit.span.stop - edit.span.start) parts.2 with
        | none => rfl
        | some inner => rfl

/-- The result has the text of an edit in it once, and otherwise does not depend on it. -/
theorem applyFrom_split (place : Nat) (rest : Text) (earlier later : List Edit) (span : Span) :
    ∃ parts : Option (Text × Text), ∀ text,
      applyFrom place rest (earlier ++ ⟨span, text⟩ :: later)
        = parts.map fun part => part.1 ++ (text ++ part.2) := by
  induction earlier generalizing place rest with
  | nil =>
      refine ⟨(cutAround? place rest span).bind fun parts =>
        (applyFrom span.stop parts.2 later).map fun tail => (parts.1, tail), fun text => ?_⟩
      rw [List.nil_append, applyFrom_cons]
      simp only [Option.map_bind, Function.comp_def, Option.map_map, List.append_assoc]
  | cons edit earlier ih =>
      cases hcut : cutAround? place rest edit.span with
      | none =>
          refine ⟨none, fun text => ?_⟩
          rw [List.cons_append, applyFrom_cons, hcut]
          rfl
      | some around =>
          obtain ⟨parts, hparts⟩ := ih edit.span.stop around.2
          refine ⟨parts.map fun part => (around.1 ++ edit.text ++ part.1, part.2), fun text => ?_⟩
          rw [List.cons_append, applyFrom_cons, hcut, Option.bind_some, hparts]
          simp only [Option.map_map, Function.comp_def, List.append_assoc]

/-- Edits that can be applied to the end of a script leave alone what stands before it. -/
theorem applyFrom_skip {before kept after tail : Text} {edits : List Edit}
    (h : applyFrom (Text.byteSize (before ++ kept)) after edits = some tail) :
    applyFrom (Text.byteSize before) (kept ++ after) edits = some (kept ++ tail) := by
  cases edits with
  | nil =>
      cases h
      rfl
  | cons edit edits =>
      obtain ⟨kept', t, after', tail', rfl, hspan, htail, rfl⟩ := applyFrom_cons_eq_some_iff.mp h
      refine applyFrom_cons_eq_some_iff.mpr ⟨kept ++ kept', t, after', tail', ?_, ?_, ?_, ?_⟩
      · simp only [List.append_assoc]
      · simpa only [List.append_assoc] using hspan
      · simpa only [List.append_assoc] using htail
      · simp only [List.append_assoc]

/-- Nothing put in at a place changes nothing. -/
theorem applyFrom_without_insertion {before rest result : Text} {earlier later : List Edit}
    {place : Nat}
    (h : applyFrom (Text.byteSize before) rest (earlier ++ ⟨⟨place, place⟩, []⟩ :: later)
      = some result) :
    applyFrom (Text.byteSize before) rest (earlier ++ later) = some result := by
  induction earlier generalizing before rest result with
  | nil =>
      obtain ⟨kept, t, after, tail, rfl, hspan, htail, rfl⟩ := applyFrom_cons_eq_some_iff.mp h
      obtain ⟨hstart, hstop⟩ := Span.mk.inj hspan
      have hsize : Text.byteSize t = 0 := by
        rw [Text.byteSize_append _ t] at hstop
        omega
      obtain rfl := Text.eq_nil_of_byteSize_eq_zero hsize
      rw [List.append_nil] at htail
      simpa using applyFrom_skip htail
  | cons edit earlier ih =>
      obtain ⟨kept, t, after, tail, rfl, hspan, htail, rfl⟩ := applyFrom_cons_eq_some_iff.mp h
      exact applyFrom_cons_eq_some_iff.mpr ⟨kept, t, after, tail, rfl, hspan, ih htail, rfl⟩

/-- **A text put in among edits.** Whether the edits can be applied does not depend on the text. If
they can, the text stands between two parts of what they come to without it. -/
theorem applyAll_insertion (source : Text) (edits : List Edit) (place : Nat) :
    (∀ text, applyAll source (edits ++ [⟨⟨place, place⟩, text⟩]) = none) ∨
      ∃ before after, applyAll source edits = some (before ++ after) ∧
        ∀ text, applyAll source (edits ++ [⟨⟨place, place⟩, text⟩])
          = some (before ++ (text ++ after)) := by
  obtain ⟨earlier, later, hedits, hsorted⟩ := sorted_split edits ⟨place, place⟩
  obtain ⟨parts, hparts⟩ := applyFrom_split 0 source earlier later ⟨place, place⟩
  have happly : ∀ text, applyAll source (edits ++ [⟨⟨place, place⟩, text⟩])
      = parts.map fun part => part.1 ++ (text ++ part.2) := by
    intro text
    rw [applyAll, hsorted, hparts]
  cases parts with
  | none => exact .inl happly
  | some part =>
      refine .inr ⟨part.1, part.2, ?_, happly⟩
      have hnothing : applyFrom (Text.byteSize []) source (earlier ++ ⟨⟨place, place⟩, []⟩ :: later)
          = some (part.1 ++ part.2) := hparts []
      rw [applyAll, hedits]
      exact applyFrom_without_insertion hnothing

end Edit
end Script

/-! ## Options that agree on the templates -/

/-- Options that differ at most in where helpers come from. -/
structure Options.SameTemplates (a b : Options) : Prop where
  templateModules : a.templateModules = b.templateModules
  removeImports : a.removeImports = b.removeImports
  lifecycle : a.lifecycle = b.lifecycle
  collapseWhitespace : a.collapseWhitespace = b.collapseWhitespace

namespace Options.SameTemplates

variable {a b : Options} (h : a.SameTemplates b)

include h

theorem lowering_eq : a.lowering = b.lowering := by
  rw [lowering, lowering, h.lifecycle, h.collapseWhitespace]

theorem isTemplateModule_eq : a.isTemplateModule = b.isTemplateModule := by
  funext name
  rw [isTemplateModule, isTemplateModule, h.templateModules]

theorem removesImport_eq : a.removesImport = b.removesImport := by
  funext name
  rw [removesImport, removesImport, h.removeImports]

end Options.SameTemplates

namespace Script
namespace Compiler

theorem cookAll_agree (a b : Options) (source : Text) (tags : List Text) (base : Nat)
    (pieces : List Piece) :
    Compiler.cookAll ⟨source, a, tags⟩ base pieces
      = Compiler.cookAll ⟨source, b, tags⟩ base pieces := by
  induction pieces with
  | nil => rfl
  | cons piece pieces ih => simp only [cookAll, ih, unreadable]

section

variable {a b : Options} (h : a.SameTemplates b) (source : Text) (tags : List Text)

include h

theorem compile_agree : compile a = compile b := by
  funext quasis expressions scope
  simp only [compile, h.lowering_eq]

theorem recognizes_agree :
    Compiler.recognizes ⟨source, a, tags⟩ = Compiler.recognizes ⟨source, b, tags⟩ := by
  funext tag
  simp only [recognizes, h.isTemplateModule_eq]

/-- **One template** comes to the same for both options. -/
theorem template_agree (inner : Inner) (text : Text) (base : Nat) (literal : TemplateLiteral)
    (progress : Progress) :
    Compiler.template ⟨source, a, tags⟩ inner text base literal progress
      = Compiler.template ⟨source, b, tags⟩ inner text base literal progress := by
  simp only [Compiler.template, recognizes_agree h, compile_agree h, cookAll_agree a b]

theorem templates_agree (inner : Inner) (text : Text) (base : Nat) (items : List Item)
    (progress : Progress) :
    Compiler.templates ⟨source, a, tags⟩ inner text base items progress
      = Compiler.templates ⟨source, b, tags⟩ inner text base items progress := by
  induction items generalizing progress with
  | nil => rfl
  | cons item items ih =>
      cases item with
      | binding declaration => exact ih progress
      | template literal => simp only [templates, template_agree h, ih]

/-- **Nested templates** come to the same for both options. -/
theorem fragment_agree (fuel : Nat) :
    Compiler.fragment ⟨source, a, tags⟩ fuel = Compiler.fragment ⟨source, b, tags⟩ fuel := by
  induction fuel with
  | zero => rfl
  | succ fuel ih =>
      funext text base progress
      simp only [fragment, ih, templates_agree h]
      rfl

end

end Compiler

theorem compileTemplates_agree {a b : Options} (h : a.SameTemplates b) (source : Text) :
    compileTemplates a source = compileTemplates b source := by
  simp only [compileTemplates, Compiler.templates_agree h, Compiler.fragment_agree h,
    h.isTemplateModule_eq]

/-! ## Blocks of declarations -/

/-- A line that declares a name, in one of the two styles. -/
inductive DeclaresName (name : Text) : Text → Prop where
  | assigned (value : Text) :
      DeclaresName name ("var ".toList ++ name ++ " = ".toList ++ value ++ ";\n".toList)
  | imported (moduleName : Text) :
      DeclaresName name
        ("import ".toList ++ name ++ " from ".toList ++ stringLiteral moduleName ++ ";\n".toList)

/-- A block declares names one after the other, and nothing else stands in it. -/
inductive Declares : List Text → Text → Prop where
  | nil : Declares [] []
  | cons {name line block : Text} {names : List Text} (hline : DeclaresName name line)
      (hblock : Declares names block) : Declares (name :: names) (line ++ block)

theorem declaresName_sharedDeclaration (options : Options) (value : Shared) :
    DeclaresName value.binding.name (sharedDeclaration options value ++ ['\n']) := by
  have hvariable : ∀ init,
      DeclaresName value.binding.name (declaration value.binding init ++ ['\n']) := by
    intro init
    simpa [declaration_eq] using DeclaresName.assigned init
  unfold sharedDeclaration
  cases value.init with
  | literal text => exact hvariable _
  | helper helper =>
      dsimp only
      cases options.helperModule? helper with
      | none => exact hvariable _
      | some moduleName =>
          dsimp only
          by_cases himport : options.useImportStyle = true
          · rw [if_pos himport]
            simpa using DeclaresName.imported moduleName
          · rw [if_neg himport]
            exact hvariable _

/-- The declarations of shared values bind their names in order, whatever the options. -/
theorem declares_declarations (options : Options) (shared : List Shared) :
    Declares (shared.map fun value => value.binding.name) (declarations options shared) := by
  induction shared with
  | nil => exact .nil
  | cons value shared ih => exact .cons (declaresName_sharedDeclaration options value) ih

theorem declarations_isEmpty_iff {options : Options} {shared : List Shared} :
    (declarations options shared).isEmpty = true ↔ shared = [] := by
  cases shared with
  | nil => simp [declarations]
  | cons value shared => simp [declarations]

/-! ## Whole scripts -/

/-- Options with the same deletions differ in what is put in after the prologue, and only if there
is something to declare. -/
theorem applyAll_fileEdits (source : Text) (items : List Item) (edits removed : List Edit)
    (shared : List Shared) :
    (∀ options, removals options source items = removed →
      Edit.applyAll source (fileEdits options source items edits (declarations options shared))
        = none) ∨
      ∃ before after, Edit.applyAll source (removed ++ edits) = some (before ++ after) ∧
        ∀ options, removals options source items = removed →
          Edit.applyAll source (fileEdits options source items edits (declarations options shared))
            = some (before ++ (declarations options shared ++ after)) := by
  by_cases hshared : shared = []
  · -- nothing to declare: there is no insertion
    have hedits : ∀ options, removals options source items = removed →
        fileEdits options source items edits (declarations options shared) = removed ++ edits := by
      intro options hremoved
      simp [fileEdits, hremoved, declarations, hshared]
    cases happly : Edit.applyAll source (removed ++ edits) with
    | none =>
        left
        intro options hremoved
        rw [hedits options hremoved, happly]
    | some code =>
        refine .inr ⟨code, [], by rw [List.append_nil], fun options hremoved => ?_⟩
        rw [hedits options hremoved, happly]
        simp [declarations, hshared]
  · have hedits : ∀ options, removals options source items = removed →
        fileEdits options source items edits (declarations options shared) = (removed ++ edits)
          ++ [⟨⟨prologueEnd source, prologueEnd source⟩, declarations options shared⟩] := by
      intro options hremoved
      rw [fileEdits, if_neg (mt declarations_isEmpty_iff.mp hshared), hremoved]
    rcases Edit.applyAll_insertion source (removed ++ edits) (prologueEnd source) with
      hnone | ⟨before, after, hwithout, hwith⟩
    · left
      intro options hremoved
      rw [hedits options hremoved, hnone]
    · refine .inr ⟨before, after, hwithout, fun options hremoved => ?_⟩
      rw [hedits options hremoved, hwith]

/-- **Where helpers come from never changes the compiled code.** Options that differ in nothing else
compile the templates of a script to the same operations. Either both refuse the script, with the
same error, or both accept it with the same number of templates. The two outputs are the same but
for one block each, at the same place, and both blocks declare the same names in the same order. -/
theorem transform_wiring {a b : Options} (h : a.SameTemplates b) (source : Text) :
    compileTemplates a source = compileTemplates b source ∧
      ((∃ e, transform a source = .error e ∧ transform b source = .error e) ∨
        ∃ items edits progress before after names,
          compileTemplates a source = .ok (items, edits, progress) ∧
          Edit.applyAll source (removals a source items ++ edits) = some (before ++ after) ∧
          (∀ options, options = a ∨ options = b → transform options source
            = .ok ⟨before ++ (declarations options progress.scope.shared ++ after),
              progress.compiled.length⟩) ∧
          Declares names (declarations a progress.scope.shared) ∧
          Declares names (declarations b progress.scope.shared)) := by
  have hcompile := compileTemplates_agree h source
  refine ⟨hcompile, ?_⟩
  cases ha : compileTemplates a source with
  | error e =>
      left
      refine ⟨e, ?_, ?_⟩
      · rw [transform_eq, ha]
        rfl
      · rw [transform_eq, ← hcompile, ha]
        rfl
  | ok result =>
      obtain ⟨items, edits, progress⟩ := result
      have hremoved : removals b source items = removals a source items := by
        simp only [removals, h.removesImport_eq]
      have heq : ∀ options, options = a ∨ options = b →
          compileTemplates options source = .ok (items, edits, progress) ∧
            removals options source items = removals a source items := by
        rintro options (rfl | rfl)
        · exact ⟨ha, rfl⟩
        · exact ⟨hcompile ▸ ha, hremoved⟩
      rcases applyAll_fileEdits source items edits (removals a source items) progress.scope.shared
        with hnone | ⟨before, after, hwithout, hwith⟩
      · left
        have hoverlap : ∀ options, options = a ∨ options = b →
            transform options source = .error .overlap := by
          intro options hoptions
          obtain ⟨hok, hsame⟩ := heq options hoptions
          rw [transform_eq, hok]
          simp only [bind, Except.bind, hnone options hsame]
        exact ⟨.overlap, hoverlap a (.inl rfl), hoverlap b (.inr rfl)⟩
      · right
        refine ⟨items, edits, progress, before, after, _, rfl, hwithout, fun options hoptions => ?_,
          declares_declarations a _, declares_declarations b _⟩
        obtain ⟨hok, hsame⟩ := heq options hoptions
        exact transform_eq_ok_iff.mpr ⟨items, edits, progress, hok, hwith options hsame, rfl⟩

/-- A script with a directive and a declaration that is deleted. One of the options imports the
helper of its template, so that the two blocks differ. -/
theorem transform_wiring_imported :
    let imported : Options := { appendChildModule := "append".toList, useImportStyle := true }
    let source := "'use strict'\nvar h = require('bel');\nh\x60<p>$\x7bx\x7d</p>\x60".toList
    ∃ before after block block' : Text, ∃ names,
      transform {} source = .ok ⟨before ++ (block ++ after), 1⟩ ∧
      transform imported source = .ok ⟨before ++ (block' ++ after), 1⟩ ∧
      block ≠ block' ∧ Declares names block ∧ Declares names block' := by
  intro imported source
  have hsame : Options.SameTemplates {} imported := ⟨rfl, rfl, rfl, rfl⟩
  have hcount : (transform {} source).toOption.map Transformed.templates = some 1 := by
    decide +kernel
  have hdiffer : (transform {} source).toOption ≠ (transform imported source).toOption := by
    decide +kernel
  rcases (transform_wiring hsame source).2 with
    ⟨e, herror, -⟩ | ⟨items, edits, progress, before, after, names, -, -, hok, hblock, hblock'⟩
  · rw [herror] at hcount
    cases hcount
  · have hplain := hok {} (.inl rfl)
    have himported := hok imported (.inr rfl)
    have hone : progress.compiled.length = 1 := by
      rw [hplain] at hcount
      exact Option.some.inj hcount
    rw [hone] at hplain himported
    refine ⟨before, after, _, _, names, hplain, himported, fun heq => hdiffer ?_, hblock, hblock'⟩
    rw [hplain, himported, heq]

end Script
end Hypertext
