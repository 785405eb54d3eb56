import Hypertext.Command.Run
import Hypertext.Proofs.NamesInCode
import Hypertext.Proofs.ReservedNames
import Hypertext.Proofs.Shifted
import Hypertext.Proofs.Untouched
import Mathlib.Data.List.DropRight

set_option autoImplicit false

/-! # One template by itself

The body of a template can be compiled in two ways: as it is, or as a script that consists of the
template behind a tag. The two do not always come to the same code. As a script, it is compiled in a
scope in which the names of the script are reserved; by itself, no name is reserved. This file
proves that there is no other difference, and that it matters exactly if a name that is introduced
already stands in the body (`lowerBody_agrees_iff`).

Both ways are reduced to `alone`, which compiles the template in a given scope. The scope is all in
which they differ. That reserved names do not matter as long as none of them is introduced, and that
they show in the code otherwise, is known by then (`Compiler.compile_over`,
`Compiler.compile_eq_of_code`).
-/

namespace Hypertext

/-! ## Expressions without the blanks around them -/

theorem Text.trim_trim (t : Text) : t.trim.trim = t.trim := by
  -- what is left begins with a character that is no blank, also after the end was cut off
  have hstart : t.trim.trimStart = t.trim := by
    obtain ⟨rest, hrest⟩ : t.trim <+: t.trimStart := List.rdropWhile_prefix isBlank _
    cases htrim : t.trim with
    | nil => rfl
    | cons c s =>
        have hfirst : isBlank c = false := by
          have hhead := List.head?_dropWhile_not isBlank t
          rw [show t.dropWhile isBlank = t.trimStart from rfl, ← hrest, htrim] at hhead
          exact hhead
        exact List.dropWhile_cons_of_neg (by simp [hfirst])
  calc t.trim.trim = t.trim.trimEnd := by rw [trim, hstart]
    _ = t.trim := List.rdropWhile_idempotent isBlank t.trimStart

namespace Script

theorem expression_trim (expressions : List Text) (index : Nat) :
    expression (expressions.map Text.trim) index = expression expressions index := by
  unfold expression
  rw [List.getElem?_map]
  cases expressions[index]? with
  | none => rfl
  | some text =>
      simp only [Option.map_some, Text.trim_trim]

theorem value_trim (expressions : List Text) (v : Value) :
    value (expressions.map Text.trim) v = value expressions v := by
  induction v with
  | str text => rfl
  | expr index => exact expression_trim expressions index
  | ref binding => rfl
  | toText inner ih => exact congrArg (fun code => "String(".toList ++ code ++ [')']) ih
  | concat left right ihleft ihright =>
      -- a sum on the right side stands in parentheses
      cases right with
      | concat middle last =>
          exact congrArg₂ (fun first second => first ++ " + (".toList ++ second ++ [')'])
            ihleft ihright
      | str _ | expr _ | ref _ | toText _ =>
          exact congrArg₂ (fun first second => first ++ " + ".toList ++ second) ihleft ihright

theorem statement_trim (expressions : List Text) (helper : Option Binding) (operation : Operation) :
    statement (expressions.map Text.trim) helper operation
      = statement expressions helper operation := by
  have hvalue : value (expressions.map Text.trim) = value expressions :=
    funext (value_trim expressions)
  unfold statement optionalValue
  rw [hvalue]

theorem statements_trim (expressions : List Text) (operations : List Operation) (scope : Scope) :
    statements (expressions.map Text.trim) operations scope
      = statements expressions operations scope := by
  induction operations generalizing scope with
  | nil => rfl
  | cons operation rest ih => simp only [statements, statement_trim, ih]

theorem render_trim (expressions : List Text) (lowered : Lowered) (scope : Scope) :
    render (expressions.map Text.trim) lowered scope = render expressions lowered scope := by
  simp only [render, statements_trim]

theorem Compiler.compile_trim (options : Options) (quasis expressions : List Text)
    (scope : Scope) :
    compile options quasis (expressions.map Text.trim) scope
      = compile options quasis expressions scope := by
  unfold compile Template.ofParts
  by_cases hbalanced : quasis.length = expressions.length + 1
  · have hbalanced' : quasis.length = (expressions.map Text.trim).length + 1 := by
      rwa [List.length_map]
    have hlower : (⟨quasis, expressions.map Text.trim, hbalanced'⟩ : Template).lower
        options.lowering scope
          = (⟨quasis, expressions, hbalanced⟩ : Template).lower options.lowering scope :=
      Template.lower_of_quasis (by rfl) scope
    rw [dif_pos hbalanced, dif_pos hbalanced']
    simp only [hlower, render_trim]
  · rw [dif_neg hbalanced, dif_neg (by rwa [List.length_map]), List.length_map]

/-! ## Both ways compile the template alone -/

open Command

/-- A template literal compiled alone in a scope: the progress that is made with it, and the code
after the declarations that it needs. -/
def alone (options : Options) (literal : TemplateLiteral) (scope : Scope) :
    Option (Progress × Text) := do
  let quasis ← (cookPieces literal.quasis).toOption
  match Compiler.compile options quasis (literal.substitutions.map Piece.text) scope with
  | (.error _, _) => none
  | (.ok (lowered, code), after) =>
    some (⟨after, [lowered]⟩, declarations options after.shared ++ code)

theorem alone_eq_some_iff {options : Options} {literal : TemplateLiteral} {scope : Scope}
    {progress : Progress} {t : Text} :
    alone options literal scope = some (progress, t) ↔ ∃ quasis lowered code after,
      cookPieces literal.quasis = .ok quasis ∧
      Compiler.compile options quasis (literal.substitutions.map Piece.text) scope
        = (.ok (lowered, code), after) ∧
      progress = ⟨after, [lowered]⟩ ∧ t = declarations options after.shared ++ code := by
  unfold alone
  cases hcook : cookPieces literal.quasis with
  | error e => simp [Except.toOption]
  | ok quasis =>
      cases hcompile :
          Compiler.compile options quasis (literal.substitutions.map Piece.text) scope with
      | mk result after =>
          cases result with
          | error e => simp [Except.toOption, hcompile]
          | ok found =>
              obtain ⟨lowered, code⟩ := found
              simp [Except.toOption, hcompile, eq_comm]

/-! ### As it is -/

theorem soleTemplate_eq_ok_iff {body : Text} {literal : TemplateLiteral} :
    soleTemplate body = .ok literal ↔
      scan ('\x60' :: (body ++ ['\x60'])) = .ok [.template literal] ∧
        literal.span = ⟨0, Text.byteSize ('\x60' :: (body ++ ['\x60']))⟩ := by
  constructor
  · intro h
    unfold soleTemplate at h
    dsimp only at h
    split at h
    · cases h
    · next template hscan =>
        split at h
        · next hspan =>
            cases h
            exact ⟨hscan, hspan⟩
        · cases h
    · cases h
  · rintro ⟨hscan, hspan⟩
    unfold soleTemplate
    dsimp only
    rw [hscan]
    exact if_pos hspan

/-- **By itself** a template is compiled in the empty scope. -/
theorem lowerBody_alone {options : Options} {body : Text} {literal : TemplateLiteral}
    (hsole : soleTemplate body = .ok literal) :
    (lowerBody options true body).toOption
      = (alone options literal .empty).map fun found => found.2 ++ ['\n'] := by
  have hexpressions : literal.substitutions.map (fun piece => piece.text.trim)
      = (literal.substitutions.map Piece.text).map Text.trim := by
    rw [List.map_map]
    rfl
  unfold lowerBody alone
  rw [hsole]
  simp only [bind, Except.bind, hexpressions]
  cases hcook : cookPieces literal.quasis with
  | error e => rfl
  | ok quasis =>
      simp only [Except.toOption, Option.bind_some]
      -- the command takes the blanks away that the renderer would take away
      rw [← Compiler.compile_trim]
      unfold Compiler.compile
      cases Template.ofParts quasis ((literal.substitutions.map Piece.text).map Text.trim) with
      | error e => rfl
      | ok template =>
          simp only [Except.mapError]
          cases hlower : template.lower options.lowering .empty with
          | mk result after =>
              cases result with
              | error e => rfl
              | ok lowered => rfl

/-! ### As a script -/

/-- The script that consists of a template behind the tag. -/
def taggedScript (body : Text) : Text := belTag ++ '\x60' :: (body ++ ['\x60'])

theorem namesIn_taggedScript (body : Text) :
    namesIn (taggedScript body) = ["require", "bel"].map String.toList ++ namesIn body := by
  have hnil : namesIn [] = [] := by rw [namesIn]
  have htag : namesIn belTag = ["require", "bel"].map String.toList := by
    have hrequire : namesIn belTag = "require".toList :: namesIn "('bel')".toList :=
      namesIn_cons_of_start _ rfl
    have hmarks : namesIn "('bel')".toList = namesIn "bel')".toList :=
      (namesIn_cons_of_not_start _ rfl).trans (namesIn_cons_of_not_start _ rfl)
    have hbel : namesIn "bel')".toList = "bel".toList :: namesIn "')".toList :=
      namesIn_cons_of_start _ rfl
    have hend : namesIn "')".toList = namesIn [] :=
      (namesIn_cons_of_not_start _ rfl).trans (namesIn_cons_of_not_start _ rfl)
    rw [hrequire, hmarks, hbel, hend, hnil]
    rfl
  rw [taggedScript, namesIn_append_break rfl, namesIn_append_break rfl, htag, hnil,
    List.append_nil]

theorem prologueEnd_taggedScript (body : Text) : prologueEnd (taggedScript body) = 0 := by
  have hnone : taggedScript body = [] ++ afterPrologue (taggedScript body) := rfl
  exact prologueEnd_eq hnone

/-- A template in whose place nothing else stands needs no separator. -/
theorem needsSeparator_nil : needsSeparator [] = false := by
  have hblanks : beforeBlanks false [] = ([], false) := by
    rw [beforeBlanks]
    rfl
  rw [needsSeparator, List.reverse_nil, hblanks]

theorem Compiler.templates_of_none {compiler : Compiler} {inner : Compiler.Inner} {text : Text}
    {base : Nat} {items : List Item} (h : ∀ literal, .template literal ∉ items)
    (progress : Progress) :
    compiler.templates inner text base items progress = .ok ([], progress) := by
  induction items with
  | nil => rfl
  | cons item items ih =>
      cases item with
      | binding declaration =>
          exact ih fun literal hmem => h literal (List.mem_cons_of_mem _ hmem)
      | template literal => exact absurd List.mem_cons_self (h literal)

/-- If a script is replaced as a whole and something is put in front of it, that is all there is. -/
theorem Edit.applyAll_whole {source : Text} (hsource : 0 < Text.byteSize source)
    (code declared : Text) :
    applyAll source ([⟨⟨0, Text.byteSize source⟩, code⟩]
        ++ if declared.isEmpty then [] else [⟨⟨0, 0⟩, declared⟩])
      = some (declared ++ code) := by
  have hwhole : applyFrom (Text.byteSize []) source [⟨⟨0, Text.byteSize source⟩, code⟩]
      = some code := by
    refine applyFrom_cons_eq_some_iff.mpr ⟨[], source, [], [], ?_, rfl, rfl, ?_⟩ <;> simp
  by_cases hdeclared : declared.isEmpty = true
  · rw [if_pos hdeclared, List.isEmpty_iff.mp hdeclared]
    exact hwhole
  · rw [if_neg hdeclared]
    -- of two edits at the same place, the one that takes nothing away comes first
    have hsorted : sorted le ([⟨⟨0, Text.byteSize source⟩, code⟩] ++ [⟨⟨0, 0⟩, declared⟩])
        = [⟨⟨0, 0⟩, declared⟩, ⟨⟨0, Text.byteSize source⟩, code⟩] := by
      have hle : ¬le ⟨⟨0, Text.byteSize source⟩, code⟩ ⟨⟨0, 0⟩, declared⟩ = true := by
        simp only [le_iff]
        omega
      exact if_neg hle
    rw [applyAll, hsorted]
    show applyFrom (Text.byteSize []) source _ = _
    exact applyFrom_cons_eq_some_iff.mpr ⟨[], [], source, code, rfl, rfl, hwhole, rfl⟩

theorem cookAll_shift {compiler : Compiler} {base d : Nat} {pieces : List Piece}
    {texts : List Text} :
    compiler.cookAll base (pieces.map (Piece.shift d)) = .ok texts ↔
      cookPieces pieces = .ok texts := by
  induction pieces generalizing texts with
  | nil => simp [Compiler.cookAll, cookPieces]
  | cons piece pieces ih =>
      rw [List.map_cons, Compiler.cookAll, cookPieces,
        show (piece.shift d).text = piece.text from rfl]
      cases cook piece.text with
      | error e => simp
      | ok text => simp only [map_eq_ok_iff, ih]

/-- Where there is one template, its edits are all. -/
theorem Compiler.templates_singleton (compiler : Compiler) (inner : Compiler.Inner) (text : Text)
    (base : Nat) (literal : TemplateLiteral) (progress : Progress) :
    compiler.templates inner text base [.template literal] progress
      = compiler.template inner text base literal progress := by
  rw [Compiler.templates]
  cases compiler.template inner text base literal progress with
  | error e => rfl
  | ok found => simp [Compiler.templates, bind, Except.bind, pure, Except.pure]

/-- A template to be compiled, where no separator is needed. -/
theorem Compiler.template_eq_ok_iff {compiler : Compiler} {inner : Compiler.Inner} {text : Text}
    {base : Nat} {literal : TemplateLiteral} {expressions : List Text} {progress after : Progress}
    {edits : List Edit}
    (hsubstitutions : substitutions inner base literal.substitutions progress
      = .ok (expressions, progress))
    (hrecognized : compiler.recognizes literal.tag = true)
    (hseparator : needsSeparator (Text.takeBytes literal.span.start text) = false) :
    compiler.template inner text base literal progress = .ok (edits, after) ↔
      ∃ quasis lowered code scope, compiler.cookAll base literal.quasis = .ok quasis ∧
        compile compiler.options quasis expressions progress.scope = (.ok (lowered, code), scope) ∧
        edits = [⟨literal.span, code⟩] ∧ after = ⟨scope, progress.compiled ++ [lowered]⟩ := by
  unfold Compiler.template
  simp only [hsubstitutions, hrecognized, hseparator, bind, Except.bind, Bool.not_true,
    Bool.false_eq_true, if_false]
  cases compiler.cookAll base literal.quasis with
  | error e => simp
  | ok quasis =>
      cases hcompile : compile compiler.options quasis expressions progress.scope with
      | mk result scope =>
          cases result with
          | error e => simp [hcompile]
          | ok found =>
              obtain ⟨lowered, code⟩ := found
              simp [hcompile, pure, Except.pure, eq_comm]

section

variable {options : Options} {body : Text} {literal : TemplateLiteral}
  (hmodule : options.isTemplateModule "bel".toList = true)
  (hsole : soleTemplate body = .ok literal)
  (hplain : ∀ piece ∈ literal.substitutions, ∃ items, scan piece.text = .ok items ∧
    ∀ found, .template found ∉ items)

include hmodule hsole hplain

theorem compileTemplates_taggedScript {items : List Item} {edits : List Edit}
    {progress : Progress} :
    compileTemplates options (taggedScript body) = .ok (items, edits, progress) ↔
      items = [.template literal.tagged] ∧ ∃ quasis lowered code after,
        cookPieces literal.quasis = .ok quasis ∧
        Compiler.compile options quasis (literal.substitutions.map Piece.text)
            (Scope.empty.reserve (namesIn (taggedScript body))) = (.ok (lowered, code), after) ∧
        edits = [⟨⟨0, Text.byteSize (taggedScript body)⟩, code⟩] ∧
        progress = ⟨after, [lowered]⟩ := by
  obtain ⟨hscan, hspan⟩ := soleTemplate_eq_ok_iff.mp hsole
  have hitems : scan (taggedScript body) = .ok [.template literal.tagged] :=
    scan_tagged hscan hspan
  have hplace : literal.tagged.span = ⟨0, Text.byteSize (taggedScript body)⟩ := by
    rw [TemplateLiteral.tagged, taggedScript, hspan, Text.byteSize_append]
    exact congrArg (Span.mk 0) (Nat.add_comm _ _)
  let compiler : Compiler := ⟨taggedScript body, options, []⟩
  have hsubstitutions : ∀ progress,
      Compiler.substitutions (compiler.fragment (taggedScript body).length) 0
          literal.tagged.substitutions progress
        = .ok (literal.substitutions.map Piece.text, progress) := by
    intro progress
    have htexts : literal.tagged.substitutions.map Piece.text
        = literal.substitutions.map Piece.text := List.map_map
    rw [← htexts]
    -- a substitution without templates comes out as it is, wherever it stands
    refine Compiler.substitutions_same fun piece hpiece progress => ?_
    obtain ⟨original, horiginal, rfl⟩ := List.mem_map.mp hpiece
    obtain ⟨items, hread, hnone⟩ := hplain original horiginal
    exact Compiler.fragment_of_no_edits hread (Compiler.templates_of_none hnone progress)
  have hrecognized : compiler.recognizes literal.tagged.tag = true := hmodule
  -- the template begins the script, so there is nothing that a separator could end
  have hseparator : needsSeparator
      (Text.takeBytes literal.tagged.span.start (taggedScript body)) = false := needsSeparator_nil
  have hcompile : compileTemplates options (taggedScript body) = (do
      let result ← compiler.template (compiler.fragment (taggedScript body).length)
        (taggedScript body) 0 literal.tagged ⟨Scope.empty.reserve (namesIn (taggedScript body)), []⟩
      return ([.template literal.tagged], result)) := by
    rw [compileTemplates, hitems, ← Compiler.templates_singleton]
    rfl
  rw [hcompile, bind_eq_ok_iff]
  constructor
  · rintro ⟨⟨edits', progress'⟩, htemplate, h⟩
    cases h
    obtain ⟨quasis, lowered, code, after, hcook, hcode, rfl, rfl⟩ :=
      (Compiler.template_eq_ok_iff (hsubstitutions _) hrecognized hseparator).mp htemplate
    rw [hplace]
    exact ⟨rfl, quasis, lowered, code, after, cookAll_shift.mp hcook, hcode, rfl, rfl⟩
  · rintro ⟨rfl, quasis, lowered, code, after, hcook, hcode, rfl, rfl⟩
    refine ⟨_, (Compiler.template_eq_ok_iff (hsubstitutions _) hrecognized hseparator).mpr
      ⟨quasis, lowered, code, after, cookAll_shift.mpr hcook, hcode, rfl, rfl⟩, ?_⟩
    rw [hplace]
    rfl

/-- **As a script** a template is compiled in the scope in which the names of the script are
reserved. -/
theorem transform_taggedScript {result : Transformed} :
    transform options (taggedScript body) = .ok result ↔ result.templates = 1 ∧
      ∃ progress, alone options literal (Scope.empty.reserve (namesIn (taggedScript body)))
        = some (progress, result.code) := by
  have hpositive : 0 < Text.byteSize (taggedScript body) := by
    rw [taggedScript, Text.byteSize_append, byteSize_belTag]
    omega
  have hcode : ∀ code declared, Edit.applyAll (taggedScript body) (fileEdits options
      (taggedScript body) [.template literal.tagged]
      [⟨⟨0, Text.byteSize (taggedScript body)⟩, code⟩] declared) = some (declared ++ code) := by
    intro code declared
    rw [fileEdits, prologueEnd_taggedScript]
    exact Edit.applyAll_whole hpositive code declared
  rw [transform_eq_ok_iff]
  simp only [compileTemplates_taggedScript hmodule hsole hplain, alone_eq_some_iff]
  constructor
  · rintro ⟨items, edits, progress, ⟨rfl, quasis, lowered, code, after, hcook, hcompile, rfl, rfl⟩,
      happly, htemplates⟩
    rw [hcode] at happly
    exact ⟨htemplates, _, quasis, lowered, code, after, hcook, hcompile, rfl,
      (Option.some.inj happly).symm⟩
  · rintro ⟨htemplates, progress, quasis, lowered, code, after, hcook, hcompile, rfl, ht⟩
    refine ⟨_, _, _, ⟨rfl, quasis, lowered, code, after, hcook, hcompile, rfl, rfl⟩, ?_, htemplates⟩
    rw [hcode, ht]

end

/-! ## What the scope changes -/

/-- Whether a template can be compiled does not depend on the scope. -/
theorem Compiler.compile_in {options : Options} {quasis expressions : List Text}
    {scope after : Scope} {lowered : Lowered} {code : Text}
    (h : compile options quasis expressions scope = (.ok (lowered, code), after)) (other : Scope) :
    ∃ lowered' code' after',
      compile options quasis expressions other = (.ok (lowered', code'), after') := by
  obtain ⟨template, _, htemplate, hlower, -⟩ := compile_eq_ok_iff.mp h
  cases hother : template.lower options.lowering other with
  | mk result after' =>
      cases result with
      | error e =>
          have hrefused := Template.lower_error_in (congrArg Prod.fst hother) scope
          rw [hlower] at hrefused
          cases hrefused
      | ok lowered' =>
          exact ⟨lowered', _, _, compile_eq_ok_iff.mpr ⟨template, after', htemplate, hother, rfl⟩⟩

section

variable {options : Options} {literal : TemplateLiteral} {scope other : Scope}
  {progress progress' : Progress} {t : Text}

theorem alone_leadsTo (h : alone options literal scope = some (progress, t)) :
    Progress.LeadsTo ⟨scope, []⟩ progress := by
  obtain ⟨quasis, lowered, code, after, -, hcompile, rfl, -⟩ := alone_eq_some_iff.mp h
  refine ⟨[lowered], rfl, ?_⟩
  rw [List.flatMap_singleton]
  exact Compiler.compile_allocates hcompile

theorem alone_in (h : alone options literal scope = some (progress, t)) (other : Scope) :
    ∃ progress' t', alone options literal other = some (progress', t') := by
  obtain ⟨quasis, lowered, code, after, hcook, hcompile, -, -⟩ := alone_eq_some_iff.mp h
  obtain ⟨lowered', code', after', hcompile'⟩ := Compiler.compile_in hcompile other
  exact ⟨_, _, alone_eq_some_iff.mpr
    ⟨quasis, lowered', code', after', hcook, hcompile', rfl, rfl⟩⟩

/-- Names that are not introduced can be reserved. -/
theorem alone_reserve {names : List Text}
    (h : alone options literal scope = some (progress, t))
    (hfree : ∀ name ∈ progress.introduced, name ∉ names) :
    ∃ progress', alone options literal (scope.reserve names) = some (progress', t) := by
  obtain ⟨quasis, lowered, code, after, hcook, hcompile, rfl, rfl⟩ := alone_eq_some_iff.mp h
  have hnodes : ∀ binding ∈ lowered.created, binding.name ∉ names := by
    intro binding hbinding
    refine hfree _ (List.mem_map_of_mem (List.mem_append_left _ ?_))
    rwa [List.flatMap_singleton]
  have havoids : after.Avoids names := fun value hvalue =>
    hfree _ (List.mem_map_of_mem (List.mem_append_right _ (List.mem_map_of_mem hvalue)))
  obtain ⟨later, hlater, hshared⟩ :=
    Compiler.compile_over (scope.over_reserve names) hcompile hnodes havoids
  refine ⟨_, alone_eq_some_iff.mpr ⟨quasis, lowered, code, later, hcook, hlater, rfl, ?_⟩⟩
  rw [hshared]

/-- The code tells which names are introduced. -/
theorem introduced_eq_of_alone (hscope : scope.shared = []) (hother : other.shared = [])
    (hgeneration : scope.generation = other.generation)
    (h : alone options literal scope = some (progress, t))
    (h' : alone options literal other = some (progress', t)) :
    progress.introduced = progress'.introduced := by
  obtain ⟨quasis, lowered, code, after, hcook, hcompile, rfl, hcode⟩ := alone_eq_some_iff.mp h
  obtain ⟨quasis', lowered', code', after', hcook', hcompile', rfl, hcode'⟩ :=
    alone_eq_some_iff.mp h'
  rw [hcook] at hcook'
  cases hcook'
  obtain ⟨rfl, hshared⟩ := Compiler.compile_eq_of_code hscope hother hgeneration hcompile hcompile'
    (hcode.symm.trans hcode')
  simp only [Progress.introduced, hshared]

end

/-! ## When both ways agree -/

/-- The names that a template introduces if it is compiled by itself. -/
def introducedAlone (options : Options) (literal : TemplateLiteral) : List Text :=
  ((alone options literal .empty).map fun found => found.1.introduced).getD []

theorem mem_introducedAlone {options : Options} {literal : TemplateLiteral} {name : Text} :
    name ∈ introducedAlone options literal ↔ ∃ progress t,
      alone options literal .empty = some (progress, t) ∧ name ∈ progress.introduced := by
  unfold introducedAlone
  cases alone options literal .empty with
  | none => simp
  | some found =>
      obtain ⟨progress, t⟩ := found
      simp

section

variable {options : Options} {literal : TemplateLiteral} {body : Text} {progress : Progress}
  {t : Text}

/-- If no introduced name stands in the body, the names of the script can be reserved. The tag adds
names of its own to them, but generated names are spelled differently. -/
theorem alone_taggedScript (h : alone options literal .empty = some (progress, t))
    (hfree : ∀ name ∈ introducedAlone options literal, name ∉ namesIn body) :
    ∃ progress', alone options literal (Scope.empty.reserve (namesIn (taggedScript body)))
      = some (progress', t) := by
  refine alone_reserve h fun name hname => ?_
  rw [namesIn_taggedScript, List.mem_append]
  rintro (htag | hbody)
  · -- generated names begin with an underscore
    have hfirst : ∀ word ∈ ["require", "bel"].map String.toList, word.head? ≠ some '_' := by decide
    obtain ⟨-, hint, i, rfl⟩ := introduced_new rfl (alone_leadsTo h) hname
    exact hfirst _ htag rfl
  · exact hfree name (mem_introducedAlone.mpr ⟨progress, t, h, hname⟩) hbody

/-- If reserving the names of the script does not change the code, no introduced name stands in the
body. -/
theorem not_mem_namesIn_of_alone (h : alone options literal .empty = some (progress, t))
    {progress' : Progress}
    (h' : alone options literal (Scope.empty.reserve (namesIn (taggedScript body)))
      = some (progress', t)) {name : Text} (hname : name ∈ progress.introduced) :
    name ∉ namesIn body := by
  have hsame : progress.introduced = progress'.introduced :=
    introduced_eq_of_alone rfl (Scope.reserve_shared _ _) (Scope.reserve_generation _ _).symm h h'
  rw [hsame] at hname
  intro hbody
  apply (introduced_fresh (alone_leadsTo h') hname).2
  rw [namesIn_taggedScript]
  exact List.mem_append_right _ hbody

end

/-- **A template by itself and as a script.** Both ways fail, or none does. They come to the same
code, up to the line break at the end, exactly if no name that the template introduces by itself
stands in its body. -/
theorem lowerBody_agrees_iff {options : Options} {body : Text} {literal : TemplateLiteral}
    (hmodule : options.isTemplateModule "bel".toList = true)
    (hsole : soleTemplate body = .ok literal)
    (hplain : ∀ piece ∈ literal.substitutions, ∃ items, scan piece.text = .ok items ∧
      ∀ found, .template found ∉ items) :
    ((∃ text, lowerBody options true body = .ok text) ↔
        ∃ result, transform options (taggedScript body) = .ok result) ∧
      ((∀ t, lowerBody options true body = .ok (t ++ ['\n']) ↔
          ∃ templates, transform options (taggedScript body) = .ok ⟨t, templates⟩) ↔
        ∀ name ∈ introducedAlone options literal, name ∉ namesIn body) := by
  have hlower : ∀ {text}, lowerBody options true body = .ok text ↔
      ∃ progress t, alone options literal .empty = some (progress, t) ∧ t ++ ['\n'] = text := by
    intro text
    rw [← toOption_eq_some_iff, lowerBody_alone hsole]
    simp
  have htransform : ∀ {result}, transform options (taggedScript body) = .ok result ↔
      result.templates = 1 ∧ ∃ progress, alone options literal
        (Scope.empty.reserve (namesIn (taggedScript body))) = some (progress, result.code) :=
    transform_taggedScript hmodule hsole hplain
  constructor
  · constructor
    · rintro ⟨text, htext⟩
      obtain ⟨progress, t, halone, -⟩ := hlower.mp htext
      obtain ⟨progress', t', halone'⟩ := alone_in halone _
      exact ⟨⟨t', 1⟩, htransform.mpr ⟨rfl, progress', halone'⟩⟩
    · rintro ⟨result, hresult⟩
      obtain ⟨-, progress, halone⟩ := htransform.mp hresult
      obtain ⟨progress', t', halone'⟩ := alone_in halone .empty
      exact ⟨_, hlower.mpr ⟨progress', t', halone', rfl⟩⟩
  · constructor
    · intro hagree name hname
      obtain ⟨progress, t, halone, hname⟩ := mem_introducedAlone.mp hname
      obtain ⟨templates, hresult⟩ := (hagree t).mp (hlower.mpr ⟨progress, t, halone, rfl⟩)
      obtain ⟨-, progress', halone'⟩ := htransform.mp hresult
      exact not_mem_namesIn_of_alone halone halone' hname
    · intro hfree t
      constructor
      · intro htext
        obtain ⟨progress, t', halone, heq⟩ := hlower.mp htext
        obtain rfl := List.append_cancel_right heq
        obtain ⟨progress', halone'⟩ := alone_taggedScript halone hfree
        exact ⟨1, htransform.mpr ⟨rfl, progress', halone'⟩⟩
      · rintro ⟨templates, hresult⟩
        obtain ⟨-, progress, halone⟩ := htransform.mp hresult
        obtain ⟨progress', t', halone'⟩ := alone_in halone .empty
        -- reserving the names leads back to the code of the script
        obtain ⟨progress'', halone''⟩ := alone_taggedScript halone' hfree
        rw [halone] at halone''
        cases halone''
        exact hlower.mpr ⟨progress', t, halone', rfl⟩

/-- A name of the generated kind stands in the body, but none that is introduced. -/
theorem lowerBody_agrees_iff_titled :
    let body := "<p title=\"_a\">$\x7bx\x7d</p>".toList
    let literal : TemplateLiteral :=
      { tag := none, span := ⟨0, 24⟩
        quasis := [⟨"<p title=\"_a\">".toList, ⟨1, 15⟩⟩, ⟨"</p>".toList, ⟨19, 23⟩⟩]
        substitutions := [⟨"x".toList, ⟨17, 18⟩⟩] }
    soleTemplate body = .ok literal ∧ "_a".toList ∈ namesIn body ∧
      introducedAlone {} literal = ["_p", "_appendChild"].map String.toList ∧
      (∃ text, lowerBody {} true body = .ok text) ∧
      ∀ t, lowerBody {} true body = .ok (t ++ ['\n']) ↔
        ∃ templates, transform {} (taggedScript body) = .ok ⟨t, templates⟩ := by
  intro body literal
  have hsole : soleTemplate body = .ok literal := toOption_eq_some_iff.mp (by decide +kernel)
  have hnames : introducedAlone {} literal = ["_p", "_appendChild"].map String.toList := by
    decide +kernel
  have hplain : ∀ piece ∈ literal.substitutions, ∃ items, scan piece.text = .ok items ∧
      ∀ found, .template found ∉ items := by
    intro piece hpiece
    cases List.mem_singleton.mp hpiece
    exact ⟨[], toOption_eq_some_iff.mp (by decide +kernel), fun _ => List.not_mem_nil⟩
  have hfree : ∀ name ∈ introducedAlone {} literal, name ∉ namesIn body := by
    rw [hnames]
    decide +kernel
  have hok : (lowerBody {} true body).toOption.isSome = true := by
    decide +kernel
  obtain ⟨text, htext⟩ := Option.isSome_iff_exists.mp hok
  exact ⟨hsole, by decide +kernel, hnames, ⟨text, toOption_eq_some_iff.mp htext⟩,
    (lowerBody_agrees_iff rfl hsole hplain).2.mpr hfree⟩

/-- The name `_p` stands in the body and is introduced as well. As a script, the node gets another
name. By itself, the template gives its node the name that the body already uses, and appends the
node to itself. -/
theorem lowerBody_captures_name :
    let body := "<p>$\x7b_p\x7d</p>".toList
    let literal : TemplateLiteral :=
      { tag := none, span := ⟨0, 14⟩
        quasis := [⟨"<p>".toList, ⟨1, 4⟩⟩, ⟨"</p>".toList, ⟨9, 13⟩⟩]
        substitutions := [⟨"_p".toList, ⟨6, 8⟩⟩] }
    let code := fun name : Text =>
      "var _appendChild = require(\"yo-yoify/lib/appendChild\");\n(() => \x7b\n  var ".toList
        ++ name ++ " = document.createElement(\"p\");\n  _appendChild(".toList ++ name
        ++ ", [_p]);\n  return ".toList ++ name ++ ";\n\x7d)()".toList
    Options.isTemplateModule {} "bel".toList = true ∧ soleTemplate body = .ok literal ∧
      (∀ piece ∈ literal.substitutions, scan piece.text = .ok []) ∧
      lowerBody {} true body = .ok (code "_p".toList ++ ['\n']) ∧
      transform {} (taggedScript body) = .ok ⟨code "_p2".toList, 1⟩ ∧
      code "_p".toList ≠ code "_p2".toList := by
  refine ⟨rfl, toOption_eq_some_iff.mp (by decide +kernel), ?_,
    toOption_eq_some_iff.mp (by decide +kernel), toOption_eq_some_iff.mp (by decide +kernel),
    by decide +kernel⟩
  intro piece hpiece
  cases List.mem_singleton.mp hpiece
  exact toOption_eq_some_iff.mp (by decide +kernel)

end Script
end Hypertext
