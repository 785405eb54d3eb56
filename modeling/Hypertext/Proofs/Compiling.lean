import Hypertext.Proofs.MarkupErrors
import Hypertext.Proofs.Splicing
import Hypertext.Script.Transform

set_option autoImplicit false

/-! # What compiling a script can do

Compiling a template of a script can come to five things, listed in `Compiler.Outcome`. From this
list alone follow two facts about all templates of a text, however deep they nest:

* the edits for them are separate, because they stand in for items of a tiling or for the
  substitutions inside of such items (`Compiler.templates_separate`);
* compiling fails only because some text cannot be read or its markup is refused
  (`Compiler.fragment_ordinary`). It does not fail because changes overlap, and never because a
  template has the wrong number of static parts.

A substitution is shorter than the text that it stands in, so templates nest less deep than a script
is long, and the bound on the depth is never reached (`Compiler.templates_fuel`).
-/

namespace Hypertext

/-! ## Steps that can fail -/

section

variable {ε ε' α β : Type} {x : Except ε α} {f : α → Except ε β}

theorem bind_eq_ok_iff {b : β} : (x >>= f) = .ok b ↔ ∃ a, x = .ok a ∧ f a = .ok b := by
  cases x with
  | error e => simp [bind, Except.bind]
  | ok a => simp [bind, Except.bind]

theorem bind_eq_error_iff {e : ε} :
    (x >>= f) = .error e ↔ x = .error e ∨ ∃ a, x = .ok a ∧ f a = .error e := by
  cases x with
  | error e' => simp [bind, Except.bind]
  | ok a => simp [bind, Except.bind]

theorem mapError_eq_ok_iff {g : ε → ε'} {a : α} : x.mapError g = .ok a ↔ x = .ok a := by
  cases x with
  | error e => simp [Except.mapError]
  | ok b => simp [Except.mapError]

theorem mapError_eq_error_iff {g : ε → ε'} {e : ε'} :
    x.mapError g = .error e ↔ ∃ cause, x = .error cause ∧ g cause = e := by
  cases x with
  | error e' => simp [Except.mapError]
  | ok b => simp [Except.mapError]

end

namespace Script
namespace Compiler

/-! ## One template -/

section

variable {compiler : Compiler} {inner : Inner} {text : Text} {base : Nat}

theorem substitutions_length {pieces : List Piece} {progress after : Progress}
    {texts : List Text} (h : substitutions inner base pieces progress = .ok (texts, after)) :
    texts.length = pieces.length := by
  induction pieces generalizing progress texts with
  | nil =>
      cases h
      rfl
  | cons piece pieces ih =>
      unfold substitutions at h
      obtain ⟨first, -, h⟩ := bind_eq_ok_iff.mp h
      obtain ⟨others, hothers, h⟩ := bind_eq_ok_iff.mp h
      cases h
      rw [List.length_cons, List.length_cons, ih hothers]

theorem cookAll_length {pieces : List Piece} {texts : List Text}
    (h : compiler.cookAll base pieces = .ok texts) : texts.length = pieces.length := by
  induction pieces generalizing texts with
  | nil =>
      cases h
      rfl
  | cons piece pieces ih =>
      unfold cookAll at h
      split at h
      · cases h
      · cases hothers : compiler.cookAll base pieces with
        | error e =>
            rw [hothers] at h
            cases h
        | ok others =>
            rw [hothers] at h
            cases h
            rw [List.length_cons, List.length_cons, ih hothers]

theorem cookAll_error {pieces : List Piece} {e : TransformError}
    (h : compiler.cookAll base pieces = .error e) :
    ∃ position cause, e = .unreadable position cause := by
  induction pieces with
  | nil => cases h
  | cons piece pieces ih =>
      unfold cookAll at h
      split at h
      · cases h
        exact ⟨_, _, rfl⟩
      · cases hothers : compiler.cookAll base pieces with
        | error e' =>
            rw [hothers] at h
            cases h
            exact ih hothers
        | ok others =>
            rw [hothers] at h
            cases h

end

/-- The edits of a template that stays as it is: those of its substitutions that changed. -/
def changedEdits (literal : TemplateLiteral) (expressions : List Text) : List Edit :=
  ((literal.substitutions.zip expressions).filter fun pair => pair.1.text != pair.2).map
    fun pair => ⟨pair.1.span, pair.2⟩

theorem mem_changedEdits {literal : TemplateLiteral} {expressions : List Text} {edit : Edit}
    (h : edit ∈ changedEdits literal expressions) :
    ∃ part ∈ literal.substitutions, edit.span = part.span := by
  obtain ⟨⟨part, expression⟩, hpair, rfl⟩ := List.mem_map.mp h
  exact ⟨part, (List.of_mem_zip (List.mem_filter.mp hpair).1).1, rfl⟩

/-- All that compiling one template can come to. -/
inductive Outcome (compiler : Compiler) (inner : Inner) (base : Nat) (literal : TemplateLiteral)
    (progress : Progress) : Except TransformError (List Edit × Progress) → Prop where
  | nested {e : TransformError}
      (h : substitutions inner base literal.substitutions progress = .error e) :
      Outcome compiler inner base literal progress (.error e)
  | kept {expressions : List Text} {after : Progress}
      (h : substitutions inner base literal.substitutions progress = .ok (expressions, after)) :
      Outcome compiler inner base literal progress (.ok (changedEdits literal expressions, after))
  | unreadable (position : Position) (cause : ScanError) :
      Outcome compiler inner base literal progress (.error (.unreadable position cause))
  | uncompilable (position : Position) {cause : LoweringError} {quasis expressions : List Text}
      {scope : Scope} (hquasis : quasis.length = literal.quasis.length)
      (hexpressions : expressions.length = literal.substitutions.length)
      (h : (compile compiler.options quasis expressions scope).1 = .error cause) :
      Outcome compiler inner base literal progress (.error (.uncompilable position cause))
  | compiled {quasis expressions : List Text} {after : Progress} {lowered : Lowered} {code : Text}
      {scope : Scope} (separated : Text)
      (hsubstitutions : substitutions inner base literal.substitutions progress
        = .ok (expressions, after))
      (h : compile compiler.options quasis expressions after.scope = (.ok (lowered, code), scope)) :
      Outcome compiler inner base literal progress
        (.ok ([⟨literal.span, separated⟩], ⟨scope, after.compiled ++ [lowered]⟩))

theorem template_outcome (compiler : Compiler) (inner : Inner) (text : Text) (base : Nat)
    (literal : TemplateLiteral) (progress : Progress) :
    Outcome compiler inner base literal progress
      (compiler.template inner text base literal progress) := by
  unfold Compiler.template
  cases hsubstitutions : substitutions inner base literal.substitutions progress with
  | error e => exact .nested hsubstitutions
  | ok result =>
      obtain ⟨expressions, after⟩ := result
      simp only [bind, Except.bind]
      split
      · exact .kept hsubstitutions
      · cases hcook : compiler.cookAll base literal.quasis with
        | error e =>
            obtain ⟨position, cause, rfl⟩ := cookAll_error hcook
            exact .unreadable position cause
        | ok quasis =>
            dsimp only
            split
            · next cause _ hcompile =>
                have hcause := congrArg Prod.fst hcompile
                exact .uncompilable _ (cookAll_length hcook) (substitutions_length hsubstitutions)
                  hcause
            · next hcompile => exact .compiled _ hsubstitutions hcompile

/-! ## The edits for the templates of a text -/

/-- Edits in order that replace slices of a script inside of a span. -/
structure EditsInside (source : Text) (span : Span) (edits : List Edit) : Prop where
  slices : ∀ edit ∈ edits, (Span.slice? source edit.span).isSome = true
  inside : ∀ edit ∈ edits, span.start ≤ edit.span.start ∧ edit.span.stop ≤ span.stop
  inOrder : edits.Pairwise fun a b => a.span.stop ≤ b.span.start

theorem editsInside_changed {source : Text} {literal : TemplateLiteral}
    (hexact : literal.Exact source) {expressions : List Text}
    (hexpressions : expressions.length = literal.substitutions.length) :
    EditsInside source literal.span (changedEdits literal expressions) := by
  refine ⟨fun edit hedit => ?_, fun edit hedit => ?_, ?_⟩
  · obtain ⟨part, hpart, hspan⟩ := mem_changedEdits hedit
    rw [hspan, hexact.substitutions part hpart]
    rfl
  · obtain ⟨part, hpart, hspan⟩ := mem_changedEdits hedit
    rw [hspan]
    exact hexact.inside part hpart
  · have hzip : (literal.substitutions.zip expressions).Pairwise
        fun a b => a.1.span.stop ≤ b.1.span.start := by
      have hapart := hexact.apart
      rw [← List.map_fst_zip (Nat.le_of_eq hexpressions.symm)] at hapart
      exact List.pairwise_map.mp hapart
    exact List.pairwise_map.mpr (hzip.filter _)

/-- **One template.** Its edits replace slices inside of it. -/
theorem template_editsInside {compiler : Compiler} {inner : Inner} {text : Text} {base : Nat}
    {literal : TemplateLiteral} {progress after : Progress} {edits : List Edit}
    (hexact : literal.Exact text)
    (h : compiler.template inner text base literal progress = .ok (edits, after)) :
    EditsInside text literal.span edits := by
  have houtcome := template_outcome compiler inner text base literal progress
  rw [h] at houtcome
  cases houtcome with
  | kept h => exact editsInside_changed hexact (substitutions_length h)
  | compiled separated _ _ =>
      obtain ⟨tag, blanks, -, hslice⟩ := hexact.text
      refine ⟨fun edit hedit => ?_, fun edit hedit => ?_, List.pairwise_singleton _ _⟩
      · rw [List.mem_singleton.mp hedit, hslice]
        rfl
      · rw [List.mem_singleton.mp hedit]
        exact ⟨Nat.le_refl _, Nat.le_refl _⟩

/-- **All templates of a text.** Their edits are in order, and each lies inside of a template. -/
theorem templates_edits {compiler : Compiler} {inner : Inner} {text : Text} {base : Nat}
    {items : List Item} {progress after : Progress} {edits : List Edit}
    (hexact : ∀ literal, .template literal ∈ items → literal.Exact text)
    (hapart : items.Pairwise fun a b => a.span.stop ≤ b.span.start)
    (h : compiler.templates inner text base items progress = .ok (edits, after)) :
    edits.Pairwise (fun a b => a.span.stop ≤ b.span.start) ∧
      ∀ edit ∈ edits, (Span.slice? text edit.span).isSome = true ∧
        ∃ literal, .template literal ∈ items ∧
          literal.span.start ≤ edit.span.start ∧ edit.span.stop ≤ literal.span.stop := by
  induction items generalizing progress edits with
  | nil =>
      cases h
      exact ⟨.nil, fun _ hedit => absurd hedit List.not_mem_nil⟩
  | cons item items ih =>
      obtain ⟨hfirst, hrest⟩ := List.pairwise_cons.mp hapart
      have hexact' : ∀ literal, .template literal ∈ items → literal.Exact text :=
        fun literal hmem => hexact literal (List.mem_cons_of_mem _ hmem)
      cases item with
      | binding declaration =>
          obtain ⟨hpairwise, hedits⟩ := ih hexact' hrest h
          refine ⟨hpairwise, fun edit hedit => ?_⟩
          obtain ⟨hslice, literal, hmem, hinside⟩ := hedits edit hedit
          exact ⟨hslice, literal, List.mem_cons_of_mem _ hmem, hinside⟩
      | template literal =>
          unfold templates at h
          obtain ⟨first, htemplate, h⟩ := bind_eq_ok_iff.mp h
          obtain ⟨others, hothers, h⟩ := bind_eq_ok_iff.mp h
          cases h
          obtain ⟨hpairwise, hedits⟩ := ih hexact' hrest hothers
          have hinside := template_editsInside (hexact literal List.mem_cons_self) htemplate
          refine ⟨List.pairwise_append.mpr ⟨hinside.inOrder, hpairwise, ?_⟩, ?_⟩
          · -- the later edit lies in a later template
            intro a ha b hb
            obtain ⟨-, literal', hmem, hstart, -⟩ := hedits b hb
            have hnext : literal.span.stop ≤ literal'.span.start := hfirst _ hmem
            have hstop := (hinside.inside a ha).2
            omega
          · intro edit hedit
            rcases List.mem_append.mp hedit with hedit | hedit
            · exact ⟨hinside.slices edit hedit, literal, List.mem_cons_self,
                hinside.inside edit hedit⟩
            · obtain ⟨hslice, literal', hmem, hinside'⟩ := hedits edit hedit
              exact ⟨hslice, literal', List.mem_cons_of_mem _ hmem, hinside'⟩

/-- The edits for the templates of a text never overlap. -/
theorem templates_separate {compiler : Compiler} {inner : Inner} {text : Text} {base : Nat}
    {items : List Item} {progress after : Progress} {edits : List Edit}
    (hscan : scan text = .ok items)
    (h : compiler.templates inner text base items progress = .ok (edits, after)) :
    Edit.Separate text edits := by
  have htiling := (tiles_of_scan hscan).tiling
  obtain ⟨hpairwise, hedits⟩ := templates_edits htiling.exact htiling.apart h
  exact Edit.separate_of_apart (fun edit hedit => (hedits edit hedit).1) (hpairwise.imp .inl)

end Compiler

/-! ## Errors of nested templates -/

/-- The errors that a script can be to blame for: it cannot be read, or some markup in it is
refused. -/
def TransformError.Ordinary : TransformError → Prop
  | .unreadable _ _ => True
  | .uncompilable _ (.invalidTemplate e) => e.ConcernsMarkup
  | .overlap => False

namespace Compiler

variable {compiler : Compiler} {inner : Inner} {base : Nat} {e : TransformError}

theorem substitutions_ordinary
    (hinner : ∀ text base progress e, inner text base progress = .error e → e.Ordinary)
    {pieces : List Piece} {progress : Progress}
    (h : substitutions inner base pieces progress = .error e) : e.Ordinary := by
  induction pieces generalizing progress with
  | nil => cases h
  | cons piece pieces ih =>
      unfold substitutions at h
      rcases bind_eq_error_iff.mp h with h | ⟨first, -, h⟩
      · exact hinner _ _ _ _ h
      · rcases bind_eq_error_iff.mp h with h | ⟨others, -, h⟩
        · exact ih h
        · cases h

/-- A template is compiled if its parts fit, if it can be lowered, and then it is rendered. -/
theorem compile_eq_ok_iff {options : Options} {quasis expressions : List Text}
    {scope later : Scope} {lowered : Lowered} {code : Text} :
    compile options quasis expressions scope = (.ok (lowered, code), later) ↔ ∃ template after,
      Template.ofParts quasis expressions = .ok template ∧
      template.lower options.lowering scope = (.ok lowered, after) ∧
      render expressions lowered after = (code, later) := by
  unfold compile
  cases Template.ofParts quasis expressions with
  | error e => simp
  | ok template =>
      cases hlower : template.lower options.lowering scope with
      | mk result after =>
          cases result with
          | error e => simp [hlower]
          | ok found =>
              dsimp only
              rw [hlower]
              constructor
              · rintro ⟨⟩
                exact ⟨template, after, rfl, hlower, rfl⟩
              · rintro ⟨_, _, ⟨⟩, hsame, hrender⟩
                rw [hlower] at hsame
                cases hsame
                dsimp only
                rw [hrender]

/-- Parts of which there are as many as there should be are refused as a template only. -/
theorem lower_error_of_compile {options : Options} {quasis expressions : List Text} {scope : Scope}
    {cause : LoweringError} (hbalanced : quasis.length = expressions.length + 1)
    (h : (compile options quasis expressions scope).1 = .error cause) :
    ((⟨quasis, expressions, hbalanced⟩ : Template).lower options.lowering scope).1
      = .error cause := by
  unfold compile Template.ofParts at h
  rw [dif_pos hbalanced] at h
  dsimp only at h
  split at h
  · next hlower =>
      cases h
      exact congrArg Prod.fst hlower
  · cases h

/-- Parts of which there are as many as there should be are refused for their markup only. -/
theorem compile_ordinary {options : Options} {quasis expressions : List Text} {scope : Scope}
    {cause : TemplateError} (hbalanced : quasis.length = expressions.length + 1)
    (h : (compile options quasis expressions scope).1 = .error (.invalidTemplate cause)) :
    cause.ConcernsMarkup :=
  Template.lower_error (lower_error_of_compile hbalanced h)

theorem templates_ordinary
    (hinner : ∀ text base progress e, inner text base progress = .error e → e.Ordinary)
    {text : Text} {items : List Item} {progress : Progress}
    (hexact : ∀ literal, .template literal ∈ items → literal.Exact text)
    (h : compiler.templates inner text base items progress = .error e) : e.Ordinary := by
  induction items generalizing progress with
  | nil => cases h
  | cons item items ih =>
      have hexact' : ∀ literal, .template literal ∈ items → literal.Exact text :=
        fun literal hmem => hexact literal (List.mem_cons_of_mem _ hmem)
      cases item with
      | binding declaration => exact ih hexact' h
      | template literal =>
          unfold templates at h
          rcases bind_eq_error_iff.mp h with h | ⟨first, -, h⟩
          · have houtcome := template_outcome compiler inner text base literal progress
            rw [h] at houtcome
            cases houtcome with
            | nested hnested => exact substitutions_ordinary hinner hnested
            | unreadable => trivial
            | @uncompilable position cause quasis expressions scope hquasis hexpressions hcompile =>
                obtain ⟨cause⟩ := cause
                refine compile_ordinary ?_ hcompile
                rw [hquasis, hexpressions, (hexact literal List.mem_cons_self).balanced]
          · rcases bind_eq_error_iff.mp h with h | ⟨others, -, h⟩
            · exact ih hexact' h
            · cases h

/-- **Nested templates.** However deep they nest, their changes never overlap, and no template has
the wrong number of parts. -/
theorem fragment_ordinary (compiler : Compiler) (fuel : Nat) (text : Text) (base : Nat)
    (progress : Progress) {e : TransformError}
    (h : compiler.fragment fuel text base progress = .error e) : e.Ordinary := by
  induction fuel generalizing text base progress e with
  | zero => cases h
  | succ fuel ih =>
      unfold fragment at h
      rcases bind_eq_error_iff.mp h with h | ⟨items, hscan, h⟩
      · obtain ⟨cause, -, rfl⟩ := mapError_eq_error_iff.mp h
        trivial
      · have hscan := mapError_eq_ok_iff.mp hscan
        rcases bind_eq_error_iff.mp h with h | ⟨⟨edits, after⟩, hedits, h⟩
        · exact templates_ordinary (fun _ _ _ _ => ih _ _ _) (tiles_of_scan hscan).tiling.exact h
        · -- the edits can be applied, so that nothing is left to fail
          have happly := Edit.applyAll_isSome_iff.mpr (templates_separate hscan hedits)
          obtain ⟨code, hcode⟩ := Option.isSome_iff_exists.mp happly
          simp only [hcode] at h
          cases h

/-! ## How deep templates nest -/

theorem length_le_interleave {quasis expressions : List Piece} {piece : Piece}
    (hlength : expressions.length ≤ quasis.length) (hpiece : piece ∈ expressions) :
    piece.text.length ≤ (interleave quasis expressions).length := by
  induction expressions generalizing quasis with
  | nil => exact absurd hpiece List.not_mem_nil
  | cons expression expressions ih =>
      cases quasis with
      | nil => exact absurd hlength (Nat.not_succ_le_zero _)
      | cons quasi quasis =>
          have hwhole : (interleave (quasi :: quasis) (expression :: expressions)).length
              = quasi.text.length + (expression.text.length
                + ((interleave quasis expressions).length + 1) + 1 + 1) := by
            rw [interleave, List.length_append, List.length_cons, List.length_cons,
              List.length_append, List.length_cons]
          rcases List.mem_cons.mp hpiece with rfl | hpiece
          · omega
          · have := ih (Nat.le_of_succ_le_succ hlength) hpiece
            omega

/-- A substitution is shorter than the text that its template stands in. -/
theorem length_lt_of_exact {text : Text} {literal : TemplateLiteral} (hexact : literal.Exact text)
    {piece : Piece} (hpiece : piece ∈ literal.substitutions) :
    piece.text.length < text.length := by
  have hparts := length_le_interleave (by rw [hexact.balanced]; omega) hpiece
  obtain ⟨tag, blanks, -, hslice⟩ := hexact.text
  obtain ⟨before, after, rfl, -⟩ := Span.slice?_eq_some_iff.mp hslice
  simp only [List.length_append, List.length_cons]
  omega

theorem substitutions_congr {inner inner' : Inner} {pieces : List Piece}
    (h : ∀ piece ∈ pieces, inner piece.text = inner' piece.text) :
    substitutions inner base pieces = substitutions inner' base pieces := by
  induction pieces with
  | nil => rfl
  | cons piece pieces ih =>
      funext progress
      rw [substitutions, substitutions, h piece List.mem_cons_self,
        ih fun other hother => h other (List.mem_cons_of_mem _ hother)]

theorem templates_congr {inner inner' : Inner} {text : Text} {items : List Item}
    (h : ∀ literal, .template literal ∈ items → ∀ piece ∈ literal.substitutions,
      inner piece.text = inner' piece.text) :
    compiler.templates inner text base items = compiler.templates inner' text base items := by
  induction items with
  | nil => rfl
  | cons item items ih =>
      have ih := ih fun literal hmem => h literal (List.mem_cons_of_mem _ hmem)
      funext progress
      cases item with
      | binding declaration => exact congrFun ih progress
      | template literal =>
          rw [templates, templates, ih, template, template,
            substitutions_congr (h literal List.mem_cons_self)]

/-- More depth than a text is long makes no difference. -/
theorem fragment_fuel (compiler : Compiler) {fuel fuel' : Nat} {text : Text}
    (h : text.length < fuel) (h' : text.length < fuel') :
    compiler.fragment fuel text = compiler.fragment fuel' text := by
  induction fuel generalizing fuel' text with
  | zero => exact absurd h (Nat.not_lt_zero _)
  | succ fuel ih =>
      obtain ⟨fuel', rfl⟩ := Nat.exists_eq_add_one_of_ne_zero (Nat.ne_zero_of_lt h')
      funext base progress
      simp only [fragment]
      cases hscan : scan text with
      | error cause => rfl
      | ok items =>
          have hinner : compiler.templates (compiler.fragment fuel) text base items
              = compiler.templates (compiler.fragment fuel') text base items := by
            refine templates_congr fun literal hmem piece hpiece => ?_
            have hshorter :=
              length_lt_of_exact ((tiles_of_scan hscan).tiling.exact literal hmem) hpiece
            exact ih (by omega) (by omega)
          simp only [Except.mapError, bind, Except.bind, hinner]

/-- **The bound on the depth is never reached:** a script is compiled as it would be with any
greater one. -/
theorem templates_fuel {source : Text} {items : List Item} (hscan : scan source = .ok items)
    {fuel : Nat} (h : source.length ≤ fuel) :
    compiler.templates (compiler.fragment fuel) source base items
      = compiler.templates (compiler.fragment source.length) source base items := by
  refine templates_congr fun literal hmem piece hpiece => ?_
  have hshorter := length_lt_of_exact ((tiles_of_scan hscan).tiling.exact literal hmem) hpiece
  exact fragment_fuel compiler (by omega) hshorter

end Compiler

/-! ## What accumulates along a run -/

/-- A relation between two points of a run that holds over each template that is compiled, and over
any number of them in a row. -/
structure Progress.Accumulates (options : Options) (R : Progress → Progress → Prop) : Prop where
  refl : ∀ progress, R progress progress
  trans : ∀ {p q r}, R p q → R q r → R p r
  compile : ∀ {quasis expressions : List Text} {before : Progress} {lowered : Lowered}
    {code : Text} {scope : Scope},
    Compiler.compile options quasis expressions before.scope = (.ok (lowered, code), scope) →
      R before ⟨scope, before.compiled ++ [lowered]⟩

namespace Compiler

section

variable {compiler : Compiler} {inner : Inner} {base : Nat} {R : Progress → Progress → Prop}
  (hR : Progress.Accumulates compiler.options R)
  (hinner : ∀ text base before code after,
    inner text base before = .ok (code, after) → R before after)

include hR hinner

theorem substitutions_accumulates {pieces : List Piece} {before after : Progress}
    {texts : List Text} (h : substitutions inner base pieces before = .ok (texts, after)) :
    R before after := by
  induction pieces generalizing before texts with
  | nil =>
      cases h
      exact hR.refl _
  | cons piece pieces ih =>
      unfold substitutions at h
      obtain ⟨first, hfirst, h⟩ := bind_eq_ok_iff.mp h
      obtain ⟨others, hothers, h⟩ := bind_eq_ok_iff.mp h
      cases h
      exact hR.trans (hinner _ _ _ _ _ hfirst) (ih hothers)

/-- **One template.** If it is compiled, it comes after the templates inside of it. -/
theorem template_accumulates {text : Text} {literal : TemplateLiteral} {before after : Progress}
    {edits : List Edit}
    (h : compiler.template inner text base literal before = .ok (edits, after)) :
    R before after := by
  have houtcome := template_outcome compiler inner text base literal before
  rw [h] at houtcome
  cases houtcome with
  | kept hsubstitutions => exact substitutions_accumulates hR hinner hsubstitutions
  | compiled _ hsubstitutions hcompile =>
      exact hR.trans (substitutions_accumulates hR hinner hsubstitutions) (hR.compile hcompile)

theorem templates_accumulates {text : Text} {items : List Item} {before after : Progress}
    {edits : List Edit} (h : compiler.templates inner text base items before = .ok (edits, after)) :
    R before after := by
  induction items generalizing before edits with
  | nil =>
      cases h
      exact hR.refl _
  | cons item items ih =>
      cases item with
      | binding declaration => exact ih h
      | template literal =>
          unfold templates at h
          obtain ⟨first, hfirst, h⟩ := bind_eq_ok_iff.mp h
          obtain ⟨others, hothers, h⟩ := bind_eq_ok_iff.mp h
          cases h
          exact hR.trans (template_accumulates hR hinner hfirst) (ih hothers)

end

/-- **Nested templates.** What accumulates over templates does so however deep they nest. -/
theorem fragment_accumulates {compiler : Compiler} {R : Progress → Progress → Prop}
    (hR : Progress.Accumulates compiler.options R) (fuel : Nat) (text : Text) (base : Nat)
    (before : Progress) (code : Text) (after : Progress)
    (h : compiler.fragment fuel text base before = .ok (code, after)) : R before after := by
  induction fuel generalizing text base before code after with
  | zero =>
      cases h
      exact hR.refl _
  | succ fuel ih =>
      unfold fragment at h
      obtain ⟨items, -, h⟩ := bind_eq_ok_iff.mp h
      obtain ⟨⟨edits, progress⟩, hedits, h⟩ := bind_eq_ok_iff.mp h
      dsimp only at h
      split at h
      · cases h
      · cases h
        exact templates_accumulates hR ih hedits

end Compiler

/-! ## Whole scripts -/

/-- All edits of a script: deleted declarations, compiled templates, and what is declared after the
prologue. -/
def fileEdits (options : Options) (source : Text) (items : List Item) (edits : List Edit)
    (declared : Text) : List Edit :=
  removals options source items ++ edits ++
    if declared.isEmpty then [] else [⟨⟨prologueEnd source, prologueEnd source⟩, declared⟩]

/-- Beyond what its templates can fail for, a script fails only if its own edits overlap. -/
theorem transform_error {options : Options} {source : Text} {e : TransformError}
    (h : transform options source = .error e) :
    e.Ordinary ∨ (e = .overlap ∧ ∃ items compiler inner progress edits after declared,
      scan source = .ok items ∧
      Compiler.templates compiler inner source 0 items progress = .ok (edits, after) ∧
      ¬Edit.Separate source (fileEdits options source items edits declared)) := by
  unfold transform at h
  rcases bind_eq_error_iff.mp h with h | ⟨items, hscan, h⟩
  · obtain ⟨cause, -, rfl⟩ := mapError_eq_error_iff.mp h
    exact .inl trivial
  have hscan := mapError_eq_ok_iff.mp hscan
  rcases bind_eq_error_iff.mp h with h | ⟨⟨edits, after⟩, hedits, h⟩
  · refine .inl (Compiler.templates_ordinary ?_ (tiles_of_scan hscan).tiling.exact h)
    exact fun _ _ _ _ => Compiler.fragment_ordinary _ _ _ _ _
  · dsimp only at h
    split at h
    · next hnone =>
        cases h
        refine .inr ⟨rfl, items, _, _, _, edits, after, declarations options after.scope.shared,
          hscan, hedits, fun hseparate => ?_⟩
        have hsome := Edit.applyAll_isSome_iff.mpr hseparate
        rw [fileEdits, hnone] at hsome
        cases hsome
    · cases h

/-- **Scanning tiles a script.** The items of a script lie in it, in order and apart; every template
is exactly its tag, blanks, and its static parts and substitutions in turn between backquotes, each
of which is the slice of its span; a backquote or an opening brace of a substitution stands in a
static part only where it is escaped; and between the items are only comments, whole strings and
characters that begin neither. So no template is ever refused for the number of its parts. -/
theorem scan_tiling (source : Text) :
    (∀ items, scan source = .ok items → Tiling source items) ∧
      ∀ options position quasis expressions, transform options source ≠
        .error (.uncompilable position (.invalidTemplate (.quasiCount quasis expressions))) := by
  refine ⟨fun items hscan => (tiles_of_scan hscan).tiling, ?_⟩
  intro options position quasis expressions h
  rcases transform_error h with hordinary | ⟨hoverlap, -⟩
  · exact hordinary
  · cases hoverlap

/-- A declaration, a backquote in a comment, and a template in a substitution of another. -/
theorem scan_tiling_nested :
    let source := "var h = require('h'); // \x60\nh\x60a$\x7b\x60b\x60\x7d\x60".toList
    ∃ items, scan source = .ok items ∧ items.length = 2 ∧ Tiling source items := by
  intro source
  have hlength : (scan source).toOption.map List.length = some 2 := by
    decide +kernel
  cases hscan : scan source with
  | error e =>
      rw [hscan] at hlength
      cases hlength
  | ok items =>
      rw [hscan] at hlength
      exact ⟨items, rfl, Option.some.inj hlength, (scan_tiling source).1 items hscan⟩

end Script
end Hypertext
