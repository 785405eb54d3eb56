import Hypertext.Proofs.Hygiene
import Hypertext.Proofs.Insertion
import Mathlib.Data.List.Forall2

set_option autoImplicit false

/-! # Where errors are reported

A substitution is read as a text of its own, so offsets in it begin at zero again, and in a template
inside of it once more. An error is reported for the whole script all the same. This file proves
that it always points at what is to blame (`transform_error_positions`).

The argument has two parts. A text that is read while a script is compiled is a slice of the script
at the offset it is read with (`Fragment.standsAt`), although the substitutions around it may
already have been replaced by their code. And every error blames such a text, or a template of one
(`Blames`): what one template can fail for is said by `Compiler.template_error`, and the rest is
induction over the templates of a text and over the depth of nesting. -/

namespace Hypertext

/-! ## Why templates are refused -/

namespace Template

variable {options : LoweringOptions} {template other : Template} {cause : LoweringError}

/-- A template is refused for its markup alone, so in every scope or in none. -/
theorem lower_eq_error_iff {scope : Scope} :
    (template.lower options scope).1 = .error cause ↔ template.isBlank = false ∧
      ∃ e, cause = .invalidTemplate e ∧ Node.parse template.source = .error e := by
  unfold lower
  by_cases hblank : template.isBlank = true
  · simp [hblank]
  · rw [if_neg hblank, Bool.eq_false_iff.mpr hblank]
    cases hparse : Node.parse template.source with
    | error e => simp [eq_comm]
    | ok root => cases root <;> simp

/-- The texts of the expressions do not matter for what a template is lowered to. -/
theorem lower_of_quasis (hquasis : template.quasis = other.quasis) (scope : Scope) :
    template.lower options scope = other.lower options scope := by
  have hlength : template.expressions.length = other.expressions.length := by
    have hbalanced := template.balanced
    rw [hquasis, other.balanced] at hbalanced
    omega
  have hempty : template.expressions.isEmpty = other.expressions.isEmpty := by
    rw [Bool.eq_iff_iff, List.isEmpty_iff_length_eq_zero, List.isEmpty_iff_length_eq_zero, hlength]
  unfold lower isBlank source
  rw [hquasis, hempty]

/-- A template is refused in every scope if it is in one. -/
theorem lower_error_in {scope : Scope} (h : (template.lower options scope).1 = .error cause)
    (scope' : Scope) : (template.lower options scope').1 = .error cause :=
  lower_eq_error_iff.mpr (lower_eq_error_iff.mp h)

end Template

namespace Script

/-! ## Places in a script -/

/-- A text stands in a script from an offset on. -/
def StandsAt (source t : Text) (offset : Nat) : Prop :=
  ∃ before after, source = before ++ (t ++ after) ∧ Text.byteSize before = offset

theorem standsAt_self (source : Text) : StandsAt source source 0 :=
  ⟨[], [], (List.append_nil source).symm, rfl⟩

theorem StandsAt.trans {source t s : Text} {base offset : Nat} (h : StandsAt source t base)
    (hinner : StandsAt t s offset) : StandsAt source s (base + offset) := by
  obtain ⟨before, after, rfl, rfl⟩ := h
  obtain ⟨left, right, rfl, rfl⟩ := hinner
  refine ⟨before ++ left, right ++ after, ?_, Text.byteSize_append before left⟩
  simp only [List.append_assoc]

theorem standsAt_of_slice {source t : Text} {span : Span}
    (h : Span.slice? source span = some t) : StandsAt source t span.start := by
  obtain ⟨before, after, hsource, rfl⟩ := Span.slice?_eq_some_iff.mp h
  exact ⟨before, after, hsource, rfl⟩

/-! ## Escapes that mean nothing -/

namespace Escape

theorem hexDigits?_suffix {count : Nat} {value code : UInt32} {t rest : Text}
    (h : hexDigits? count value t = some (code, rest)) : rest <:+ t := by
  induction count generalizing value t with
  | zero =>
      cases h
      exact List.suffix_rfl
  | succ count ih =>
      cases t with
      | nil => cases h
      | cons c t =>
          unfold hexDigits? at h
          split at h
          · cases h
          · exact (ih h).trans (List.suffix_cons c t)

theorem bracedDigits?_suffix {count : Int32} {value code : UInt32} {t rest : Text}
    (h : bracedDigits? count value t = some (code, rest)) : rest <:+ t := by
  induction t generalizing count value with
  | nil => cases h
  | cons c t ih =>
      unfold bracedDigits? at h
      split at h
      · cases h
        exact List.suffix_cons c rest
      · split at h
        · cases h
        · split at h
          · exact (ih h).trans (List.suffix_cons c t)
          · cases h

theorem codePoint?_suffix {code : UInt32} {t rest : Text} (h : codePoint? t = some (code, rest)) :
    rest <:+ t := by
  unfold codePoint? at h
  split at h
  · exact (bracedDigits?_suffix h).trans (List.suffix_cons _ _)
  · split at h
    · cases h
    next hdigits =>
    have hlead := hexDigits?_suffix hdigits
    split at h
    · split at h
      · cases h
        exact hlead
      · next second hsecond =>
          -- the second escape of a pair stands behind the first
          have hsecond : second <:+ _ := ⟨_, (Text.after?_eq_some_iff.mp hsecond).symm⟩
          split at h
          · cases h
          next htrail =>
          split at h
          · cases h
            exact (hexDigits?_suffix htrail).trans (hsecond.trans hlead)
          · cases h
    · cases h
      exact hlead

theorem meaning?_suffix {c : Char} {t text rest : Text} (h : meaning? c t = some (text, rest)) :
    rest <:+ t := by
  unfold meaning? at h
  split at h
  case h_7 =>
    split at h
    · cases h
      exact List.suffix_cons _ _
    · cases h
      exact List.suffix_rfl
  case h_11 =>
    simp only [Option.bind_eq_bind, Option.bind_eq_some_iff] at h
    obtain ⟨⟨code, after⟩, hcode, char, -, h⟩ := h
    cases h
    exact hexDigits?_suffix hcode
  case h_12 =>
    simp only [Option.bind_eq_bind, Option.bind_eq_some_iff] at h
    obtain ⟨⟨code, after⟩, hcode, char, -, h⟩ := h
    cases h
    exact codePoint?_suffix hcode
  case h_13 =>
    split at h
    · cases h
      exact List.suffix_rfl
    · split at h
      · cases h
      · cases h
        exact List.suffix_rfl
  all_goals
    cases h
    exact List.suffix_rfl

end Escape

/-- An escape is written in a static part of a template from an offset on. -/
structure EscapeAt (raw : Text) (offset : Nat) (sequence : Text) : Prop where
  backslash : sequence.head? = some '\\'
  standsAt : StandsAt raw sequence offset

/-- The end of a text begins at the offset that its size leaves. -/
theorem standsAt_of_suffix {raw t start rest : Text} (h : t <:+ raw) (ht : t = start ++ rest) :
    StandsAt raw start (raw.byteSize - t.byteSize) := by
  obtain ⟨before, rfl⟩ := h
  refine ⟨before, rest, by rw [ht], ?_⟩
  rw [Text.byteSize_append, Nat.add_sub_cancel]

/-- **Static parts.** The end of a static part can only fail for an escape that is written in it. -/
theorem Escape.cookFrom_error {raw t : Text} {e : ScanError} (hraw : t <:+ raw)
    (h : cookFrom raw.byteSize t = .error e) :
    ∃ offset sequence, e = .invalidEscape offset sequence ∧ EscapeAt raw offset sequence := by
  fun_induction cookFrom raw.byteSize t with
  | case1 => cases h
  | case2 rest ih =>
      exact ih ((List.suffix_append ['\r', '\n'] rest).trans hraw) (map_eq_error_iff.mp h)
  | case3 rest _ ih => exact ih ((List.suffix_cons '\r' rest).trans hraw) (map_eq_error_iff.mp h)
  | case4 =>
      cases h
      exact ⟨_, _, rfl, rfl, standsAt_of_suffix hraw rfl⟩
  | case5 c rest hmeaning =>
      cases h
      exact ⟨_, _, rfl, rfl, standsAt_of_suffix hraw rfl⟩
  | case6 c rest text after hmeaning _ ih =>
      have hrest : rest <:+ '\\' :: c :: rest := List.suffix_append ['\\', c] rest
      exact ih ((meaning?_suffix hmeaning).trans (hrest.trans hraw)) (map_eq_error_iff.mp h)
  | case7 c rest _ _ _ _ ih =>
      exact ih ((List.suffix_cons c rest).trans hraw) (map_eq_error_iff.mp h)

theorem cook_error {raw : Text} {e : ScanError} (h : cook raw = .error e) :
    ∃ offset sequence, e = .invalidEscape offset sequence ∧ EscapeAt raw offset sequence :=
  Escape.cookFrom_error List.suffix_rfl h

/-- Reading a script never fails for an escape. -/
theorem scan_error {source : Text} {e : ScanError} (h : scan source = .error e) :
    ∃ offset expected, e = .unreadable offset expected := by
  unfold scan at h
  dsimp only at h
  split at h
  · cases h
  · cases h
    exact ⟨_, _, rfl⟩

/-! ## The texts and templates of a script -/

/-- The texts that are read while a script is compiled, with the offsets at which they begin: the
script, and the substitutions of each template of such a text. -/
inductive Fragment (source : Text) : Text → Nat → Prop where
  | script : Fragment source source 0
  | substitution {text : Text} {base : Nat} {items : List Item} {literal : TemplateLiteral}
      {piece : Piece} (houter : Fragment source text base) (hscan : scan text = .ok items)
      (hmem : .template literal ∈ items) (hpiece : piece ∈ literal.substitutions) :
      Fragment source piece.text (base + piece.span.start)

theorem Fragment.standsAt {source text : Text} {base : Nat} (h : Fragment source text base) :
    StandsAt source text base := by
  induction h with
  | script => exact standsAt_self source
  | substitution _ hscan hmem hpiece ih =>
      have hexact := (tiles_of_scan hscan).tiling.exact _ hmem
      exact ih.trans (standsAt_of_slice (hexact.substitutions _ hpiece))

/-- The tags under which templates are compiled: a call that requires a template module, and a name
that a declaration of the script binds to one. -/
inductive Recognized (options : Options) (source : Text) : TemplateTag → Prop where
  | require {name : Text} (h : options.isTemplateModule name = true) :
      Recognized options source (.require name)
  | declared {items : List Item} {binding : ModuleBinding} (hscan : scan source = .ok items)
      (hmem : .binding binding ∈ items)
      (h : options.isTemplateModule binding.moduleName = true) :
      Recognized options source (.path [binding.name])

/-- A template to compile, in a text that begins at `base` in the script. -/
structure RecognizedAt (options : Options) (source : Text) (base : Nat)
    (literal : TemplateLiteral) : Prop where
  tag : ∃ tag, literal.tag = some tag ∧ Recognized options source tag
  place : ∃ text items, Fragment source text base ∧ scan text = .ok items ∧
    .template literal ∈ items

/-- A template literal stands for a template with its escapes replaced, whatever code its
substitutions become. -/
def TemplateLiteral.StandsFor (literal : TemplateLiteral) (template : Template) : Prop :=
  List.Forall₂ (fun quasi text => cook quasi.text = .ok text) literal.quasis template.quasis

/-- A template literal that can be read is refused as a template, for one and the same reason in
every scope. -/
structure TemplateLiteral.Refused (options : Options) (literal : TemplateLiteral)
    (cause : LoweringError) : Prop where
  readable : ∃ template, literal.StandsFor template
  refused : ∀ template, literal.StandsFor template →
    ∀ scope, (template.lower options.lowering scope).1 = .error cause

/-- What refuses the parts of a template refuses it whatever its expressions are. -/
theorem refused_of_compile {options : Options} {literal : TemplateLiteral}
    {quasis expressions : List Text} {scope : Scope} {cause : LoweringError}
    (hquasis : List.Forall₂ (fun quasi text => cook quasi.text = .ok text) literal.quasis quasis)
    (hbalanced : quasis.length = expressions.length + 1)
    (h : (Compiler.compile options quasis expressions scope).1 = .error cause) :
    literal.Refused options cause := by
  have hlower := Compiler.lower_error_of_compile hbalanced h
  refine ⟨⟨⟨quasis, expressions, hbalanced⟩, hquasis⟩, fun template htemplate scope' => ?_⟩
  -- there is one way to read each static part
  have hunique : Relator.RightUnique fun (quasi : Piece) text => cook quasi.text = .ok text := by
    intro quasi text text' htext htext'
    exact Except.ok.inj (htext.symm.trans htext')
  have hsame : quasis = template.quasis := hunique.forall₂ hquasis htemplate
  have hrefused := Template.lower_error_in hlower scope'
  rwa [Template.lower_of_quasis hsame] at hrefused

namespace RecognizedAt

variable {options : Options} {source : Text} {base : Nat} {literal : TemplateLiteral}

theorem exact (h : RecognizedAt options source base literal) :
    ∃ text, StandsAt source text base ∧ literal.Exact text := by
  obtain ⟨text, items, hfragment, hscan, hmem⟩ := h.place
  exact ⟨text, hfragment.standsAt, (tiles_of_scan hscan).tiling.exact literal hmem⟩

/-- A template begins with its tag, at the place that is reported for it. -/
theorem spelled (h : RecognizedAt options source base literal) :
    ∃ tag blanks, SpellsTag literal.tag tag blanks ∧
      StandsAt source (tag ++ (blanks ++
        '\x60' :: (interleave literal.quasis literal.substitutions ++ ['\x60'])))
        (base + literal.span.start) := by
  obtain ⟨text, hstands, hexact⟩ := h.exact
  obtain ⟨tag, blanks, htag, hslice⟩ := hexact.text
  exact ⟨tag, blanks, htag, hstands.trans (standsAt_of_slice hslice)⟩

theorem quasi_standsAt (h : RecognizedAt options source base literal) {quasi : Piece}
    (hquasi : quasi ∈ literal.quasis) :
    StandsAt source quasi.text (base + quasi.span.start) := by
  obtain ⟨text, hstands, hexact⟩ := h.exact
  exact hstands.trans (standsAt_of_slice (hexact.quasis quasi hquasi).2)

end RecognizedAt

/-! ## What an error blames -/

/-- What the errors of a script point at: a text that cannot be read, an escape in a static part, or
a template whose markup is refused. -/
inductive Blames (options : Options) (source : Text) : TransformError → Prop where
  | fragment {text : Text} {base : Nat} {cause : ScanError} (hfragment : Fragment source text base)
      (hscan : scan text = .error cause) :
      Blames options source (.unreadable (.ofOffset source (base + cause.offset)) cause)
  | escape {base offset : Nat} {literal : TemplateLiteral} {quasi : Piece} {sequence : Text}
      (hliteral : RecognizedAt options source base literal) (hquasi : quasi ∈ literal.quasis)
      (hcook : cook quasi.text = .error (.invalidEscape offset sequence)) :
      Blames options source
        (.unreadable (.ofOffset source (base + (quasi.span.start + offset)))
          (.invalidEscape (quasi.span.start + offset) sequence))
  | template {base : Nat} {literal : TemplateLiteral} {cause : LoweringError}
      (hliteral : RecognizedAt options source base literal)
      (hrefused : literal.Refused options cause) :
      Blames options source
        (.uncompilable (.ofOffset source (base + literal.span.start)) cause)

namespace Compiler

/-! ## One template -/

section

variable {compiler : Compiler} {inner : Inner} {text : Text} {base : Nat}

theorem cookAll_cooks {pieces : List Piece} {texts : List Text}
    (h : compiler.cookAll base pieces = .ok texts) :
    List.Forall₂ (fun piece text => cook piece.text = .ok text) pieces texts := by
  induction pieces generalizing texts with
  | nil =>
      cases h
      exact .nil
  | cons piece pieces ih =>
      unfold cookAll at h
      split at h
      · cases h
      · next first hfirst =>
          cases hothers : compiler.cookAll base pieces with
          | error e =>
              rw [hothers] at h
              cases h
          | ok others =>
              rw [hothers] at h
              cases h
              exact .cons hfirst (ih hothers)

theorem cookAll_blames {pieces : List Piece} {e : TransformError}
    (h : compiler.cookAll base pieces = .error e) :
    ∃ piece ∈ pieces, ∃ cause, cook piece.text = .error cause ∧
      e = compiler.unreadable base (cause.shift piece.span.start) := by
  induction pieces with
  | nil => cases h
  | cons piece pieces ih =>
      unfold cookAll at h
      split at h
      · next cause hcause =>
          cases h
          exact ⟨piece, List.mem_cons_self, cause, hcause, rfl⟩
      · obtain ⟨later, hlater, hblamed⟩ := ih (map_eq_error_iff.mp h)
        exact ⟨later, List.mem_cons_of_mem piece hlater, hblamed⟩

/-- **One template.** It fails because of a template inside of it, or it is to be compiled and
either one of its static parts cannot be read or it is refused. -/
theorem template_error {literal : TemplateLiteral} {progress : Progress} {e : TransformError}
    (h : compiler.template inner text base literal progress = .error e) :
    substitutions inner base literal.substitutions progress = .error e ∨
      compiler.recognizes literal.tag = true ∧
        (compiler.cookAll base literal.quasis = .error e ∨
          ∃ quasis expressions scope cause, compiler.cookAll base literal.quasis = .ok quasis ∧
            (compile compiler.options quasis expressions scope).1 = .error cause ∧
            expressions.length = literal.substitutions.length ∧
            e = .uncompilable (.ofOffset compiler.source (base + literal.span.start)) cause) := by
  unfold Compiler.template at h
  rcases bind_eq_error_iff.mp h with h | ⟨⟨expressions, after⟩, hexpressions, h⟩
  · exact .inl h
  right
  dsimp only at h
  split at h
  · cases h
  next hrecognized =>
  refine ⟨by simpa using hrecognized, ?_⟩
  rcases bind_eq_error_iff.mp h with h | ⟨quasis, hquasis, h⟩
  · exact .inl h
  · split at h
    · next cause scope hcompile =>
        cases h
        exact .inr ⟨quasis, expressions, after.scope, cause, hquasis, congrArg Prod.fst hcompile,
          substitutions_length hexpressions, rfl⟩
    · cases h

end

/-! ## All templates of a text, however deep they nest -/

/-- The names that a compiler recognizes are bound to template modules by the script. -/
def TagsDeclared (compiler : Compiler) : Prop :=
  ∀ name ∈ compiler.tags, Recognized compiler.options compiler.source (.path [name])

section

variable {compiler : Compiler} {inner : Inner} {text : Text} {base : Nat} {items : List Item}
  {progress : Progress} {e : TransformError} (htags : compiler.TagsDeclared)
  (hinner : ∀ text base progress e, Fragment compiler.source text base →
    inner text base progress = .error e → Blames compiler.options compiler.source e)

include htags

theorem recognized_of_recognizes {found : Option TemplateTag}
    (h : compiler.recognizes found = true) :
    ∃ tag, found = some tag ∧ Recognized compiler.options compiler.source tag := by
  cases found with
  | none => cases h
  | some tag =>
      refine ⟨tag, rfl, ?_⟩
      cases tag with
      | require name => exact .require h
      | path names =>
          -- of all chains of names only a single name can be a tag
          rcases names with _ | ⟨name, _ | ⟨_, _⟩⟩
          · cases h
          · exact htags name (List.contains_iff_mem.mp h)
          · cases h

include hinner

omit htags in
theorem substitutions_blames {pieces : List Piece}
    (hpieces : ∀ piece ∈ pieces, Fragment compiler.source piece.text (base + piece.span.start))
    (h : substitutions inner base pieces progress = .error e) :
    Blames compiler.options compiler.source e := by
  induction pieces generalizing progress with
  | nil => cases h
  | cons piece pieces ih =>
      unfold substitutions at h
      rcases bind_eq_error_iff.mp h with h | ⟨first, -, h⟩
      · exact hinner _ _ _ _ (hpieces piece List.mem_cons_self) h
      · rcases bind_eq_error_iff.mp h with h | ⟨others, -, h⟩
        · exact ih (fun later hmem => hpieces later (List.mem_cons_of_mem _ hmem)) h
        · cases h

theorem template_blames {literal : TemplateLiteral} (hfragment : Fragment compiler.source text base)
    (hscan : scan text = .ok items) (hmem : .template literal ∈ items)
    (h : compiler.template inner text base literal progress = .error e) :
    Blames compiler.options compiler.source e := by
  rcases template_error h with h | ⟨hrecognized, h⟩
  · exact substitutions_blames hinner
      (fun piece hpiece => .substitution hfragment hscan hmem hpiece) h
  have hliteral : RecognizedAt compiler.options compiler.source base literal :=
    ⟨recognized_of_recognizes htags hrecognized, text, items, hfragment, hscan, hmem⟩
  rcases h with h | ⟨quasis, expressions, scope, cause, hquasis, hcompile, hexpressions, rfl⟩
  · obtain ⟨quasi, hquasi, cause, hcook, rfl⟩ := cookAll_blames h
    obtain ⟨offset, sequence, rfl, -⟩ := cook_error hcook
    exact .escape hliteral hquasi hcook
  · refine .template hliteral (refused_of_compile (cookAll_cooks hquasis) ?_ hcompile)
    have hexact := (tiles_of_scan hscan).tiling.exact literal hmem
    rw [cookAll_length hquasis, hexpressions, hexact.balanced]

theorem templates_blames (hfragment : Fragment compiler.source text base)
    (hscan : scan text = .ok items) {later : List Item} (hlater : later ⊆ items)
    (h : compiler.templates inner text base later progress = .error e) :
    Blames compiler.options compiler.source e := by
  induction later generalizing progress with
  | nil => cases h
  | cons item later ih =>
      obtain ⟨hmem, hrest⟩ := List.cons_subset.mp hlater
      cases item with
      | binding declaration => exact ih hrest h
      | template literal =>
          unfold templates at h
          rcases bind_eq_error_iff.mp h with h | ⟨first, -, h⟩
          · exact template_blames htags hinner hfragment hscan hmem h
          · rcases bind_eq_error_iff.mp h with h | ⟨others, -, h⟩
            · exact ih hrest h
            · cases h

end

/-- **Nested templates.** However deep the text is nested in which something fails, the error points
at it. -/
theorem fragment_blames {compiler : Compiler} (htags : compiler.TagsDeclared) (fuel : Nat)
    (text : Text) (base : Nat) (progress : Progress) (e : TransformError)
    (hfragment : Fragment compiler.source text base)
    (h : compiler.fragment fuel text base progress = .error e) :
    Blames compiler.options compiler.source e := by
  induction fuel generalizing text base progress e with
  | zero => cases h
  | succ fuel ih =>
      unfold fragment at h
      rcases bind_eq_error_iff.mp h with h | ⟨items, hscan, h⟩
      · obtain ⟨cause, hscan, rfl⟩ := mapError_eq_error_iff.mp h
        exact .fragment hfragment hscan
      · have hscan := mapError_eq_ok_iff.mp hscan
        rcases bind_eq_error_iff.mp h with h | ⟨⟨edits, after⟩, hedits, h⟩
        · exact templates_blames htags ih hfragment hscan (List.Subset.refl items) h
        · -- the edits of a substitution can always be applied
          have happly := Edit.applyAll_isSome_iff.mpr (templates_separate hscan hedits)
          obtain ⟨code, hcode⟩ := Option.isSome_iff_exists.mp happly
          simp only [hcode] at h
          cases h

end Compiler

/-! ## Whole scripts -/

/-- A script is compiled with the names that its own declarations bind. -/
theorem tagsDeclared_of_scan (options : Options) {source : Text} {items : List Item}
    (hscan : scan source = .ok items) :
    Compiler.TagsDeclared ⟨source, options, ((bindings items).filter fun binding =>
      options.isTemplateModule binding.moduleName).map ModuleBinding.name⟩ := by
  intro name hname
  obtain ⟨binding, hbinding, rfl⟩ := List.mem_map.mp hname
  obtain ⟨hmem, hmodule⟩ := List.mem_filter.mp hbinding
  exact .declared hscan (mem_bindings.mp hmem) hmodule

theorem compileTemplates_blames {options : Options} {source : Text} {e : TransformError}
    (h : compileTemplates options source = .error e) : Blames options source e := by
  unfold compileTemplates at h
  rcases bind_eq_error_iff.mp h with h | ⟨items, hscan, h⟩
  · obtain ⟨cause, hscan, rfl⟩ := mapError_eq_error_iff.mp h
    have hblames :
        Blames options source (.unreadable (.ofOffset source (0 + cause.offset)) cause) :=
      .fragment .script hscan
    rwa [Nat.zero_add] at hblames
  have hscan := mapError_eq_ok_iff.mp hscan
  rcases bind_eq_error_iff.mp h with h | ⟨result, -, h⟩
  · have htags := tagsDeclared_of_scan options hscan
    exact Compiler.templates_blames htags (Compiler.fragment_blames htags _) .script hscan
      (List.Subset.refl items) h
  · cases h

/-- Beyond what it blames a text or a template for, a script fails only if its own edits overlap. -/
theorem transform_blames {options : Options} {source : Text} {e : TransformError}
    (h : transform options source = .error e) : e = .overlap ∨ Blames options source e := by
  rw [transform_eq] at h
  rcases bind_eq_error_iff.mp h with h | ⟨⟨items, edits, progress⟩, -, h⟩
  · exact .inr (compileTemplates_blames h)
  · dsimp only at h
    split at h
    · cases h
      exact .inl rfl
    · cases h

/-- **Errors are reported where they are.** If a template is refused, the position is that of the
first character of its tag, and the error is the one that its markup has in every scope. If an
escape means nothing, the position is that of its backslash, in a static part of a template that is
to be compiled. Both are positions in the whole script, however deep the template is nested. -/
theorem transform_error_positions (options : Options) (source : Text) :
    (∀ position cause, transform options source = .error (.uncompilable position cause) →
      ∃ base literal, RecognizedAt options source base literal ∧
        position = .ofOffset source (base + literal.span.start) ∧
        (∃ tag blanks, SpellsTag literal.tag tag blanks ∧
          StandsAt source (tag ++ (blanks ++
            '\x60' :: (interleave literal.quasis literal.substitutions ++ ['\x60'])))
            (base + literal.span.start)) ∧
        literal.Refused options cause) ∧
    ∀ position offset sequence,
      transform options source = .error (.unreadable position (.invalidEscape offset sequence)) →
        ∃ base literal quasi place, RecognizedAt options source base literal ∧
          quasi ∈ literal.quasis ∧ cook quasi.text = .error (.invalidEscape place sequence) ∧
          position = .ofOffset source (base + quasi.span.start + place) ∧
          sequence.head? = some '\\' ∧ StandsAt quasi.text sequence place ∧
          StandsAt source quasi.text (base + quasi.span.start) ∧
          StandsAt source sequence (base + quasi.span.start + place) := by
  constructor
  · intro position cause h
    rcases transform_blames h with hoverlap | hblames
    · cases hoverlap
    cases hblames with
    | @template base literal _ hliteral hrefused =>
        exact ⟨base, literal, hliteral, rfl, hliteral.spelled, hrefused⟩
  · intro position offset sequence h
    rcases transform_blames h with hoverlap | hblames
    · cases hoverlap
    cases hblames with
    | fragment _ hscan =>
        obtain ⟨offset, expected, hunreadable⟩ := scan_error hscan
        cases hunreadable
    | @escape base place literal quasi _ hliteral hquasi hcook =>
        obtain ⟨_, _, heq, hescape⟩ := cook_error hcook
        cases heq
        have hstands := hliteral.quasi_standsAt hquasi
        exact ⟨base, literal, quasi, place, hliteral, hquasi, hcook, by rw [Nat.add_assoc],
          hescape.backslash, hescape.standsAt, hstands, hstands.trans hescape.standsAt⟩

/-- A template in a substitution of a substitution is refused, and in another script one behind a
line break has an escape that means nothing, after a character of two bytes. -/
theorem transform_error_positions_nested :
    let refused :=
      "a\x60$\x7brequire('bel')\x60<p>$\x7brequire('bel')\x60<b\x60\x7d</p>\x60\x7d\x60".toList
    let misspelled :=
      "require('bel')\x60<p>$\x7b\n [require('bel')\x60é\\1\x60]\x7d</p>\x60".toList
    (∃ cause base literal, transform {} refused = .error (.uncompilable ⟨1, 25⟩ cause) ∧
      RecognizedAt {} refused base literal ∧
      ⟨1, 25⟩ = Position.ofOffset refused (base + literal.span.start) ∧ literal.Refused {} cause) ∧
    ∃ offset base place, ∃ quasi : Piece, transform {} misspelled
        = .error (.unreadable ⟨2, 19⟩ (.invalidEscape offset "\\1".toList)) ∧
      ⟨2, 19⟩ = Position.ofOffset misspelled (base + quasi.span.start + place) ∧
      StandsAt misspelled "\\1".toList (base + quasi.span.start + place) := by
  intro refused misspelled
  have hrefused : transform {} refused
      = .error (.uncompilable ⟨1, 25⟩ (.invalidTemplate (.unterminated .tag 0))) := by
    decide +kernel
  have hmisspelled : transform {} misspelled
      = .error (.unreadable ⟨2, 19⟩ (.invalidEscape 20 "\\1".toList)) := by
    decide +kernel
  constructor
  · obtain ⟨base, literal, hliteral, hposition, -, hrefuses⟩ :=
      (transform_error_positions {} refused).1 _ _ hrefused
    exact ⟨_, base, literal, hrefused, hliteral, hposition, hrefuses⟩
  · obtain ⟨base, literal, quasi, place, -, -, -, hposition, -, -, -, hstands⟩ :=
      (transform_error_positions {} misspelled).2 _ _ _ hmisspelled
    exact ⟨_, base, place, quasi, hmisspelled, hposition, hstands⟩

end Script
end Hypertext
