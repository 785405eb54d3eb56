import Hypertext.Lowering

set_option autoImplicit false

/-! # Options

What the compiler of a script can be told: which modules provide templates, where the
helpers come from, and how templates are lowered. -/

namespace Hypertext

/-- The options of the compiler. -/
structure Options where
  /-- The modules whose default export is a template tag. -/
  templateModules : List Text := ["bel", "yo-yo", "choo", "choo/html"].map String.toList
  /-- The modules whose declarations are deleted. -/
  removeImports : List Text := ["bel".toList]
  appendChildModule : Text := "yo-yoify/lib/appendChild".toList
  /-- The module of the helper, which is written into each script if there is none. -/
  setAttributeModule : Option Text := none
  onLoadModule : Text := "on-load".toList
  /-- Whether helpers are declared by `import` and not by `require`. -/
  useImportStyle : Bool := false
  lifecycle : Bool := true
  collapseWhitespace : Bool := true
  deriving DecidableEq, Repr

/-- Options given on the command line, which go before those of a file. -/
structure Overrides where
  appendChildModule : Option Text := none
  setAttributeModule : Option Text := none
  onLoadModule : Option Text := none
  useImportStyle : Bool := false
  noLifecycle : Bool := false
  keepWhitespace : Bool := false
  deriving DecidableEq, Repr

namespace Options

/-- The options with the given overrides. A switch can only be set, not unset. -/
def override (options : Options) (overrides : Overrides) : Options :=
  { options with
    appendChildModule := overrides.appendChildModule.getD options.appendChildModule
    setAttributeModule := overrides.setAttributeModule.or options.setAttributeModule
    onLoadModule := overrides.onLoadModule.getD options.onLoadModule
    useImportStyle := options.useImportStyle || overrides.useImportStyle
    lifecycle := options.lifecycle && !overrides.noLifecycle
    collapseWhitespace := options.collapseWhitespace && !overrides.keepWhitespace }

/-- The choices in lowering. -/
def lowering (options : Options) : LoweringOptions :=
  ⟨options.lifecycle, options.collapseWhitespace⟩

/-- Whether a module provides templates. -/
def isTemplateModule (options : Options) (name : Text) : Bool :=
  options.templateModules.contains name

/-- Whether the declarations of a module are deleted. -/
def removesImport (options : Options) (name : Text) : Bool := options.removeImports.contains name

/-- The module that a helper comes from. -/
def helperModule? (options : Options) : Helper → Option Text
  | .appendChild => some options.appendChildModule
  | .setAttribute => options.setAttributeModule
  | .onLoad => some options.onLoadModule

end Options
end Hypertext
