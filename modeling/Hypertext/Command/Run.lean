import Hypertext.Command.Path
import Hypertext.Command.Task
import Hypertext.Options.Config
import Hypertext.Script.Transform

set_option autoImplicit false

/-! # Commands

The three things that the program does: compile the templates of a script, show what one template is
lowered to, and print the code of a helper. -/

namespace Hypertext
namespace Command

/-- Where options come from: a file, and the command line. -/
structure OptionSource where
  config : Option SystemText := none
  overrides : Overrides := {}
  deriving DecidableEq, Repr

end Command

/-- A command with its arguments. -/
inductive Command where
  | build (input : Command.SystemText) (outDir : Option Command.SystemText)
      (options : Command.OptionSource)
  | lower (body : Text) (asScript : Bool) (options : Command.OptionSource)
  | runtime (helper : Helper)
  deriving DecidableEq, Repr

namespace Command

/-! ## Causes -/

/-- The failure to compile a template. -/
def loweringFailure : LoweringError → Failure
  | .invalidTemplate cause => ⟨(LoweringError.invalidTemplate cause).message, [cause.message]⟩

/-- The failure to compile a script. -/
def transformFailure (e : Script.TransformError) : Failure :=
  match e with
  | .unreadable _ cause => ⟨e.message, [cause.message]⟩
  | .uncompilable _ cause => (loweringFailure cause).context e.message
  | .overlap => ⟨e.message, []⟩

/-! ## Options -/

/-- Goes on with the options of a source. -/
def withOptions (source : OptionSource) (next : Options → Task) : Task :=
  match source.config with
  | none => next (({} : Options).override source.overrides)
  | some path =>
    let loading := "failed to load config ".toList ++ path.shown
    .readFile path fun
      | .error e =>
        let reading :=
          "failed to read config file ".toList ++ path.shown ++ ": ".toList ++ e.message
        .finish (.failure ((e.failure.context reading).context loading))
      | .ok content =>
        match Options.ofToml content with
        | .error e =>
          let invalid := "invalid config: ".toList ++ e.message
          .finish (.failure ((Failure.mk e.message []).context invalid |>.context loading))
        | .ok options => next (options.override source.overrides)

/-! ## Building -/

/-- Where compiled scripts go unless told otherwise. -/
def defaultOutDir : SystemText := .ofText "target/hyperlower-gen".toList

/-- The name of a compiled script whose input has none that is text. -/
def defaultName : SystemText := .ofText "index.js".toList

/-- The name of the compiled script: that of the input if it is text. -/
def outputName (input : SystemText) : SystemText :=
  ((fileName? input).filter SystemText.isText).getD defaultName

/-- Compiles a script and writes it to a directory under its own name. -/
def buildTask (input : SystemText) (outDir : Option SystemText) (options : Options) : Task :=
  .readFile input <| Task.orFail ("failed to read ".toList ++ input.shown) fun source =>
    match Script.transform options source with
    | .error .overlap => .finish .abort
    | .error e =>
      .finish (.failure
        ((transformFailure e).context ("failed to transform ".toList ++ input.shown)))
    | .ok transformed =>
      let directory := outDir.getD defaultOutDir
      let output := joinPath directory (outputName input)
      .createDirectories directory <|
        Task.orFail ("failed to create ".toList ++ directory.shown) fun _ =>
          .writeFile output transformed.code <|
            Task.orFail ("failed to write ".toList ++ output.shown) fun _ =>
              .printLast ("Generated: ".toList ++ output.shown ++ ['\n'])

/-! ## Lowering one template -/

/-- The single template literal that a text between backquotes is. -/
def soleTemplate (body : Text) : Except Failure Script.TemplateLiteral :=
  let literal := '\x60' :: (body ++ ['\x60'])
  match Script.scan literal with
  | .error e => .error ⟨"failed to read template".toList, [e.message]⟩
  | .ok [.template template] =>
    if template.span = ⟨0, Text.byteSize literal⟩ then .ok template else .error notSingle
  | .ok _ => .error notSingle
where
  /-- The failure of a text that is no single template. -/
  notSingle : Failure := ⟨"input is not the body of a single template literal".toList, []⟩

/-- The static parts with their escapes replaced. -/
def cookPieces : List Script.Piece → Except Failure (List Text)
  | [] => .ok []
  | piece :: pieces =>
    match Script.cook piece.text with
    | .error e => .error ⟨"failed to read template".toList, [e.message]⟩
    | .ok text => (cookPieces pieces).map (text :: ·)

/-- The operations of a lowered template, one a line, and its root. -/
def listing (lowered : Lowered) : Text :=
  lowered.operations.flatMap (fun operation => operation.display ++ ['\n'])
    ++ "root: ".toList ++ (lowered.root.map Binding.name).getD "null".toList ++ ['\n']

/-- What the body of a template is lowered to: its operations, or the code for them with the
declarations that it needs. -/
def lowerBody (options : Options) (asScript : Bool) (body : Text) : Except Failure Text := do
  let literal ← soleTemplate body
  let quasis ← cookPieces literal.quasis
  let expressions := literal.substitutions.map fun piece => piece.text.trim
  let template ← (Template.ofParts quasis expressions).mapError fun e => ⟨e.message, []⟩
  let result := template.lower options.lowering .empty
  let lowered ← result.1.mapError loweringFailure
  if asScript then
    let code := Script.render expressions lowered result.2
    return Script.declarations options code.2.shared ++ code.1 ++ ['\n']
  else return listing lowered

/-! ## All commands -/

/-- The task that a command stands for. -/
def task : Command → Task
  | .build input outDir source => withOptions source (buildTask input outDir)
  | .lower body asScript source => withOptions source fun options =>
    match lowerBody options asScript body with
    | .error failure => .finish (.failure failure)
    | .ok text => .printLast text
  | .runtime helper =>
    match Script.helperModule? helper with
    | some code => .printLast code
    | none => .finish (.failure ⟨"no bundled source for ".toList ++ helper.key, []⟩)

end Command
end Hypertext
