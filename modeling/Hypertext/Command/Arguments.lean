import Hypertext.Command.Run

set_option autoImplicit false

/-! # Command lines

Arguments are read from left to right. An option has a long name, and its value follows it or an
equals sign; a switch has none. Help and version are answered as soon as they are asked for, if
nothing before was wrong. Paths may hold bytes that are no text, and the other arguments may not. -/

namespace Hypertext
namespace Command

/-- Why a command line is refused. -/
inductive UsageError where
  | noCommand
  | unknownCommand (name : Text)
  | unknownArgument (argument : Text)
  | repeated (name : Text)
  | missingValue (name : Text)
  | needlessValue (name : Text)
  | invalidValue (name value : Text)
  | missingArgument (name : Text)
  deriving DecidableEq, Repr

/-- What a command line asks for. -/
inductive Request where
  | run (command : Command)
  | help
  | version
  deriving DecidableEq, Repr

/-- What ends the reading of arguments early. -/
inductive Interrupt where
  | usage (e : UsageError)
  | help
  | version
  deriving DecidableEq, Repr

/-! ## The arguments of one command -/

/-- The values that an argument can have. -/
inductive ValueKind where
  | text
  /-- A path must not be empty. -/
  | path
  | oneOf (values : List Text)

/-- Whether a value is of a kind. -/
def ValueKind.accepts : ValueKind → SystemText → Bool
  | .text, value => value.isText
  | .path, value => !value.isEmpty
  | .oneOf values, value => values.contains value.shown

/-- The arguments that a command knows: the name and kind of its positional argument, its options
and its switches. -/
structure Signature where
  positional : Text × ValueKind
  options : List (Text × ValueKind)
  switches : List Text

/-- The arguments given so far. -/
structure Given where
  positional : Option SystemText := none
  options : List (Text × SystemText) := []
  switches : List Text := []

namespace Given

/-- The value of an option. -/
def option? (given : Given) (name : String) : Option SystemText :=
  (given.options.find? fun option => option.1 == name.toList).map Prod.snd

/-- Whether a switch is set. -/
def has (given : Given) (name : String) : Bool := given.switches.contains name.toList

/-- Takes a positional argument. -/
def addPositional (signature : Signature) (given : Given) (value : SystemText) :
    Except Interrupt Given :=
  if given.positional.isSome then .error (.usage (.unknownArgument value.shown))
  else if signature.positional.2.accepts value then .ok { given with positional := some value }
  else .error (.usage (.invalidValue signature.positional.1 value.shown))

/-- Takes an option with its value. -/
def addOption (given : Given) (name : Text) (kind : ValueKind) (value : SystemText) :
    Except Interrupt Given :=
  if given.options.any fun option => option.1 == name then .error (.usage (.repeated name))
  else if kind.accepts value then .ok { given with options := (name, value) :: given.options }
  else .error (.usage (.invalidValue name value.shown))

/-- Takes a switch. -/
def addSwitch (given : Given) (name : Text) : Except Interrupt Given :=
  if given.switches.contains name then .error (.usage (.repeated name))
  else .ok { given with switches := name :: given.switches }

/-- Takes a row of one-letter switches. -/
def addLetters (given : Given) : Text → Except Interrupt Given
  | [] => .ok given
  | c :: letters =>
    if c == 'h' then .error .help
    else if c == 'v' then
      match given.addSwitch "verbose".toList with
      | .error e => .error e
      | .ok next => next.addLetters letters
    else .error (.usage (.unknownArgument ['-', c]))

end Given

/-- A long argument, without its dashes, as its name and the value after an equals sign. -/
def splitLong (argument : SystemText) : Text × Option SystemText :=
  let name : SystemText := argument.takeWhile (· != .char '=')
  (name.shown, (argument.drop name.length).tail?)

/-- Whether an argument looks like an option: it begins with a dash and is more than one. -/
def isOptionLike : SystemText → Bool
  | .char '-' :: _ :: _ => true
  | _ => false

/-- Takes positional arguments only. -/
def readPositionals (signature : Signature) (given : Given) :
    List SystemText → Except Interrupt Given
  | [] => .ok given
  | argument :: rest => do
    let next ← given.addPositional signature argument
    readPositionals signature next rest

/-- Reads the arguments of a command. -/
def readArguments (signature : Signature) (given : Given) :
    List SystemText → Except Interrupt Given
  | [] => .ok given
  | (.char '-' :: .char '-' :: long) :: rest =>
    if long.isEmpty then readPositionals signature given rest
    else
      let argument := splitLong long
      let known := signature.options.find? fun option => option.1 == argument.1
      match known, argument.2 with
      | some (name, kind), some value => do
        let next ← given.addOption name kind value
        readArguments signature next rest
      | some (name, kind), none =>
        match rest with
        | [] => .error (.usage (.missingValue name))
        | value :: others =>
          if isOptionLike value then .error (.usage (.missingValue name))
          else do
            let next ← given.addOption name kind value
            readArguments signature next others
      | none, attached =>
        if argument.1 == "help".toList || argument.1 == "verbose".toList
            || signature.switches.contains argument.1 then
          if attached.isSome then .error (.usage (.needlessValue argument.1))
          else if argument.1 == "help".toList then .error .help
          else do
            let next ← given.addSwitch argument.1
            readArguments signature next rest
        else .error (.usage (.unknownArgument argument.1))
  | argument :: rest => do
    let next ←
      if isOptionLike argument then given.addLetters (SystemText.shown (argument.drop 1))
      else given.addPositional signature argument
    readArguments signature next rest

/-! ## The three commands -/

/-- The options that select the options of the compiler. -/
def compilerOptions : List (Text × ValueKind) :=
  [("config".toList, .path), ("append-child-module".toList, .text),
    ("set-attribute-module".toList, .text), ("on-load-module".toList, .text)]

/-- The switches that select the options of the compiler. -/
def compilerSwitches : List Text :=
  ["use-import-style", "no-lifecycle", "keep-whitespace"].map String.toList

/-- The options of the compiler among the given arguments. -/
def optionSource (given : Given) : OptionSource :=
  { config := given.option? "config"
    overrides :=
      { appendChildModule := (given.option? "append-child-module").map SystemText.shown
        setAttributeModule := (given.option? "set-attribute-module").map SystemText.shown
        onLoadModule := (given.option? "on-load-module").map SystemText.shown
        useImportStyle := given.has "use-import-style"
        noLifecycle := given.has "no-lifecycle"
        keepWhitespace := given.has "keep-whitespace" } }

/-- The positional argument, which must be given. -/
def required (signature : Signature) (given : Given) : Except Interrupt SystemText :=
  match given.positional with
  | some value => .ok value
  | none => .error (.usage (.missingArgument signature.positional.1))

/-- The arguments of `build`. -/
def buildSignature : Signature :=
  ⟨("INPUT".toList, .path), ("out-dir".toList, .path) :: compilerOptions, compilerSwitches⟩

/-- The arguments of `lower`. -/
def lowerSignature : Signature :=
  ⟨("TEMPLATE".toList, .text), compilerOptions, "js".toList :: compilerSwitches⟩

/-- The arguments of `runtime`. -/
def runtimeSignature : Signature :=
  ⟨("HELPER".toList, .oneOf ["append-child".toList, "set-attribute".toList]), [], []⟩

/-- Reads a command and its arguments. -/
def readCommand (name : Text) (arguments : List SystemText) : Except Interrupt Command :=
  if name = "build".toList then do
    let given ← readArguments buildSignature {} arguments
    let input ← required buildSignature given
    return .build input (given.option? "out-dir") (optionSource given)
  else if name = "lower".toList then do
    let given ← readArguments lowerSignature {} arguments
    let body ← required lowerSignature given
    return .lower body.shown (given.has "js") (optionSource given)
  else if name = "runtime".toList then do
    let given ← readArguments runtimeSignature {} arguments
    let helper ← required runtimeSignature given
    return .runtime (if helper.shown = "append-child".toList then .appendChild else .setAttribute)
  else if name = "help".toList then
    match arguments with
    | [] => .error .help
    | [topic] =>
      if ["build", "lower", "runtime", "help"].any fun command => topic.shown == command.toList then
        .error .help
      else .error (.usage (.unknownCommand topic.shown))
    | _ :: topic :: _ => .error (.usage (.unknownCommand topic.shown))
  else .error (.usage (.unknownCommand name))

/-- Reads the one-letter switches before the command. `verbose` says whether that switch is set. -/
def readLetters (verbose : Bool) : Text → Except Interrupt Bool
  | [] => .ok verbose
  | c :: letters =>
    if c == 'h' then .error .help
    else if c == 'V' then .error .version
    else if c == 'v' then
      if verbose then .error (.usage (.repeated "verbose".toList)) else readLetters true letters
    else .error (.usage (.unknownArgument ['-', c]))

/-- Reads the switches before the command, then the command. -/
def readLine (verbose : Bool) : List SystemText → Except Interrupt Command
  | [] => .error (.usage .noCommand)
  | argument :: rest =>
    let name := argument.shown
    if name = "--help".toList then .error .help
    else if name = "--version".toList then .error .version
    else if name = "--verbose".toList then
      if verbose then .error (.usage (.repeated "verbose".toList)) else readLine true rest
    else if Text.startsWith "--".toList name then .error (.usage (.unknownArgument name))
    else if isOptionLike argument then do
      let verbose ← readLetters verbose (name.drop 1)
      readLine verbose rest
    else readCommand name rest

/-- What a command line asks for. -/
def Request.ofArguments (arguments : List SystemText) : Except UsageError Request :=
  match readLine false arguments with
  | .ok command => .ok (.run command)
  | .error .help => .ok .help
  | .error .version => .ok .version
  | .error (.usage e) => .error e

/-! ## Messages -/

/-- The message of an error. -/
def UsageError.message : UsageError → Text
  | .noCommand => "a command is required".toList
  | .unknownCommand name => "unrecognized command ".toList ++ name
  | .unknownArgument argument => "unexpected argument ".toList ++ argument
  | .repeated name => "the argument --".toList ++ name ++ " cannot be used twice".toList
  | .missingValue name => "the argument --".toList ++ name ++ " needs a value".toList
  | .needlessValue name => "the argument --".toList ++ name ++ " takes no value".toList
  | .invalidValue name value => "invalid value ".toList ++ value.quoted ++ " for ".toList ++ name
  | .missingArgument name => "the argument ".toList ++ name ++ " is required".toList

/-- How the program is used. -/
def usage : Text :=
  Text.joinWith ['\n'] <| List.map String.toList
    ["Compile hypertext templates to DOM calls",
      "",
      "Usage: hyperlower [-v] COMMAND",
      "",
      "Commands:",
      "  build INPUT [--out-dir DIR]           compile the templates of a JavaScript file",
      "  lower TEMPLATE [--js]                 print the operations of one template body",
      "  runtime append-child|set-attribute    print a runtime helper module",
      "",
      "Options of build and lower:",
      "  --config FILE                  TOML config file",
      "  --append-child-module NAME     module of the appendChild helper",
      "  --set-attribute-module NAME    module of the setAttribute helper",
      "  --on-load-module NAME          module of the lifecycle helper",
      "  --use-import-style             declare helpers by import",
      "  --no-lifecycle                 treat onload and onunload as properties",
      "  --keep-whitespace              keep blanks in text as they are",
      ""]

/-- The name and version of the program. -/
def version : Text := "hyperlower 0.1.0\n".toList

end Command
end Hypertext
