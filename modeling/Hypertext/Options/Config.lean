import Hypertext.Options
import Hypertext.Options.Toml

set_option autoImplicit false

/-! # Options from a file

Every option can be set in a TOML file, under its own name. A file that sets anything else, sets an
option twice, or gives it a value of the wrong kind is refused. -/

namespace Hypertext

/-- Why a file of options is refused. -/
inductive ConfigError where
  | malformed
  | repeatedKey (key : Text)
  | unknownKey (key : Text)
  | wrongKind (key : Text)
  deriving DecidableEq, Repr

/-- The message of an error. -/
def ConfigError.message : ConfigError → Text
  | .malformed => "the file is not a list of settings".toList
  | .repeatedKey key => "repeated key ".toList ++ key
  | .unknownKey key => "unknown key ".toList ++ key
  | .wrongKind key => "wrong kind of value for key ".toList ++ key

namespace Options

/-- The options with one setting changed. -/
def set (options : Options) (key : Text) (setting : Setting) : Except ConfigError Options :=
  match String.ofList key, setting with
  | "templateModules", .strings texts => .ok { options with templateModules := texts }
  | "removeImports", .strings texts => .ok { options with removeImports := texts }
  | "appendChildModule", .string text => .ok { options with appendChildModule := text }
  | "setAttributeModule", .string text => .ok { options with setAttributeModule := some text }
  | "onLoadModule", .string text => .ok { options with onLoadModule := text }
  | "useImportStyle", .boolean value => .ok { options with useImportStyle := value }
  | "lifecycle", .boolean value => .ok { options with lifecycle := value }
  | "collapseWhitespace", .boolean value => .ok { options with collapseWhitespace := value }
  | name, _ => .error (if names.contains name then .wrongKind key else .unknownKey key)
where
  /-- The names of all options. -/
  names : List String :=
    ["templateModules", "removeImports", "appendChildModule", "setAttributeModule", "onLoadModule",
      "useImportStyle", "lifecycle", "collapseWhitespace"]

/-- The options with settings changed one after the other. The keys in `seen` are set already. -/
def setAll (options : Options) (seen : List Text) :
    List (Text × Setting) → Except ConfigError Options
  | [] => .ok options
  | (key, setting) :: rest =>
    if seen.contains key then .error (.repeatedKey key)
    else
      match options.set key setting with
      | .error e => .error e
      | .ok changed => changed.setAll (key :: seen) rest

/-- The options that a file gives. -/
def ofToml (content : Text) : Except ConfigError Options :=
  match Toml.parse? content with
  | none => .error .malformed
  | some settings => ({} : Options).setAll [] settings

end Options
end Hypertext
