import Treeshake.Json.Fault

namespace Treeshake

inductive NameKind where
  | component
  | directive
deriving DecidableEq, Repr

-- Where a pattern stands that does not compile.
inductive PatternPlace where
  | names (kind : NameKind)
  | resolution (kind : NameKind)
deriving DecidableEq, Repr

def NameKind.word : NameKind → String
  | .component => "component"
  | .directive => "directive"

def PatternPlace.text : PatternPlace → String
  | .names kind => kind.word
  | .resolution kind => kind.word ++ " resolution"

inductive ManifestFault where
  | shape (cause : Json.Fault)
  | noVersion
deriving DecidableEq, Repr

def ManifestFault.text : ManifestFault → String
  | .shape cause => cause.message
  | .noVersion => "package.json has no \"version\" string"

inductive FileFault where
  | absent
  | notText
deriving DecidableEq, Repr

def FileFault.text : FileFault → String
  | .absent => "No such file or directory (os error 2)"
  | .notText => "stream did not contain valid UTF-8"

inductive Fault where
  | options (cause : Json.Fault)
  | pattern (place : PatternPlace) (text : String)
  | manifest (cause : ManifestFault)
  | missingDescriptor (request : String)
  | script (identifier : String)
  | file (cause : FileFault)
deriving DecidableEq, Repr

namespace Fault

def optionsText (cause : Json.Fault) : String :=
  "Invalid QuasarUnusedPluginOptions: " ++ cause.message

def message : Fault → String
  | .options cause => optionsText cause
  | .pattern place text => "Invalid " ++ place.text ++ " pattern '" ++ text ++ "'"
  | .manifest cause => "Invalid library manifest: " ++ cause.text
  | .missingDescriptor request =>
    "Missing package descriptor for '" ++ request ++ "'; cannot apply sideEffects override"
  | .script identifier => "Failed to parse '" ++ identifier ++ "'"
  | .file cause => "IO error: " ++ cause.text

end Fault

end Treeshake
