import Treeshake.Library.Convention

namespace Treeshake.Library

structure Manifest where
  version : String
  convention : Convention
  libraryName : String
  -- the module with the functions that look names up at run time
  runtimeModule : String
  resolveComponent : String
  resolveDirective : String
  -- a part of every request for the module that exports everything
  barrelRequest : String
  internalPath : String

namespace Manifest

def barrelFile : String := "quasar/src/index.prod.js"

def standard (version : String) (convention : Convention) : Manifest :=
  ⟨version, convention, "quasar", "vue", "resolveComponent", "resolveDirective", barrelFile,
    barrelFile⟩

def resolver (m : Manifest) : NameKind → String
  | .component => m.resolveComponent
  | .directive => m.resolveDirective

def versionOf (descriptor : String) : Except ManifestFault String :=
  match Json.parse descriptor with
  | .error cause => .error (.shape cause)
  | .ok package =>
    match (package.field? "version").bind Json.string? with
    | some version => .ok version
    | none => .error .noVersion

def ofTexts (descriptor table : String) : Except Fault Manifest := do
  let version ← (versionOf descriptor).mapError .manifest
  let table ← (Table.ofText table).mapError fun cause => .manifest (.shape cause)
  let convention ← Convention.make table.exports table.patterns
  return standard version convention

abbrev File := Option ByteArray

def readText (file : File) : Except FileFault String :=
  match file with
  | none => .error .absent
  | some bytes =>
    match String.fromUTF8? bytes with
    | some text => .ok text
    | none => .error .notText

-- A manifest from the library's files. Both are read before either is understood.
def ofFiles (descriptor table : File) : Except Fault Manifest := do
  let descriptor ← (readText descriptor).mapError .file
  let table ← (readText table).mapError .file
  ofTexts descriptor table

end Manifest

end Treeshake.Library
