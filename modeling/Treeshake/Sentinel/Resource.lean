import Treeshake.Ecma.Script
import Treeshake.Text.Search

namespace Treeshake.Sentinel

-- The file that a module was loaded from: what stands behind the last loader, without a query.
def resourcePath (identifier : String) : List Char :=
  Text.beforeFirst '?' (Text.afterLast '!' identifier.toList)

def fileName? (path : List Char) : Option (List Char) :=
  let names := (Text.pieces ['/'] path).filter fun name => !name.isEmpty && name != ['.']
  match names.getLast? with
  | some ['.', '.'] => none
  | other => other

-- A file name before and behind its last point. A point at the front begins no extension.
def splitExtension? (name : List Char) : Option (List Char × List Char) :=
  let extension := Text.afterLast '.' name
  let stem := name.take (name.length - extension.length - 1)
  if extension.length == name.length || stem.isEmpty then none else some (stem, extension)

structure Language where
  dialect : Ecma.Dialect
  kind : Ecma.Kind
  -- whether the file only declares what others define
  declares : Bool

-- Without a known extension a module is plain code that may import and export.
def Language.standard : Language := ⟨⟨false, false⟩, .module, false⟩

def Language.ofExtension? (extension : String) : Option Language :=
  match extension with
  | "js" => some ⟨⟨false, false⟩, .ambiguous, false⟩
  | "jsx" => some ⟨⟨false, true⟩, .ambiguous, false⟩
  | "mjs" => some ⟨⟨false, false⟩, .module, false⟩
  | "cjs" => some ⟨⟨false, false⟩, .common, false⟩
  | "ts" => some ⟨⟨true, false⟩, .ambiguous, false⟩
  | "tsx" => some ⟨⟨true, true⟩, .ambiguous, false⟩
  | "mts" => some ⟨⟨true, false⟩, .module, false⟩
  | "cts" => some ⟨⟨true, false⟩, .common, false⟩
  | _ => none

def Language.ofIdentifier (identifier : String) : Language :=
  match fileName? (resourcePath identifier) with
  | none => .standard
  | some name =>
    match splitExtension? name with
    | none => .standard
    | some (stem, extension) =>
      match ofExtension? (String.ofList extension) with
      | none => .standard
      | some language =>
        let marked := ['.', 'd'].isSuffixOf stem || Text.contains ['.', 'd', '.'] stem
        { language with declares := language.dialect.typed && marked &&
            !language.dialect.elements }

end Treeshake.Sentinel
