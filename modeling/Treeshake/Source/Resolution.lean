import Treeshake.Library.Manifest
import Treeshake.Source.Import

namespace Treeshake.Source

open Library

-- The patterns for declarations of compiled templates, each of which looks one component or
-- directive up by its name.
structure Resolution where
  components : Pattern
  directives : Pattern
  exports : List (String × String)
  path : String

namespace Resolution

def patternText (kind : NameKind) (names : String) : String :=
  let (stem, function) := match kind with
    | .component => ("_component_", "_resolveComponent")
    | .directive => ("_directive_", "_resolveDirective")
  "const\\s+(?P<local>" ++ stem ++ "[\\w$]+)\\s*=\\s*" ++ function ++ "\\(\"(?P<name>" ++ names ++
    ")\"\\)!?;?"

-- Templates name directives without their prefix.
def namesText (texts : Patterns) : NameKind → String
  | .component => texts.components
  | .directive =>
    String.ofList (Text.erase Convention.directivePrefix.toList texts.directives.toList)

def compileFor (texts : Patterns) (kind : NameKind) : Except Fault Pattern :=
  compile (.resolution kind) (patternText kind (namesText texts kind))

def ofManifest (m : Manifest) : Except Fault Resolution := do
  let components ← compileFor m.convention.texts .component
  let directives ← compileFor m.convention.texts .directive
  return ⟨components, directives, m.convention.exports, m.internalPath⟩

def canonical? (r : Resolution) (kind : NameKind) (name : List Char) : Option String :=
  match kind with
  | .component => r.exports.lookup (String.ofList name)
  | .directive => r.exports.lookup (Convention.directivePrefix ++ String.ofList name)

def import? (r : Resolution) (kind : NameKind) (m : Pattern.Match) : Option (List Char) :=
  (r.canonical? kind (m.group "name")).map fun exported =>
    Import.line r.path ⟨exported.toList, m.group "local"⟩

structure Extract where
  imports : List (List Char)
  text : List Char

def extract (r : Resolution) (kind : NameKind) (p : Pattern) (text : List Char) : Extract :=
  let pieces := p.pieces text
  ⟨pieces.found.filterMap fun (_, m) => r.import? kind m,
    (pieces.found.flatMap fun (before, m) =>
      before ++ if (r.import? kind m).isSome then [] else m.text) ++ pieces.tail⟩

-- Replaces the declarations, those of components first. Without any there is no new text.
def replace? (r : Resolution) (source : String) : Option String :=
  let components := r.extract .component r.components source.toList
  let directives := r.extract .directive r.directives components.text
  let imports := components.imports ++ directives.imports
  if imports.isEmpty then none else some (String.ofList (imports.flatten ++ directives.text))

end Resolution

end Treeshake.Source
