import Treeshake.Node.Shape

namespace Treeshake.Node

def importSource? (declaration : Json) : Option String := do
  let source ← declaration.field? "source"
  (← source.field? "value").string?

-- The name that a specifier takes from the other module, which may be written as a string.
def importedName? (specifier : Json) : Option String := do
  let imported ← specifier.field? "imported"
  identifier? imported <|> (imported.field? "value").bind Json.string?

def localName? (specifier : Json) : Option String :=
  (specifier.field? "local").bind identifier?

def specifiers (declaration : Json) : List Json :=
  ((declaration.field? "specifiers").bind Json.items?).getD []

def isImport (node : Json) : Bool := type? node == some "ImportDeclaration"

-- The local name that a specifier gives to an export. A default import counts when its local
-- name is already the one sought.
def boundBy? (name : String) (specifier : Json) : Option String :=
  match type? specifier with
  | some "ImportSpecifier" =>
    if importedName? specifier == some name then localName? specifier else none
  | some "ImportDefaultSpecifier" =>
    if localName? specifier == some name then localName? specifier else none
  | _ => none

-- The local name of an export of a module: of the first import in the tree that gives one.
def localNameOf? (root : Json) (source name : String) : Option String :=
  (preorder root).findSome? fun node =>
    if isImport node && importSource? node == some source then
      (specifiers node).findSome? (boundBy? name)
    else none

structure Binding where
  localName : String
  importedName : String
  source : String
deriving DecidableEq, Repr

def binding? (source : String) (specifier : Json) : Option Binding := do
  let name ← localName? specifier
  match type? specifier with
  | some "ImportSpecifier" => return ⟨name, (importedName? specifier).getD name, source⟩
  | some "ImportDefaultSpecifier" => return ⟨name, "default", source⟩
  | some "ImportNamespaceSpecifier" => return ⟨name, "*", source⟩
  | _ => none

def bindings (root : Json) : List Binding :=
  (findAll root isImport).flatMap fun declaration =>
    match importSource? declaration with
    | some source => (specifiers declaration).filterMap (binding? source)
    | none => []

end Treeshake.Node
