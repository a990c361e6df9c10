import Treeshake.Build.Fault
import Treeshake.Ecma.Scope
import Treeshake.Sentinel.Resource
import Treeshake.Sentinel.Table
import Treeshake.Source.Edit

namespace Treeshake.Sentinel

open Source

-- The edit for a free name, if the table has it. A shorthand field gets its name back as a key.
def Table.edit? (table : Table) (mention : Ecma.Mention) : Option Edit :=
  (table.get? mention.name).map fun literal =>
    ⟨mention.name, if mention.shorthand then mention.name ++ ": " ++ literal else literal,
      mention.span⟩

def Table.editsOf (table : Table) (tree : Ecma.Tree) : List Edit :=
  (tree.mentions []).filterMap table.edit?

def parse? (identifier source : String) : Option Ecma.Tree :=
  let language := Language.ofIdentifier identifier
  (Ecma.Script.parse? language.dialect language.kind language.declares source.toList).map (·.tree)

-- The edits that a module needs. A text without any sentinel is not even parsed.
def collect (table : Table) (identifier source : String) : Except Fault (List Edit) :=
  if table.mentionedIn source then
    match parse? identifier source with
    | some tree => .ok (table.editsOf tree)
    | none => .error (.script identifier)
  else .ok []

def substitute (table : Table) (identifier source : String) : Except Fault (String × Journal) :=
  (collect table identifier source).map fun edits => Edit.splice edits source

end Treeshake.Sentinel
