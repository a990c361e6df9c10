import Treeshake.Build.Journal
import Treeshake.Library.Manifest
import Treeshake.Node.Binding
import Treeshake.Node.Invocation
import Treeshake.Node.Outline
import Treeshake.Text.Search
import Treeshake.Usage.Record

namespace Treeshake.Usage

open Library

-- A module that the host hands over. One that the host did not parse has no tree.
structure SourceModule where
  identifier : String
  tree : Option Json

def vendorMark : String := "node_modules"

-- Whether a module belongs to others. Only its own file counts and not the loaders before it.
def isVendored (identifier : String) : Bool :=
  Text.contains vendorMark.toList (Text.afterLast '!' identifier.toList)

def references (m : Manifest) (tree : Json) (kind : NameKind) : List String :=
  match Node.localNameOf? tree m.runtimeModule (m.resolver kind) with
  | some name => (Node.invocations tree name).filterMap fun call =>
    m.convention.exportOf? kind call.value
  | none => []

structure Finding where
  count : Nat
  record : Record
  journal : Journal

def scanTree (m : Manifest) (tree : Json) (record : Record) : Nat × Record :=
  let components := references m tree .component
  let directives := references m tree .directive
  (components.length + directives.length,
    (record.addAll .component components).addAll .directive directives)

def outlineEntry (identifier : String) (tree : Json) : Journal :=
  .trace (identifier ++ "\n" ++ Node.outline tree)

def countEntry (identifier : String) (count : Nat) : Journal :=
  if count = 0 then [] else .debug (identifier ++ ": " ++ toString count ++ " library reference(s)")

-- Modules of others and modules without a tree contribute nothing.
def scan (m : Manifest) (source : SourceModule) (record : Record) : Finding :=
  match source.tree with
  | none => ⟨0, record, []⟩
  | some tree =>
    if isVendored source.identifier then ⟨0, record, []⟩
    else
      let (count, record) := scanTree m tree record
      ⟨count, record, outlineEntry source.identifier tree ++ countEntry source.identifier count⟩

-- Modules one after the other. No contribution depends on another one.
def scanAll (m : Manifest) (sources : List SourceModule) (record : Record) : Finding :=
  match sources with
  | [] => ⟨0, record, []⟩
  | source :: rest =>
    let first := scan m source record
    let others := scanAll m rest first.record
    ⟨first.count + others.count, others.record, first.journal ++ others.journal⟩

def scanEach (m : Manifest) (sources : List SourceModule) (record : Record) :
    List Finding × Record :=
  match sources with
  | [] => ([], record)
  | source :: rest =>
    let first := scan m source record
    let (others, last) := scanEach m rest first.record
    (first :: others, last)

end Treeshake.Usage
