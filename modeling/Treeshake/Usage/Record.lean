import Treeshake.Build.Fault
import Treeshake.Usage.NameSet

namespace Treeshake.Usage

structure Record where
  components : NameSet
  directives : NameSet
deriving DecidableEq

namespace Record

def empty : Record := ⟨.empty, .empty⟩

def of (r : Record) : NameKind → NameSet
  | .component => r.components
  | .directive => r.directives

def add (r : Record) (kind : NameKind) (name : String) : Record :=
  match kind with
  | .component => { r with components := r.components.insert name }
  | .directive => { r with directives := r.directives.insert name }

def insert (r : Record) (kind : NameKind) (name : String) : Bool × Record :=
  (!(r.of kind).has name, r.add kind name)

def addAll (r : Record) (kind : NameKind) (names : List String) : Record :=
  names.foldl (·.add kind ·) r

def has (r : Record) (name : String) : Bool := r.components.has name || r.directives.has name

-- A name of both kinds counts twice.
def size (r : Record) : Nat := r.components.size + r.directives.size

def isEmpty (r : Record) : Bool := r.components.names.isEmpty && r.directives.names.isEmpty

def clear (r : Record) : Record := { r with components := .empty, directives := .empty }

end Record

end Treeshake.Usage
