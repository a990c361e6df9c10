import Treeshake.Build.Phase

namespace Treeshake

namespace Phase

def code : Phase → UInt8
  | .initial => 0
  | .scanning => 1
  | .pruning => 2
  | .done => 3

def ofCode (byte : UInt8) : Phase :=
  if byte = 0 then .initial
  else if byte = 1 then .scanning
  else if byte = 2 then .pruning
  else .done

instance : LE Phase := ⟨fun before later => before.code ≤ later.code⟩

instance (before later : Phase) : Decidable (before ≤ later) :=
  inferInstanceAs (Decidable (before.code ≤ later.code))

end Phase

structure SharedByte where
  value : UInt8
deriving DecidableEq, Repr

namespace SharedByte

def compareExchange (b : SharedByte) (expected next : UInt8) : Except UInt8 UInt8 × SharedByte :=
  if b.value = expected then (.ok b.value, ⟨next⟩) else (.error b.value, b)

def fetchUpdate (b : SharedByte) (change : UInt8 → Option UInt8) :
    Except UInt8 UInt8 × SharedByte :=
  match change b.value with
  | some next => (.ok b.value, ⟨next⟩)
  | none => (.error b.value, b)

end SharedByte

-- Scans run while the host asks its question, so a step may find a phase that is not the one its
-- caller has seen.
structure Controller where
  byte : SharedByte
deriving DecidableEq, Repr

namespace Controller

open Phase

def new : Controller := ⟨⟨Phase.initial.code⟩⟩

def phase (c : Controller) : Phase := .ofCode c.byte.value

-- Moves a new build on, and no other, so that a late scan does not undo a query.
def beginPass (c : Controller) : Phase × Controller :=
  let next := Phase.initial.begin
  match c.byte.compareExchange Phase.initial.code next.code with
  | (.ok _, byte) => (next, ⟨byte⟩)
  | (.error found, byte) => (.ofCode found, ⟨byte⟩)

-- The answer is made again from the byte that the update has found.
def needsAnotherPass (c : Controller) : Bool × Controller :=
  match c.byte.fetchUpdate fun byte => some (Phase.ofCode byte).query.1.code with
  | (.ok found, byte) => ((Phase.ofCode found).query.2, ⟨byte⟩)
  | (.error found, byte) => ((Phase.ofCode found).query.2, ⟨byte⟩)

def reset (c : Controller) : Controller := { c with byte := ⟨Phase.initial.code⟩ }

def step (c : Controller) : Event → Reply × Controller
  | .begin => let (phase, next) := c.beginPass; (.phase phase, next)
  | .query => let (again, next) := c.needsAnotherPass; (.again again, next)
  | .reset => (.silence, c.reset)

def after (c : Controller) (events : List Event) : Controller :=
  events.foldl (fun c event => (c.step event).2) c

end Controller

end Treeshake
