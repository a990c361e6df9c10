namespace Treeshake

-- What an application uses is known only after a whole pass over its modules, so the output of the
-- first pass is dropped, and the second pass prunes.
inductive Phase where
  | initial
  | scanning
  | pruning
  | done
deriving DecidableEq, Repr

namespace Phase

def name : Phase → String
  | .initial => "Init"
  | .scanning => "ScanningUsage"
  | .pruning => "Rewriting"
  | .done => "Done"

def begin : Phase → Phase
  | .initial => .scanning
  | phase => phase

def query : Phase → Phase × Bool
  | .initial => (.pruning, true)
  | .scanning => (.pruning, true)
  | .pruning => (.done, false)
  | .done => (.done, false)

def emits : Phase → Bool
  | .initial => false
  | .scanning => false
  | .pruning => true
  | .done => true

def prunes : Phase → Bool
  | .pruning => true
  | _ => false

def scans : Phase → Bool
  | .done => false
  | _ => true

inductive Event where
  | begin
  | query
  | reset
deriving DecidableEq, Repr

inductive Reply where
  | phase (p : Phase)
  | again (b : Bool)
  | silence
deriving DecidableEq, Repr

def after (phase : Phase) : Event → Phase
  | .begin => phase.begin
  | .query => phase.query.1
  | .reset => .initial

def reply (phase : Phase) : Event → Reply
  | .begin => .phase phase.begin
  | .query => .again phase.query.2
  | .reset => .silence

end Phase

end Treeshake
