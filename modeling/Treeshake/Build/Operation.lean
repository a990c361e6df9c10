import Treeshake.Build.Session

namespace Treeshake

open Usage

inductive Operation where
  | beginPass
  | scanModule (m : SourceModule)
  | scanModules (ms : List SourceModule)
  | needsAnotherPass
  | shouldEmit
  | discardAssets (assets : List String)
  | isBarrel (request : String)
  | transformBarrel (request source : String) (package : Option Json)
  | transformScript (request source : String)
  | transformTemplate (request source : String)
  | substituteSentinels (identifier source : String)
  | missingBarrelWarning
  | reset

inductive Answer where
  | phase (p : Phase)
  | count (n : Nat)
  | verdict (b : Bool)
  | assets (dropped : Nat) (left : List String)
  | barrel (source : Except Fault (Option String)) (package : Option Json)
  -- a new text, or nothing if the source stays as it is
  | source (changed : Option String)
  | text (result : Except Fault String)
  | warning (text : Option String)
  | silence

def Outcome.map {α β : Type} (f : α → β) (o : Outcome α) : Outcome β :=
  ⟨o.session, f o.answer, o.journal⟩

namespace Plan

def perform (p : Plan) (s : Session) : Operation → Outcome Answer
  | .beginPass => (beginPass s).map .phase
  | .scanModule m => (p.scanModule s m).map .count
  | .scanModules ms => (p.scanModules s ms).map .count
  | .needsAnotherPass => (p.needsAnotherPass s).map .verdict
  | .shouldEmit => silent s (.verdict (p.emits s))
  | .discardAssets assets =>
    (p.discardAssets s assets).map fun (dropped, left) => .assets dropped left
  | .isBarrel request => silent s (.verdict (p.isBarrel request))
  | .transformBarrel request source package =>
    (p.transformBarrel s request source package).map fun a => .barrel a.source a.package
  | .transformScript request source => (p.transformScript s request source).map .source
  | .transformTemplate request source => (p.transformTemplate s request source).map .source
  | .substituteSentinels identifier source =>
    (p.substituteSentinels s identifier source).map .text
  | .missingBarrelWarning => silent s (.warning (p.missingBarrelWarning s))
  | .reset => (reset s).map fun _ => .silence

def sessionAfter (p : Plan) (s : Session) (ops : List Operation) : Session :=
  ops.foldl (fun s op => (p.perform s op).session) s

def run (p : Plan) (s : Session) : List Operation → List (Outcome Answer)
  | [] => []
  | op :: ops =>
    let outcome := p.perform s op
    outcome :: p.run outcome.session ops

end Plan

end Treeshake
