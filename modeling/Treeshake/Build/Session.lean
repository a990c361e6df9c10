import Treeshake.Build.Phase
import Treeshake.Build.Settings
import Treeshake.Sentinel.Substitution
import Treeshake.Source.Barrel
import Treeshake.Source.Resolution
import Treeshake.Usage.Discovery

namespace Treeshake

open Library Source Usage

structure Plan where
  settings : Settings
  manifest : Manifest
  mode : Mode
  sentinels : Sentinel.Table
  resolution : Resolution

structure Session where
  record : Record
  phase : Phase
  -- whether a barrel has been seen whose exports are listed
  barrelSeen : Bool
deriving DecidableEq

def Session.initial : Session := ⟨.empty, .initial, false⟩

structure Outcome (α : Type) where
  session : Session
  answer : α
  journal : Journal

namespace Plan

-- Settings go before patterns.
def ofSettings (settings : Settings) (manifest : Manifest) (target : Target) (mode : Mode) :
    Except Fault (Plan × Journal) := do
  let sentinels := Sentinel.Table.ofBuild manifest.version settings target
  let resolution ← Resolution.ofManifest manifest
  return (⟨settings, manifest, mode, sentinels, resolution⟩,
    .info ("Setting globals: " ++ sentinels.describe))

def ofOptions (options : Json) (manifest : Manifest) (target : Target) (mode : Mode) :
    Except Fault (Plan × Journal) := do
  let settings ← (Json.readSettings options).mapError Fault.options
  ofSettings settings manifest target mode

def ofFiles (options : Json) (descriptor table : Manifest.File) (target : Target) (mode : Mode) :
    Except Fault (Plan × Journal) := do
  ofOptions options (← Manifest.ofFiles descriptor table) target mode

variable (p : Plan) (s : Session)

def isDevelopment : Bool := p.mode == .development

def isBarrel (request : String) : Bool :=
  Text.contains p.manifest.barrelRequest.toList request.toList

def prunes : Bool := !p.isDevelopment && s.phase.prunes

def silent {α : Type} (answer : α) : Outcome α := ⟨s, answer, []⟩

def beginPass : Outcome Phase := silent { s with phase := s.phase.begin } s.phase.begin

-- A scan shows that a pass has begun, even if the host did not say so.
def scanWith (find : Record → Finding) : Outcome Nat :=
  if p.isDevelopment then silent s 0
  else
    let begun := { s with phase := s.phase.begin }
    if begun.phase.scans then
      let finding := find begun.record
      ⟨{ begun with record := finding.record }, finding.count, finding.journal⟩
    else silent begun 0

def scanModule (m : SourceModule) : Outcome Nat := p.scanWith s (scan p.manifest m)

def scanModules (ms : List SourceModule) : Outcome Nat := p.scanWith s (scanAll p.manifest ms)

def missingBarrelWarning : Option String :=
  if s.phase = .done && !s.barrelSeen then
    some ("Did not find Quasar module to rewrite. Did you import from \"" ++
      p.manifest.libraryName ++ "\"?")
  else none

def usageEntry : Journal :=
  .info ("Found " ++ toString s.record.components.size ++ " Quasar component(s) and " ++
    toString s.record.directives.size ++ " directive(s) being used")

def queryJournal (before : Phase) (again : Bool) : Journal :=
  if again then usageEntry s
  else if before = .pruning then
    match p.missingBarrelWarning s with
    | some text => .warn text
    | none => []
  else []

def needsAnotherPass : Outcome Bool :=
  if p.isDevelopment then silent s false
  else
    let (phase, again) := s.phase.query
    let asked := { s with phase }
    ⟨asked, again, p.queryJournal asked s.phase again⟩

def emits : Bool := p.isDevelopment || s.phase.emits

def discardAssets (assets : List String) : Outcome (Nat × List String) :=
  if p.emits s then silent s (0, assets)
  else ⟨s, (assets.length, []),
    .debug ("Discarded " ++ toString assets.length ++ " asset(s) from the usage scanning pass")⟩

structure BarrelAnswer where
  source : Except Fault (Option String)
  package : Option Json

def refuse (subject : String) : Journal :=
  .debug ("Not rewriting " ++ subject ++ " in state " ++ s.phase.name)

def expandBarrel (request source : String) (package : Json) : Outcome BarrelAnswer :=
  let components := s.record.components.names
  match Barrel.expand source components s.record.directives.names with
  | .expanded text => ⟨{ s with barrelSeen := true }, ⟨.ok (some text), some package⟩,
      .debug ("Rewrote " ++ request ++ " with " ++ toString components.length ++ " component(s)")⟩
  | .expandedBefore => silent { s with barrelSeen := true } ⟨.ok none, some package⟩
  | .noKey => ⟨s, ⟨.ok none, some package⟩,
      .warn ("Failed to rewrite " ++ request ++
        ": no `\x7b components` object found, all components stay bundled")⟩

-- Lists in the barrel what the application uses. The descriptor comes first: without one the source
-- is not looked at.
def transformBarrel (request source : String) (package : Option Json) : Outcome BarrelAnswer :=
  if !p.isBarrel request then silent s ⟨.ok none, package⟩
  else if !p.prunes s then ⟨s, ⟨.ok none, package⟩, refuse s request⟩
  else
    match Barrel.overrideSideEffects request package p.settings.sideEffects with
    | .error fault => silent s ⟨.error fault, package⟩
    | .ok described => expandBarrel s request source described

def transformWith (subject request source : String) (prune : String → Option String) :
    Outcome (Option String) :=
  if p.isBarrel request then silent s none
  else if !p.prunes s then ⟨s, none, refuse s (subject ++ " of " ++ request)⟩
  else silent s (prune source)

def transformScript (request source : String) : Outcome (Option String) :=
  p.transformWith s "imports" request source
    (Import.split? p.manifest.libraryName p.manifest.internalPath)

def transformTemplate (request source : String) : Outcome (Option String) :=
  p.transformWith s "template" request source p.resolution.replace?

-- Sentinels do not depend on what is used, so they are replaced in every phase.
def substituteSentinels (identifier source : String) : Outcome (Except Fault String) :=
  match Sentinel.substitute p.sentinels identifier source with
  | .ok (text, journal) => ⟨s, .ok text, journal⟩
  | .error fault => silent s (.error fault)

def reset : Outcome Unit :=
  silent { s with record := s.record.clear, phase := .initial, barrelSeen := false } ()

end Plan

end Treeshake
