import Treeshake.Build.Operation
import Treeshake.Proofs.Usage.Contribution

namespace Treeshake

open Usage

namespace Operation

-- What an operation means for the phase. A scan shows that a pass has begun.
def event? : Operation → Option Phase.Event
  | .beginPass => some .begin
  | .scanModule _ => some .begin
  | .scanModules _ => some .begin
  | .needsAnotherPass => some .query
  | .reset => some .reset
  | _ => none

def isQuery (op : Operation) : Bool := op.event? == some .query

def isReset (op : Operation) : Bool := op.event? == some .reset

-- The modules that an operation hands over to be scanned.
def modules : Operation → List SourceModule
  | .scanModule m => [m]
  | .scanModules ms => ms
  | _ => []

end Operation

namespace Plan

variable {p : Plan}

theorem isDevelopment_of_production (hp : p.mode = .production) : p.isDevelopment = false := by
  simp [isDevelopment, hp]

theorem scanWith_session (hp : p.mode = .production) (s : Session) (find : Record → Finding) :
    (p.scanWith s find).session =
      ⟨if s.phase.scans then (find s.record).record else s.record, s.phase.begin, s.barrelSeen⟩ := by
  unfold scanWith
  rw [isDevelopment_of_production hp]
  cases s.phase <;> simp [Phase.begin, Phase.scans, silent]

theorem needsAnotherPass_session (hp : p.mode = .production) (s : Session) :
    (p.needsAnotherPass s).session = { s with phase := s.phase.query.1 } := by
  simp [needsAnotherPass, isDevelopment_of_production hp]

theorem discardAssets_session (s : Session) (assets : List String) :
    (p.discardAssets s assets).session = s := by
  unfold discardAssets
  split <;> rfl

theorem substituteSentinels_session (s : Session) (identifier source : String) :
    (p.substituteSentinels s identifier source).session = s := by
  unfold substituteSentinels
  split <;> rfl

theorem transformWith_session (s : Session) (subject request source : String)
    (prune : String → Option String) :
    (p.transformWith s subject request source prune).session = s := by
  unfold transformWith
  split
  · rfl
  · split <;> rfl

-- The barrel touches nothing but the note that it has been seen.
theorem transformBarrel_session (s : Session) (request source : String) (package : Option Json) :
    ∃ seen, (p.transformBarrel s request source package).session = { s with barrelSeen := seen } := by
  unfold transformBarrel
  split
  · exact ⟨s.barrelSeen, rfl⟩
  split
  · exact ⟨s.barrelSeen, rfl⟩
  split
  · exact ⟨s.barrelSeen, rfl⟩
  · simp only [expandBarrel]
    split
    · exact ⟨true, rfl⟩
    · exact ⟨true, rfl⟩
    · exact ⟨s.barrelSeen, rfl⟩

-- All that an operation can do to a session. The phase follows the event, only scans and resets
-- touch the record, and a scan does so only before the build is done.
theorem perform_session (hp : p.mode = .production) (s : Session) (op : Operation) :
    ∃ seen, (p.perform s op).session =
      ⟨if op.isReset then .empty
        else if s.phase.scans then (scanAll p.manifest op.modules s.record).record
        else s.record,
       op.event?.elim s.phase s.phase.after, seen⟩ := by
  -- an operation that hands over no modules leaves the record alone
  have hkept (hreset : op.isReset = false) (hmodules : op.modules = []) :
      (if op.isReset then Record.empty
        else if s.phase.scans then (scanAll p.manifest op.modules s.record).record
        else s.record) = s.record := by
    simp [hreset, hmodules, scanAll]
  cases op with
  | scanModule m => exact ⟨_, scanWith_session hp s _⟩
  | scanModules ms => exact ⟨_, scanWith_session hp s _⟩
  | reset => exact ⟨_, rfl⟩
  | needsAnotherPass =>
    rw [hkept rfl rfl]
    exact ⟨_, needsAnotherPass_session hp s⟩
  | discardAssets assets =>
    rw [hkept rfl rfl]
    exact ⟨_, discardAssets_session s assets⟩
  | transformBarrel request source package =>
    rw [hkept rfl rfl]
    exact transformBarrel_session s request source package
  | transformScript request source =>
    rw [hkept rfl rfl]
    exact ⟨_, transformWith_session s _ request source _⟩
  | transformTemplate request source =>
    rw [hkept rfl rfl]
    exact ⟨_, transformWith_session s _ request source _⟩
  | substituteSentinels identifier source =>
    rw [hkept rfl rfl]
    exact ⟨_, substituteSentinels_session s identifier source⟩
  | beginPass =>
    rw [hkept rfl rfl]
    exact ⟨_, rfl⟩
  | shouldEmit =>
    rw [hkept rfl rfl]
    exact ⟨_, rfl⟩
  | isBarrel request =>
    rw [hkept rfl rfl]
    exact ⟨_, rfl⟩
  | missingBarrelWarning =>
    rw [hkept rfl rfl]
    exact ⟨_, rfl⟩

theorem perform_phase (hp : p.mode = .production) (s : Session) (op : Operation) :
    (p.perform s op).session.phase = op.event?.elim s.phase s.phase.after := by
  obtain ⟨seen, h⟩ := perform_session hp s op
  rw [h]

theorem perform_record (hp : p.mode = .production) (s : Session) (op : Operation) :
    (p.perform s op).session.record =
      if op.isReset then .empty
      else if s.phase.scans then (scanAll p.manifest op.modules s.record).record
      else s.record := by
  obtain ⟨seen, h⟩ := perform_session hp s op
  rw [h]

end Plan

end Treeshake
