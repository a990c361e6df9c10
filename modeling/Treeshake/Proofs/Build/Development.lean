import Treeshake.Proofs.Build.BarrelLists
import Treeshake.Proofs.Build.Reset

namespace Treeshake

-- Nothing is recorded, and no query has been counted.
structure Session.Idle (s : Session) : Prop where
  record : s.record = .empty
  phase : s.phase = .initial ∨ s.phase = .scanning

theorem Session.idle_initial : Session.initial.Idle := ⟨rfl, .inl rfl⟩

theorem Session.Idle.begin {s : Session} (h : s.Idle) : { s with phase := s.phase.begin }.Idle := by
  refine ⟨h.record, .inr ?_⟩
  obtain hphase | hphase := h.phase
  · rw [hphase]
    rfl
  · rw [hphase]
    rfl

namespace Plan

variable {p : Plan}

theorem isDevelopment_of_development (hp : p.mode = .development) : p.isDevelopment = true := by
  simp [isDevelopment, hp]

theorem prunes_of_development (hp : p.mode = .development) (s : Session) : p.prunes s = false := by
  simp [prunes, isDevelopment_of_development hp]

theorem emits_of_development (hp : p.mode = .development) (s : Session) : p.emits s = true := by
  simp [emits, isDevelopment_of_development hp]

theorem scanWith_keeps_of_development (hp : p.mode = .development) (s : Session)
    (find : Usage.Record → Usage.Finding) : (p.scanWith s find).Keeps s 0 := by
  simp [scanWith, isDevelopment_of_development hp, silent, Outcome.Keeps]

theorem needsAnotherPass_keeps_of_development (hp : p.mode = .development) (s : Session) :
    (p.needsAnotherPass s).Keeps s false := by
  simp [needsAnotherPass, isDevelopment_of_development hp, silent, Outcome.Keeps]

theorem discardAssets_keeps_of_development (hp : p.mode = .development) (s : Session)
    (assets : List String) : (p.discardAssets s assets).Keeps s (0, assets) := by
  simpa [emits_of_development hp s] using discardAssets_keeps (p := p) s assets

-- The begin of a pass and a reset are the only operations with an effect.
theorem perform_session_of_development (hp : p.mode = .development) (s : Session) (op : Operation) :
    (p.perform s op).session = match op with
      | .beginPass => { s with phase := s.phase.begin }
      | .reset => .initial
      | _ => s := by
  have hprunes : p.prunes s = false := prunes_of_development hp s
  cases op with
  | beginPass => rfl
  | scanModule m => exact (scanWith_keeps_of_development hp s _).1
  | scanModules ms => exact (scanWith_keeps_of_development hp s _).1
  | needsAnotherPass => exact (needsAnotherPass_keeps_of_development hp s).1
  | shouldEmit => rfl
  | discardAssets assets => exact discardAssets_session s assets
  | isBarrel request => rfl
  | transformBarrel request source package =>
    exact (transformBarrel_keeps hprunes request source package).1
  | transformScript request source => exact transformWith_session s _ request source _
  | transformTemplate request source => exact transformWith_session s _ request source _
  | substituteSentinels identifier source => exact substituteSentinels_session s identifier source
  | missingBarrelWarning => rfl
  | reset => exact reset_session s

theorem perform_idle (hp : p.mode = .development) {s : Session} (h : s.Idle) (op : Operation) :
    (p.perform s op).session.Idle := by
  rw [perform_session_of_development hp]
  cases op with
  | beginPass => exact h.begin
  | reset => exact Session.idle_initial
  | _ => exact h

theorem sessionAfter_idle (hp : p.mode = .development) (ops : List Operation) :
    (p.sessionAfter .initial ops).Idle :=
  sessionAfter_keeps Session.idle_initial fun _ hidle op _ => perform_idle hp hidle op

-- Whatever a host does in development, nothing is recorded, no pass is asked for or held back, and
-- no source and no descriptor changes.
theorem development_is_inert (p : Plan) (hp : p.mode = .development) (ops : List Operation) :
    let s := p.sessionAfter .initial ops
    s.record = .empty ∧ s.phase ≠ .pruning ∧ s.phase ≠ .done ∧
    (∀ m, (p.scanModule s m).Keeps s 0) ∧
    (∀ ms, (p.scanModules s ms).Keeps s 0) ∧
    (p.needsAnotherPass s).Keeps s false ∧
    p.emits s = true ∧
    (∀ assets, (p.discardAssets s assets).Keeps s (0, assets)) ∧
    (∀ request source package,
      (p.transformBarrel s request source package).Keeps s ⟨.ok none, package⟩) ∧
    (∀ request source, (p.transformScript s request source).Keeps s none) ∧
    (∀ request source, (p.transformTemplate s request source).Keeps s none) ∧
    p.missingBarrelWarning s = none := by
  intro s
  have hidle : s.Idle := sessionAfter_idle hp ops
  have hprunes : p.prunes s = false := prunes_of_development hp s
  have hpruning : s.phase ≠ .pruning := by
    obtain hphase | hphase := hidle.phase <;> simp [hphase]
  have hdone : s.phase ≠ .done := by
    obtain hphase | hphase := hidle.phase <;> simp [hphase]
  refine ⟨hidle.record, hpruning, hdone, fun m => scanWith_keeps_of_development hp s _,
    fun ms => scanWith_keeps_of_development hp s _, needsAnotherPass_keeps_of_development hp s,
    emits_of_development hp s, discardAssets_keeps_of_development hp s,
    transformBarrel_keeps hprunes, fun request source => transformWith_keeps hprunes _ _ _ _,
    fun request source => transformWith_keeps hprunes _ _ _ _, ?_⟩
  simp [missingBarrelWarning, hdone]

def smallDevelopment : Plan := { small with mode := .development }

-- A module that uses a component, two queries, and a barrel without a descriptor between them.
def busyBuild : List Operation :=
  [.scanModule (.small "src/App.js" "q-btn"), .beginPass, .needsAnotherPass,
    .transformBarrel barrelRequest barrelSource none, .needsAnotherPass]

theorem development_is_inert_busy_build :
    let s := smallDevelopment.sessionAfter .initial busyBuild
    smallDevelopment.mode = .development ∧ s.record = .empty ∧ s.phase ≠ .done ∧
    (smallDevelopment.transformBarrel s barrelRequest barrelSource none).Keeps s ⟨.ok none, none⟩ ∧
    smallDevelopment.missingBarrelWarning s = none := by
  intro s
  obtain ⟨hrecord, -, hdone, -, -, -, -, -, hbarrel, -, -, hwarning⟩ :=
    development_is_inert smallDevelopment rfl busyBuild
  exact ⟨rfl, hrecord, hdone, hbarrel barrelRequest barrelSource none, hwarning⟩

end Plan

end Treeshake
