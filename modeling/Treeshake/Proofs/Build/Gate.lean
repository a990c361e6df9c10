import Treeshake.Proofs.Build.History

namespace Treeshake

open Usage Operation

-- An operation gives the answer and leaves the session as it was.
def Outcome.Keeps {α : Type} (o : Outcome α) (s : Session) (answer : α) : Prop :=
  o.session = s ∧ o.answer = answer

namespace Plan

variable {p : Plan}

theorem isBarrel_iff_infix {request : String} :
    p.isBarrel request = true ↔ p.manifest.barrelRequest.toList <:+: request.toList :=
  Text.contains_iff_infix

theorem prunes_eq_true_iff {s : Session} :
    p.prunes s = true ↔ p.mode = .production ∧ s.phase = .pruning := by
  unfold prunes isDevelopment
  cases p.mode <;> cases s.phase <;> simp [Phase.prunes]

theorem phase_eq_pruning_iff (hp : p.mode = .production) (ops : List Operation) :
    (p.sessionAfter .initial ops).phase = .pruning ↔ queries ops = 1 := by
  obtain ⟨begins, hphase⟩ := phase_eq_reached hp ops
  rw [hphase]
  exact Phase.reached_eq_pruning (queries ops) begins

theorem prunes_iff (hp : p.mode = .production) (ops : List Operation) :
    p.prunes (p.sessionAfter .initial ops) = true ↔ queries ops = 1 := by
  rw [prunes_eq_true_iff, phase_eq_pruning_iff hp]
  exact and_iff_right hp

theorem emits_eq_false_iff (hp : p.mode = .production) (ops : List Operation) :
    p.emits (p.sessionAfter .initial ops) = false ↔ queries ops = 0 := by
  obtain ⟨begins, hphase⟩ := phase_eq_reached hp ops
  rw [emits, isDevelopment_of_production hp, hphase]
  simpa using Phase.emits_reached (queries ops) begins

theorem phase_eq_done_iff (hp : p.mode = .production) (ops : List Operation) :
    (p.sessionAfter .initial ops).phase = .done ↔ 2 ≤ queries ops := by
  obtain ⟨begins, hphase⟩ := phase_eq_reached hp ops
  rw [hphase]
  exact Phase.reached_eq_done (queries ops) begins

theorem transformBarrel_keeps {s : Session} (h : p.prunes s = false) (request source : String)
    (package : Option Json) :
    (p.transformBarrel s request source package).Keeps s ⟨.ok none, package⟩ := by
  unfold transformBarrel
  split
  · exact ⟨rfl, rfl⟩
  · simp [h, Outcome.Keeps]

theorem transformWith_keeps {s : Session} (h : p.prunes s = false)
    (subject request source : String) (prune : String → Option String) :
    (p.transformWith s subject request source prune).Keeps s none := by
  unfold transformWith
  split
  · exact ⟨rfl, rfl⟩
  · simp [h, Outcome.Keeps]

-- The imports of the barrel itself are never pruned.
theorem transformWith_barrel {request : String} (h : p.isBarrel request = true) (s : Session)
    (subject source : String) (prune : String → Option String) :
    (p.transformWith s subject request source prune).answer = none := by
  simp [transformWith, h, silent]

theorem discardAssets_keeps (s : Session) (assets : List String) :
    (p.discardAssets s assets).Keeps s
      (if p.emits s = false then (assets.length, []) else (0, assets)) := by
  unfold discardAssets
  cases h : p.emits s <;> exact ⟨rfl, rfl⟩

theorem scanWith_keeps (hp : p.mode = .production) {s : Session} (h : s.phase = .done)
    (find : Record → Finding) : (p.scanWith s find).Keeps s 0 := by
  obtain ⟨record, phase, seen⟩ := s
  subst h
  simp [scanWith, isDevelopment_of_production hp, Phase.begin, Phase.scans, silent, Outcome.Keeps]

theorem substituteSentinels_answer (s t : Session) (identifier source : String) :
    (p.substituteSentinels s identifier source).answer =
      (p.substituteSentinels t identifier source).answer := by
  unfold substituteSentinels
  split <;> rfl

-- Sources are pruned after one query only, output leaves the build after the first, and after the
-- second nothing is recorded any more. The barrel's imports and the sentinels need no query.
theorem gates_follow_queries (p : Plan) (hp : p.mode = .production) (ops : List Operation) :
    let s := p.sessionAfter .initial ops
    (queries ops ≠ 1 →
      (∀ request source package,
        (p.transformBarrel s request source package).Keeps s ⟨.ok none, package⟩) ∧
      (∀ request source, (p.transformScript s request source).Keeps s none) ∧
      (∀ request source, (p.transformTemplate s request source).Keeps s none)) ∧
    (p.emits s = false ↔ queries ops = 0) ∧
    (∀ assets, (p.discardAssets s assets).Keeps s
      (if queries ops = 0 then (assets.length, []) else (0, assets))) ∧
    (2 ≤ queries ops →
      (∀ m, (p.scanModule s m).Keeps s 0) ∧ (∀ ms, (p.scanModules s ms).Keeps s 0)) ∧
    (∀ t request source, p.manifest.barrelRequest.toList <:+: request.toList →
      (p.transformScript t request source).answer = none ∧
      (p.transformTemplate t request source).answer = none) ∧
    (∀ others identifier source,
      (p.substituteSentinels s identifier source).answer =
        (p.substituteSentinels (p.sessionAfter .initial others) identifier source).answer) := by
  intro s
  have hemits : p.emits s = false ↔ queries ops = 0 := emits_eq_false_iff hp ops
  refine ⟨fun hq => ?_, hemits, fun assets => ?_, fun hq => ?_, fun t request source hbarrel => ?_,
    fun others identifier source => substituteSentinels_answer _ _ identifier source⟩
  · have hprunes : p.prunes s = false := by
      rw [Bool.eq_false_iff]
      exact fun h => hq ((prunes_iff hp ops).mp h)
    exact ⟨transformBarrel_keeps hprunes, fun request source => transformWith_keeps hprunes _ _ _ _,
      fun request source => transformWith_keeps hprunes _ _ _ _⟩
  · simpa only [hemits] using discardAssets_keeps (p := p) s assets
  · have hdone : s.phase = .done := (phase_eq_done_iff hp ops).mpr hq
    exact ⟨fun m => scanWith_keeps hp hdone _, fun ms => scanWith_keeps hp hdone _⟩
  · have hrequest := isBarrel_iff_infix.mpr hbarrel
    exact ⟨transformWith_barrel hrequest t _ _ _, transformWith_barrel hrequest t _ _ _⟩

-- A module that is met only after the second query is not looked at.
theorem gates_follow_queries_late_module :
    small.mode = .production ∧
    (small.scanModule (small.sessionAfter .initial [.needsAnotherPass, .reset, .needsAnotherPass,
        .beginPass, .needsAnotherPass]) (.small "src/Late.js" "q-btn")).answer = 0 ∧
    (small.discardAssets (small.sessionAfter .initial [.needsAnotherPass, .reset]) ["app.js"]).answer
      = (1, []) :=
  ⟨rfl, (((gates_follow_queries small rfl _).2.2.2.1 (by decide)).1 _).2,
    ((gates_follow_queries small rfl _).2.2.1 _).2⟩

end Plan

end Treeshake
