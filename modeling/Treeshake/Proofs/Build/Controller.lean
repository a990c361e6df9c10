import Treeshake.Build.Controller
import Treeshake.Proofs.Build.History

namespace Treeshake

namespace Phase

theorem ofCode_code (p : Phase) : ofCode p.code = p := by
  cases p <;> rfl

theorem ofCode_eq_initial_iff {byte : UInt8} : ofCode byte = .initial ↔ byte = initial.code := by
  constructor
  · intro h
    by_contra hne
    have hbyte : byte ≠ 0 := hne
    rw [ofCode, if_neg hbyte] at h
    split at h
    · cases h
    · split at h <;> cases h
  · rintro rfl
    exact ofCode_code .initial

theorem begin_of_ne_initial {p : Phase} (h : p ≠ .initial) : p.begin = p := by
  cases p <;> first | rfl | exact absurd rfl h

theorem le_refl (p : Phase) : p ≤ p := UInt8.le_refl p.code

theorem le_trans {p q r : Phase} (hpq : p ≤ q) (hqr : q ≤ r) : p ≤ r := UInt8.le_trans hpq hqr

theorem le_after (p : Phase) {event : Event} (h : event ≠ .reset) : p ≤ p.after event := by
  cases event with
  | begin => cases p <;> decide
  | query => cases p <;> decide
  | reset => exact absurd rfl h

theorem le_foldl_after (p : Phase) {events : List Event} (h : .reset ∉ events) :
    p ≤ events.foldl after p := by
  induction events generalizing p with
  | nil => exact le_refl p
  | cons event rest ih =>
    have hevent : event ≠ .reset := fun heq => h (heq ▸ List.mem_cons_self)
    have hrest : .reset ∉ rest := fun hmem => h (List.mem_cons_of_mem event hmem)
    exact le_trans (le_after p hevent) (ih (p.after event) hrest)

end Phase

namespace Controller

open Phase

variable {c : Controller}

theorem phase_eq_initial_iff : c.phase = .initial ↔ c.byte.value = initial.code :=
  ofCode_eq_initial_iff

-- The exchange goes through in a new build only, and then leaves what a pass begins in.
theorem beginPass_eq (c : Controller) :
    c.beginPass = if c.phase = .initial then (.scanning, ⟨⟨scanning.code⟩⟩) else (c.phase, c) := by
  unfold beginPass SharedByte.compareExchange
  by_cases h : c.byte.value = initial.code
  · simp only [h, if_true, phase_eq_initial_iff.mpr h]
    rfl
  · simp only [h, if_false, mt phase_eq_initial_iff.mp h]
    rfl

theorem needsAnotherPass_eq (c : Controller) :
    c.needsAnotherPass = (c.phase.query.2, ⟨⟨c.phase.query.1.code⟩⟩) := rfl

-- What one step tells and leaves is what it tells and leaves of the phase, whatever the byte is.
theorem step_refines (c : Controller) (event : Event) :
    (c.step event).1 = c.phase.reply event ∧ (c.step event).2.phase = c.phase.after event := by
  cases event with
  | begin =>
    simp only [step, beginPass_eq]
    by_cases h : c.phase = .initial
    · rw [if_pos h, h]
      exact ⟨rfl, ofCode_code scanning⟩
    · rw [if_neg h, reply, Phase.after, begin_of_ne_initial h]
      exact ⟨rfl, rfl⟩
  | query =>
    simp only [step, needsAnotherPass_eq]
    exact ⟨rfl, ofCode_code c.phase.query.1⟩
  | reset => exact ⟨rfl, ofCode_code .initial⟩

-- Whatever order the steps of the threads come in, the phase takes the same ones.
theorem phase_after (c : Controller) (events : List Event) :
    (c.after events).phase = events.foldl Phase.after c.phase := by
  induction events generalizing c with
  | nil => rfl
  | cons event rest ih =>
    have hrest : c.after (event :: rest) = (c.step event).2.after rest := rfl
    rw [hrest, ih, (step_refines c event).2, List.foldl_cons]

-- A session, which keeps the phase as a plain value, is in the phase of the shared byte.
theorem phase_eq_session {p : Plan} (hp : p.mode = .production) (ops : List Operation) :
    (new.after (ops.filterMap (·.event?))).phase = (p.sessionAfter .initial ops).phase := by
  rw [phase_after, Plan.phase_sessionAfter hp]
  rfl

theorem phase_after_new (events : List Event) :
    (new.after events).phase = reached (queries events) (begins events) := by
  rw [phase_after, ← foldl_after]
  rfl

-- Where a build stands is told by its queries and its begun passes. Its first query, and no other,
-- is answered with another pass, whatever has begun before or between; a pass that begins is told
-- what it leaves, which is what was there once there has been a query; and no step leads back.
theorem phase_follows_counts (events : List Event) :
    let c := new.after events
    ((c.phase = .done ↔ 2 ≤ queries events) ∧
      (c.phase = .pruning ↔ queries events = 1) ∧
      (c.phase = .scanning ↔ queries events = 0 ∧ 1 ≤ begins events) ∧
      (c.phase = .initial ↔ queries events = 0 ∧ begins events = 0)) ∧
    (c.step .query).1 = .again (queries (events ++ [.query]) = 1) ∧
    (c.step .begin).1 = .phase (c.step .begin).2.phase ∧
    (1 ≤ queries events → (c.step .begin).2 = c) ∧
    ∀ more, .reset ∉ more → c.phase ≤ (c.after more).phase := by
  intro c
  have hphase : c.phase = reached (queries events) (begins events) := phase_after_new events
  refine ⟨?_, ?_, ?_, fun hasked => ?_, fun more hmore => ?_⟩
  · rw [hphase]
    exact ⟨reached_eq_done _ _, reached_eq_pruning _ _, reached_eq_scanning _ _,
      reached_eq_initial _ _⟩
  · rw [(step_refines c .query).1, reply, hphase, query_reached, queries_concat]
  · rw [(step_refines c .begin).1, (step_refines c .begin).2]
    rfl
  · have hbegun : c.phase ≠ .initial := by
      rw [hphase, Ne, reached_eq_initial]
      omega
    rw [step, beginPass_eq, if_neg hbegun]
  · rw [phase_after c more]
    exact le_foldl_after c.phase hmore

-- The second build of a controller: a scan begins after its query, and the next query ends it.
theorem phase_follows_counts_second_build :
    let events : List Event := [.query, .query, .reset, .begin, .query]
    let more : List Event := [.begin, .query]
    1 ≤ queries events ∧ ((new.after events).step .begin).2 = new.after events ∧
    .reset ∉ more ∧ (new.after events).phase ≤ ((new.after events).after more).phase :=
  have hcounts := phase_follows_counts [.query, .query, .reset, .begin, .query]
  ⟨by decide, hcounts.2.2.2.1 (by decide), by decide, hcounts.2.2.2.2 _ (by decide)⟩

end Controller

end Treeshake
