import Treeshake.Proofs.Build.PhaseCount
import Treeshake.Proofs.Build.Step

namespace Treeshake

open Usage

namespace Operation

-- The operations of the build at hand: those since the last reset.
def current (ops : List Operation) : List Operation := ops.rtakeWhile (!·.isReset)

-- How often the host has asked for another pass in the build at hand.
def queries (ops : List Operation) : Nat := (current ops).countP (·.isQuery)

-- The modules that have been handed over in the build at hand.
def scanned (ops : List Operation) : List SourceModule := (current ops).flatMap (·.modules)

theorem current_concat (ops : List Operation) (op : Operation) :
    current (ops ++ [op]) = if op.isReset then [] else current ops ++ [op] := by
  simp only [current, List.rtakeWhile_concat]
  cases op.isReset <;> rfl

theorem isReset_of_mem_current {ops : List Operation} {op : Operation} (h : op ∈ current ops) :
    op.isReset = false := by
  have hkept := List.mem_rtakeWhile_imp h
  simpa using hkept

theorem eq_reset {op : Operation} (h : op.isReset = true) : op = .reset := by
  cases op <;> first | rfl | cases h

theorem queries_concat (ops : List Operation) (op : Operation) :
    queries (ops ++ [op]) =
      if op.isReset then 0 else queries ops + if op.isQuery then 1 else 0 := by
  unfold queries
  rw [current_concat]
  cases op.isReset <;> simp [List.countP_append, List.countP_singleton]

theorem queries_events (ops : List Operation) :
    Phase.queries (ops.filterMap (·.event?)) = queries ops := by
  induction ops using List.reverseRecOn with
  | nil => rfl
  | append_singleton ops op ih =>
    rw [List.filterMap_append, queries_concat, isReset, isQuery]
    cases hevent : op.event? with
    | none => simp [hevent, ih]
    | some event => cases event <;> simp [hevent, ih, Phase.queries_concat]

end Operation

namespace Plan

open Operation

variable {p : Plan}

theorem sessionAfter_concat (s : Session) (ops : List Operation) (op : Operation) :
    p.sessionAfter s (ops ++ [op]) = (p.perform (p.sessionAfter s ops) op).session := by
  simp [sessionAfter]

theorem sessionAfter_append (s : Session) (before after : List Operation) :
    p.sessionAfter s (before ++ after) = p.sessionAfter (p.sessionAfter s before) after := by
  simp [sessionAfter]

-- What holds at the start and what each of the operations keeps holds after all of them.
theorem sessionAfter_keeps {motive : Session → Prop} {s : Session} {ops : List Operation}
    (hstart : motive s) (hstep : ∀ t, motive t → ∀ op ∈ ops, motive (p.perform t op).session) :
    motive (p.sessionAfter s ops) := by
  induction ops generalizing s with
  | nil => exact hstart
  | cons op rest ih =>
    have hfirst : motive (p.perform s op).session := hstep s hstart op List.mem_cons_self
    exact ih hfirst fun t ht other hother => hstep t ht other (List.mem_cons_of_mem op hother)

-- Nothing from before the last reset is left.
theorem sessionAfter_current (ops : List Operation) :
    p.sessionAfter .initial ops = p.sessionAfter .initial (current ops) := by
  induction ops using List.reverseRecOn with
  | nil => rfl
  | append_singleton ops op ih =>
    rw [sessionAfter_concat, current_concat]
    by_cases hreset : op.isReset = true
    · rw [if_pos hreset, eq_reset hreset]
      rfl
    · rw [if_neg hreset, sessionAfter_concat, ih]

-- The phase of a session takes the steps of the events alone.
theorem phase_sessionAfter (hp : p.mode = .production) (s : Session) (ops : List Operation) :
    (p.sessionAfter s ops).phase = (ops.filterMap (·.event?)).foldl Phase.after s.phase := by
  induction ops using List.reverseRecOn with
  | nil => rfl
  | append_singleton ops op ih =>
    rw [sessionAfter_concat, perform_phase hp, ih, List.filterMap_append, List.foldl_append]
    cases hevent : op.event? <;> simp [hevent]

theorem phase_eq_reached (hp : p.mode = .production) (ops : List Operation) :
    ∃ begins, (p.sessionAfter .initial ops).phase = Phase.reached (queries ops) begins := by
  refine ⟨Phase.begins (ops.filterMap (·.event?)), ?_⟩
  rw [phase_sessionAfter hp, ← queries_events]
  exact Phase.foldl_after _

-- A build that is done stays so until the next reset, and its record with it.
theorem sessionAfter_of_done (hp : p.mode = .production) {s : Session} {ops : List Operation}
    (hdone : s.phase = .done) (hops : ∀ op ∈ ops, op.isReset = false) :
    (p.sessionAfter s ops).phase = .done ∧ (p.sessionAfter s ops).record = s.record := by
  refine sessionAfter_keeps (motive := fun t => t.phase = .done ∧ t.record = s.record)
    ⟨hdone, rfl⟩ fun t ⟨hphase, hrecord⟩ op hop => ?_
  have hreset : op.isReset = false := hops op hop
  rw [perform_phase hp, perform_record hp, hphase, hrecord, hreset]
  refine ⟨?_, by simp [Phase.scans]⟩
  cases hevent : op.event? with
  | none => rfl
  | some event =>
    cases event with
    | begin => rfl
    | query => rfl
    | reset => simp [isReset, hevent] at hreset

-- As long as the build is not done, every module that is handed over counts.
theorem mem_record_sessionAfter (hp : p.mode = .production) {s : Session} {ops : List Operation}
    (hops : ∀ op ∈ ops, op.isReset = false) (hopen : (p.sessionAfter s ops).phase ≠ .done)
    (kind : NameKind) (x : String) :
    x ∈ ((p.sessionAfter s ops).record.of kind).names ↔
      x ∈ (s.record.of kind).names ∨
        ∃ source ∈ ops.flatMap (·.modules), Resolves p.manifest source kind x := by
  induction ops using List.reverseRecOn with
  | nil => simp [sessionAfter]
  | append_singleton ops op ih =>
    rw [sessionAfter_concat] at hopen ⊢
    have hreset : op.isReset = false := hops op (by simp)
    have hbefore : (p.sessionAfter s ops).phase ≠ .done := by
      intro hdone
      have hops' : ∀ other ∈ [op], other.isReset = false := by simpa using hreset
      exact hopen (sessionAfter_of_done hp hdone hops').1
    have hscans : (p.sessionAfter s ops).phase.scans = true := by
      cases hphase : (p.sessionAfter s ops).phase <;> simp_all [Phase.scans]
    have hstep := ih (fun op hop => hops op (List.mem_append_left _ hop)) hbefore
    rw [perform_record hp, hreset, hscans]
    simp only [Bool.false_eq_true, if_false, if_true, mem_scanAll, hstep, List.flatMap_append,
      List.flatMap_singleton, List.mem_append, or_and_right, exists_or, or_assoc]

-- A build of an application for the small library, for examples.
def small : Plan where
  settings := .standard
  manifest := .small
  mode := .production
  sentinels := .ofBuild Library.Manifest.small.version .standard .client
  resolution := (Source.Resolution.ofManifest .small).toOption.getD ⟨.alt [], .alt [], [], ""⟩

end Plan

end Treeshake
