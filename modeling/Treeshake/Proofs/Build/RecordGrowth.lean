import Treeshake.Proofs.Build.Gate

namespace Treeshake

open Library Usage Operation

namespace Operation

def isScan : Operation → Bool
  | .scanModule _ => true
  | .scanModules _ => true
  | _ => false

theorem modules_of_not_scan {op : Operation} (h : op.isScan = false) : op.modules = [] := by
  cases op with
  | scanModule m => cases h
  | scanModules ms => cases h
  | _ => rfl

end Operation

namespace Library.Convention

-- The table has the export under a key that the pattern of the kind recognises. A directive's key
-- has its prefix.
def Lists (c : Convention) : NameKind → String → Prop
  | .component, name => ∃ key, c.exports.lookup key = some name ∧ c.components.isMatch key = true
  | .directive, name => ∃ key, directivePrefix.toList <+: key.toList ∧
      c.exports.lookup key = some name ∧ c.directives.isMatch key = true

theorem lists_of_exportOf? {c : Convention} {kind : NameKind} {value name : String}
    (h : c.exportOf? kind value = some name) : c.Lists kind name := by
  cases kind with
  | component =>
    obtain ⟨hmatch, hname⟩ := Option.ite_none_right_eq_some.mp h
    exact ⟨value, hname, hmatch⟩
  | directive =>
    obtain ⟨hmatch, hname⟩ := Option.ite_none_right_eq_some.mp h
    have hprefix : directivePrefix.toList <+: (directivePrefix ++ value).toList := by
      rw [String.toList_append]
      exact List.prefix_append _ _
    exact ⟨directivePrefix ++ value, hprefix, hname, hmatch⟩

end Library.Convention

-- A literal is recorded under its export and never as it is written.
theorem Usage.lists_of_mem_references {m : Manifest} {tree : Json} {kind : NameKind} {name : String}
    (h : name ∈ references m tree kind) : m.convention.Lists kind name := by
  unfold references at h
  split at h
  · obtain ⟨call, -, hexport⟩ := List.mem_filterMap.mp h
    exact Convention.lists_of_exportOf? hexport
  · cases h

namespace Plan

variable {p : Plan}

theorem names_subset_perform (hp : p.mode = .production) (s : Session) {op : Operation}
    (hop : op.isReset = false) (kind : NameKind) :
    (s.record.of kind).names ⊆ ((p.perform s op).session.record.of kind).names := by
  intro name hname
  rw [perform_record hp, hop]
  cases s.phase.scans with
  | true => exact mem_scanAll.mpr (.inl hname)
  | false => exact hname

theorem names_subset_sessionAfter (hp : p.mode = .production) (s : Session) {ops : List Operation}
    (hops : ∀ op ∈ ops, op.isReset = false) (kind : NameKind) :
    (s.record.of kind).names ⊆ ((p.sessionAfter s ops).record.of kind).names := by
  refine sessionAfter_keeps (motive := fun t => (s.record.of kind).names ⊆ (t.record.of kind).names)
    (List.Subset.refl _) fun t hkept op hop => ?_
  exact List.Subset.trans hkept (names_subset_perform hp t (hops op hop) kind)

theorem record_perform_of_not_scan (hp : p.mode = .production) (s : Session) {op : Operation}
    (hreset : op.isReset = false) (hscan : op.isScan = false) :
    (p.perform s op).session.record = s.record := by
  rw [perform_record hp, hreset, modules_of_not_scan hscan]
  simp [scanAll]

theorem record_sessionAfter_of_not_scan (hp : p.mode = .production) (s : Session)
    {ops : List Operation} (hreset : ∀ op ∈ ops, op.isReset = false)
    (hscan : ∀ op ∈ ops, op.isScan = false) : (p.sessionAfter s ops).record = s.record := by
  refine sessionAfter_keeps (motive := fun t => t.record = s.record) rfl fun t hsame op hop => ?_
  rw [record_perform_of_not_scan hp t (hreset op hop) (hscan op hop), hsame]

theorem lists_perform (hp : p.mode = .production) {s : Session} {kind : NameKind}
    (h : ∀ name ∈ (s.record.of kind).names, p.manifest.convention.Lists kind name)
    (op : Operation) :
    ∀ name ∈ ((p.perform s op).session.record.of kind).names,
      p.manifest.convention.Lists kind name := by
  intro name hname
  rw [perform_record hp] at hname
  split at hname
  · cases kind <;> cases hname
  · split at hname
    · obtain hbefore | ⟨source, -, tree, -, -, hreferred⟩ := mem_scanAll.mp hname
      · exact h name hbefore
      · exact lists_of_mem_references hreferred
    · exact h name hname

theorem lists_sessionAfter (hp : p.mode = .production) (ops : List Operation) (kind : NameKind) :
    ∀ name ∈ ((p.sessionAfter .initial ops).record.of kind).names,
      p.manifest.convention.Lists kind name := by
  refine sessionAfter_keeps (motive := fun t => ∀ name ∈ (t.record.of kind).names,
    p.manifest.convention.Lists kind name) ?_ fun t hlists op _ => lists_perform hp hlists op
  intro name hname
  cases kind <;> cases hname

-- From one reset to the next, no name is lost, none comes but by a scan, and none at all after the
-- second query. Whenever it is, a name in the record is an export of its kind.
theorem record_grows_between_resets (p : Plan) (hp : p.mode = .production)
    (before after : List Operation) (hafter : ∀ op ∈ after, op.isReset = false) :
    let earlier := (p.sessionAfter .initial before).record
    let later := (p.sessionAfter .initial (before ++ after)).record
    (∀ kind, (earlier.of kind).names ⊆ (later.of kind).names) ∧
    ((∀ op ∈ after, op.isScan = false) → later = earlier) ∧
    (2 ≤ queries before → later = earlier) ∧
    (∀ kind, ∀ name ∈ (later.of kind).names, p.manifest.convention.Lists kind name) := by
  intro earlier later
  have hlater : later = (p.sessionAfter (p.sessionAfter .initial before) after).record :=
    congrArg Session.record (sessionAfter_append .initial before after)
  refine ⟨fun kind => ?_, fun hscan => ?_, fun hqueries => ?_,
    lists_sessionAfter hp (before ++ after)⟩
  · rw [hlater]
    exact names_subset_sessionAfter hp _ hafter kind
  · rw [hlater]
    exact record_sessionAfter_of_not_scan hp _ hafter hscan
  · rw [hlater]
    exact (sessionAfter_of_done hp ((phase_eq_done_iff hp before).mpr hqueries) hafter).2

-- A build up to its second query, whose second pass meets a module for the first time, and what may
-- come after it.
def lateBuild : List Operation :=
  [.needsAnotherPass, .beginPass, .scanModules [.small "src/Late.js" "q-card"], .needsAnotherPass]

def afterwards : List Operation :=
  [.scanModule (.small "src/App.js" "q-btn"), .discardAssets ["app.js"], .needsAnotherPass]

theorem lateBuild_uses_card :
    "QCard" ∈ ((small.sessionAfter .initial lateBuild).record.of .component).names := by
  decide +kernel

theorem record_grows_between_resets_late_build :
    small.mode = .production ∧ (∀ op ∈ afterwards, op.isReset = false) ∧ 2 ≤ queries lateBuild ∧
    (small.sessionAfter .initial (lateBuild ++ afterwards)).record =
      (small.sessionAfter .initial lateBuild).record ∧
    small.manifest.convention.Lists .component "QCard" := by
  have hafter : ∀ op ∈ afterwards, op.isReset = false := by decide
  have hqueries : 2 ≤ queries lateBuild := by decide
  obtain ⟨hgrows, -, hfrozen, hlists⟩ :=
    record_grows_between_resets small rfl lateBuild afterwards hafter
  exact ⟨rfl, hafter, hqueries, hfrozen hqueries,
    hlists .component "QCard" (hgrows .component lateBuild_uses_card)⟩

end Plan

end Treeshake
