import Treeshake.Proofs.Build.BarrelFrame
import Treeshake.Proofs.Build.Reset

namespace Treeshake

open Usage Operation Source.Barrel

-- What is said of a build that ends without its barrel.
def missingBarrelEntry (m : Library.Manifest) : Entry :=
  ⟨.warn, "Did not find Quasar module to rewrite. Did you import from \"" ++ m.libraryName ++ "\"?"⟩

-- What is said in passing is no warning, and other warnings begin in other words.
theorem missing_not_mem_trace (m : Library.Manifest) (text : String) :
    missingBarrelEntry m ∉ Journal.trace text := by
  simp [Journal.trace, missingBarrelEntry]

theorem missing_not_mem_debug (m : Library.Manifest) (text : String) :
    missingBarrelEntry m ∉ Journal.debug text := by
  simp [Journal.debug, missingBarrelEntry]

theorem missing_not_mem_warn (m : Library.Manifest) {text : String}
    (h : text.toList.head? ≠ some 'D') : missingBarrelEntry m ∉ Journal.warn text := by
  intro hmem
  have hentry : missingBarrelEntry m = ⟨.warn, text⟩ := List.mem_singleton.mp hmem
  have htext : (missingBarrelEntry m).text = text := congrArg Entry.text hentry
  apply h
  rw [← htext]
  simp [missingBarrelEntry]

theorem missing_not_mem_scan (n m : Library.Manifest) (source : SourceModule)
    (r : Record) : missingBarrelEntry n ∉ (scan m source r).journal := by
  unfold scan
  split
  · exact List.not_mem_nil
  split
  · exact List.not_mem_nil
  · intro hmem
    obtain htree | hcount := List.mem_append.mp hmem
    · exact missing_not_mem_trace n _ htree
    · unfold countEntry at hcount
      split at hcount
      · exact List.not_mem_nil hcount
      · exact missing_not_mem_debug n _ hcount

theorem missing_not_mem_scanAll (n m : Library.Manifest) (sources : List SourceModule)
    (r : Record) : missingBarrelEntry n ∉ (scanAll m sources r).journal := by
  induction sources generalizing r with
  | nil => exact List.not_mem_nil
  | cons source rest ih =>
    intro hmem
    obtain hfirst | hothers := List.mem_append.mp hmem
    · exact missing_not_mem_scan n m source r hfirst
    · exact ih _ hothers

theorem missing_not_mem_spliceFrom (m : Library.Manifest) (rest : List Char)
    (cursor : Nat) (edits : List Source.Edit) :
    missingBarrelEntry m ∉ (Source.Edit.spliceFrom rest cursor edits).2 := by
  induction edits generalizing rest cursor with
  | nil => exact List.not_mem_nil
  | cons edit edits ih =>
    unfold Source.Edit.spliceFrom
    split
    · exact ih _ _
    · intro hmem
      obtain hskipped | hothers := List.mem_append.mp hmem
      · exact missing_not_mem_warn m (by simp) hskipped
      · exact ih _ _ hothers

namespace Plan

-- A call shows the barrel: it has a descriptor, and its source has the key, expanded or not.
def ShowsBarrel (p : Plan) (op : Operation) : Prop :=
  ∃ request source fields, op = .transformBarrel request source (some (.object fields)) ∧
    p.manifest.barrelRequest.toList <:+: request.toList ∧ HasKey source.toList

-- One of the calls between the first query of the build at hand and the second shows the barrel.
def BarrelShown (p : Plan) (ops : List Operation) : Prop :=
  ∃ before call after, ops = before ++ call :: after ∧ queries before = 1 ∧
    (∀ op ∈ after, op.isReset = false) ∧ p.ShowsBarrel call

variable {p : Plan}

theorem not_barrelShown_nil : ¬p.BarrelShown [] := by
  rintro ⟨before, call, after, hops, -⟩
  simp at hops

theorem barrelShown_concat {ops : List Operation} {op : Operation} :
    p.BarrelShown (ops ++ [op]) ↔
      p.BarrelShown ops ∧ op.isReset = false ∨ queries ops = 1 ∧ p.ShowsBarrel op := by
  constructor
  · rintro ⟨before, call, after, hops, hqueries, hafter, hshows⟩
    cases after using List.reverseRecOn with
    | nil =>
      obtain ⟨rfl, hop⟩ := List.append_inj' hops rfl
      cases hop
      exact .inr ⟨hqueries, hshows⟩
    | append_singleton after last =>
      have hsplit : ops ++ [op] = (before ++ call :: after) ++ [last] := by simpa using hops
      obtain ⟨rfl, hop⟩ := List.append_inj' hsplit rfl
      cases hop
      exact .inl ⟨⟨before, call, after, rfl, hqueries,
        fun other hother => hafter other (List.mem_append_left _ hother), hshows⟩,
        hafter op (by simp)⟩
  · rintro (⟨⟨before, call, after, rfl, hqueries, hafter, hshows⟩, hop⟩ | ⟨hqueries, hshows⟩)
    · refine ⟨before, call, after ++ [op], by simp, hqueries, fun other hother => ?_, hshows⟩
      obtain hmem | hmem := List.mem_append.mp hother
      · exact hafter other hmem
      · rw [List.mem_singleton.mp hmem]
        exact hop
    · exact ⟨ops, op, [], rfl, hqueries, List.forall_mem_nil _, hshows⟩

theorem showsBarrel_transformBarrel {request source : String} {package : Option Json} :
    p.ShowsBarrel (.transformBarrel request source package) ↔
      p.manifest.barrelRequest.toList <:+: request.toList ∧
        (∃ fields, package = some (.object fields)) ∧ HasKey source.toList := by
  constructor
  · rintro ⟨_, _, fields, hop, hrequest, hkey⟩
    cases hop
    exact ⟨hrequest, ⟨fields, rfl⟩, hkey⟩
  · rintro ⟨hrequest, ⟨fields, rfl⟩, hkey⟩
    exact ⟨request, source, fields, rfl, hrequest, hkey⟩

theorem barrelSeen_of_other (hp : p.mode = .production) (s : Session) {op : Operation}
    (hreset : op.isReset = false)
    (hbarrel : ∀ request source package, op ≠ .transformBarrel request source package) :
    (p.perform s op).session.barrelSeen = s.barrelSeen := by
  cases op with
  | transformBarrel request source package => exact absurd rfl (hbarrel request source package)
  | reset => cases hreset
  | scanModule m =>
    change (p.scanWith s _).session.barrelSeen = s.barrelSeen
    rw [scanWith_session hp]
  | scanModules ms =>
    change (p.scanWith s _).session.barrelSeen = s.barrelSeen
    rw [scanWith_session hp]
  | needsAnotherPass =>
    change (p.needsAnotherPass s).session.barrelSeen = s.barrelSeen
    rw [needsAnotherPass_session hp]
  | discardAssets assets =>
    exact congrArg Session.barrelSeen (discardAssets_session s assets)
  | transformScript request source =>
    exact congrArg Session.barrelSeen (transformWith_session s _ request source _)
  | transformTemplate request source =>
    exact congrArg Session.barrelSeen (transformWith_session s _ request source _)
  | substituteSentinels identifier source =>
    exact congrArg Session.barrelSeen (substituteSentinels_session s identifier source)
  | beginPass => rfl
  | shouldEmit => rfl
  | isBarrel request => rfl
  | missingBarrelWarning => rfl

-- The note is made by a call that shows the barrel while sources are pruned, and goes with a reset.
theorem perform_barrelSeen (hp : p.mode = .production) (s : Session) (op : Operation) :
    (p.perform s op).session.barrelSeen = true ↔
      s.barrelSeen = true ∧ op.isReset = false ∨ s.phase = .pruning ∧ p.ShowsBarrel op := by
  by_cases hbarrel : ∃ request source package, op = .transformBarrel request source package
  · obtain ⟨request, source, package, rfl⟩ := hbarrel
    have hseen : (p.perform s (.transformBarrel request source package)).session.barrelSeen = true ↔
        s.barrelSeen = true ∨ p.OpensBarrel s request ∧
          (∃ fields, package = some (.object fields)) ∧ HasKey source.toList :=
      transformBarrel_barrelSeen
    have hreset : (Operation.transformBarrel request source package).isReset = false := rfl
    rw [hseen, showsBarrel_transformBarrel]
    simp [OpensBarrel, hp, hreset, and_assoc]
  · have hshows : ¬p.ShowsBarrel op := by
      rintro ⟨request, source, fields, hop, -⟩
      exact hbarrel ⟨request, source, _, hop⟩
    by_cases hreset : op.isReset = true
    · obtain rfl := eq_reset hreset
      rw [reset_session]
      simp [Session.initial, hshows, hreset]
    · have hkept := barrelSeen_of_other hp s (by simpa using hreset)
        fun request source package hop => hbarrel ⟨request, source, package, hop⟩
      simp [hkept, hshows, hreset]

theorem barrelSeen_sessionAfter (hp : p.mode = .production) (ops : List Operation) :
    (p.sessionAfter .initial ops).barrelSeen = true ↔ p.BarrelShown ops := by
  induction ops using List.reverseRecOn with
  | nil =>
    constructor
    · intro h
      cases h
    · intro h
      exact absurd h not_barrelShown_nil
  | append_singleton ops op ih =>
    rw [sessionAfter_concat, perform_barrelSeen hp, barrelShown_concat, ih,
      phase_eq_pruning_iff hp]

theorem missingBarrelWarning_isSome_iff {s : Session} :
    (p.missingBarrelWarning s).isSome = true ↔ s.phase = .done ∧ s.barrelSeen = false := by
  unfold missingBarrelWarning
  split
  · next h => simpa using h
  · next h => simpa using h

theorem missingBarrelWarning_eq_some {s : Session} {text : String}
    (h : p.missingBarrelWarning s = some text) : missingBarrelEntry p.manifest = ⟨.warn, text⟩ := by
  obtain ⟨-, htext⟩ := Option.ite_none_right_eq_some.mp h
  rw [← Option.some.inj htext, missingBarrelEntry]

theorem missing_not_mem_scanWith {s : Session} {find : Record → Finding}
    (h : ∀ r, missingBarrelEntry p.manifest ∉ (find r).journal) :
    missingBarrelEntry p.manifest ∉ (p.scanWith s find).journal := by
  unfold scanWith
  split
  · exact List.not_mem_nil
  · dsimp only
    split
    · exact h _
    · exact List.not_mem_nil

theorem missing_not_mem_discardAssets (s : Session) (assets : List String) :
    missingBarrelEntry p.manifest ∉ (p.discardAssets s assets).journal := by
  unfold discardAssets
  split
  · exact List.not_mem_nil
  · exact missing_not_mem_debug p.manifest _

theorem missing_not_mem_transformBarrel (s : Session) (request source : String)
    (package : Option Json) :
    missingBarrelEntry p.manifest ∉ (p.transformBarrel s request source package).journal := by
  unfold transformBarrel
  split
  · exact List.not_mem_nil
  split
  · exact missing_not_mem_debug p.manifest _
  split
  · exact List.not_mem_nil
  · unfold expandBarrel
    dsimp only
    split
    · exact missing_not_mem_debug p.manifest _
    · exact List.not_mem_nil
    · exact missing_not_mem_warn p.manifest (by simp)

theorem missing_not_mem_transformWith (s : Session) (subject request source : String)
    (prune : String → Option String) :
    missingBarrelEntry p.manifest ∉ (p.transformWith s subject request source prune).journal := by
  unfold transformWith
  split
  · exact List.not_mem_nil
  split
  · exact missing_not_mem_debug p.manifest _
  · exact List.not_mem_nil

theorem missing_not_mem_substituteSentinels (s : Session) (identifier source : String) :
    missingBarrelEntry p.manifest ∉ (p.substituteSentinels s identifier source).journal := by
  unfold substituteSentinels Sentinel.substitute
  cases Sentinel.collect p.sentinels identifier source with
  | error fault => exact List.not_mem_nil
  | ok edits => exact missing_not_mem_spliceFrom p.manifest _ _ _

-- Only a query can say that the barrel is missing.
theorem missing_not_mem_of_other {s : Session} {op : Operation}
    (hquery : op.isQuery = false) : missingBarrelEntry p.manifest ∉ (p.perform s op).journal := by
  cases op with
  | needsAnotherPass => cases hquery
  | scanModule m =>
    exact missing_not_mem_scanWith (missing_not_mem_scan _ _ m)
  | scanModules ms =>
    exact missing_not_mem_scanWith (missing_not_mem_scanAll _ _ ms)
  | discardAssets assets => exact missing_not_mem_discardAssets s assets
  | transformBarrel request source package =>
    exact missing_not_mem_transformBarrel s request source package
  | transformScript request source =>
    exact missing_not_mem_transformWith s _ request source _
  | transformTemplate request source =>
    exact missing_not_mem_transformWith s _ request source _
  | substituteSentinels identifier source =>
    exact missing_not_mem_substituteSentinels s identifier source
  | beginPass => exact List.not_mem_nil
  | shouldEmit => exact List.not_mem_nil
  | isBarrel request => exact List.not_mem_nil
  | missingBarrelWarning => exact List.not_mem_nil
  | reset => exact List.not_mem_nil

-- The second query says so, once, if no call has made the note.
theorem count_perform_journal (hp : p.mode = .production) (s : Session) (op : Operation) :
    (p.perform s op).journal.count (missingBarrelEntry p.manifest) =
      if op.isQuery = true ∧ s.phase = .pruning ∧ s.barrelSeen = false then 1 else 0 := by
  by_cases hquery : op.isQuery = true
  · have hop : op = .needsAnotherPass := by cases op <;> first | rfl | cases hquery
    subst hop
    obtain ⟨record, phase, seen⟩ := s
    have hjournal : (p.perform ⟨record, phase, seen⟩ .needsAnotherPass).journal =
        p.queryJournal ⟨record, phase.query.1, seen⟩ phase phase.query.2 := by
      simp [perform, Outcome.map, needsAnotherPass, isDevelopment_of_production hp]
    rw [hjournal]
    cases phase with
    | initial => simp [queryJournal, Phase.query, usageEntry, Journal.info, missingBarrelEntry]
    | scanning => simp [queryJournal, Phase.query, usageEntry, Journal.info, missingBarrelEntry]
    | pruning =>
      cases seen with
      | true => simp [queryJournal, Phase.query, missingBarrelWarning]
      | false =>
        simp [queryJournal, Phase.query, missingBarrelWarning, Journal.warn, missingBarrelEntry,
          hquery]
    | done => simp [queryJournal, Phase.query]
  · rw [List.count_eq_zero_of_not_mem (missing_not_mem_of_other (by simpa using hquery))]
    simp [hquery]

theorem missing_mem_perform_iff (hp : p.mode = .production) (s : Session) (op : Operation) :
    missingBarrelEntry p.manifest ∈ (p.perform s op).journal ↔
      op.isQuery = true ∧ s.phase = .pruning ∧ s.barrelSeen = false := by
  rw [← List.count_pos_iff, count_perform_journal hp]
  split
  · next h => simpa using h
  · next h => simpa using h

-- The query that says so ends the build, and a build that is done says it no more.
theorem count_run_journal_le (hp : p.mode = .production) (s : Session) {ops : List Operation}
    (hops : ∀ op ∈ ops, op.isReset = false) :
    ((p.run s ops).flatMap (·.journal)).count (missingBarrelEntry p.manifest) ≤
      if s.phase = .done then 0 else 1 := by
  induction ops generalizing s with
  | nil => simp [run]
  | cons op rest ih =>
    have hop : op.isReset = false := hops op List.mem_cons_self
    have hrest := ih (p.perform s op).session fun other hother =>
      hops other (List.mem_cons_of_mem op hother)
    rw [run, List.flatMap_cons, List.count_append, count_perform_journal hp]
    by_cases htells : op.isQuery = true ∧ s.phase = .pruning ∧ s.barrelSeen = false
    · have hpruning : s.phase = .pruning := htells.2.1
      have hevent : op.event? = some .query := by simpa [isQuery] using htells.1
      have hdone : (p.perform s op).session.phase = .done := by
        rw [perform_phase hp, hevent, hpruning]
        rfl
      have hopen : s.phase ≠ .done := by simp [hpruning]
      rw [if_pos hdone] at hrest
      rw [if_pos htells, if_neg hopen]
      omega
    · rw [if_neg htells, Nat.zero_add]
      refine hrest.trans ?_
      by_cases hdone : s.phase = .done
      · have hstays : (p.perform s op).session.phase = .done :=
          (sessionAfter_of_done hp hdone (List.forall_mem_singleton.mpr hop)).1
        rw [if_pos hdone, if_pos hstays]
      · rw [if_neg hdone]
        split <;> omega

-- A build that is done warns if no call between its first query and its second has shown the
-- barrel. The second query says so, and nothing else does before the next reset.
theorem warning_tells_missing_barrel (p : Plan) (hp : p.mode = .production)
    (ops : List Operation) :
    let s := p.sessionAfter .initial ops
    ((p.missingBarrelWarning s).isSome = true ↔ 2 ≤ queries ops ∧ ¬p.BarrelShown ops) ∧
    (∀ text, p.missingBarrelWarning s = some text →
      missingBarrelEntry p.manifest = ⟨.warn, text⟩) ∧
    (∀ op, missingBarrelEntry p.manifest ∈ (p.perform s op).journal ↔
      op.isQuery = true ∧ queries ops = 1 ∧ ¬p.BarrelShown ops) ∧
    (∀ build, (∀ op ∈ build, op.isReset = false) →
      ((p.run s build).flatMap (·.journal)).count (missingBarrelEntry p.manifest) ≤ 1) := by
  intro s
  have hseen : s.barrelSeen = false ↔ ¬p.BarrelShown ops := by
    rw [← barrelSeen_sessionAfter hp, Bool.not_eq_true]
  refine ⟨?_, fun text => missingBarrelWarning_eq_some, fun op => ?_, fun build hbuild => ?_⟩
  · rw [missingBarrelWarning_isSome_iff, hseen, phase_eq_done_iff hp]
  · rw [missing_mem_perform_iff hp, hseen, phase_eq_pruning_iff hp]
  · have hcount := count_run_journal_le hp s hbuild
    split at hcount <;> omega

def earlyCall : Operation :=
  .transformBarrel barrelRequest barrelSource (some (.object barrelDescriptor))

def plainCall : Operation :=
  .transformBarrel barrelRequest plainBarrel (some (.object barrelDescriptor))

-- The call with the key comes before the first query, and the one after it has no key.
def unseenBarrel : List Operation := [earlyCall, .needsAnotherPass, plainCall]

theorem unseenBarrel_not_shown : ¬small.BarrelShown unseenBarrel := by
  intro h
  have hsplit : unseenBarrel = [] ++ [earlyCall] ++ [.needsAnotherPass] ++ [plainCall] := rfl
  rw [hsplit, barrelShown_concat, barrelShown_concat, barrelShown_concat] at h
  obtain ⟨⟨⟨hnone, -⟩ | ⟨hearly, -⟩, -⟩ | ⟨hquery, -⟩, -⟩ | ⟨-, hplain⟩ := h
  · exact not_barrelShown_nil hnone
  · exact absurd hearly (by decide)
  · exact absurd hquery (by decide)
  · exact plainBarrel_no_key (showsBarrel_transformBarrel.mp hplain).2.2

theorem warning_tells_missing_barrel_unseen :
    small.mode = .production ∧ ¬small.BarrelShown unseenBarrel ∧
    missingBarrelEntry small.manifest ∈
      (small.perform (small.sessionAfter .initial unseenBarrel) .needsAnotherPass).journal ∧
    ((small.run (small.sessionAfter .initial unseenBarrel)
      [.needsAnotherPass, .needsAnotherPass]).flatMap (·.journal)).count
        (missingBarrelEntry small.manifest) ≤ 1 := by
  obtain ⟨-, -, htells, honce⟩ := warning_tells_missing_barrel small rfl unseenBarrel
  exact ⟨rfl, unseenBarrel_not_shown,
    (htells .needsAnotherPass).mpr ⟨rfl, rfl, unseenBarrel_not_shown⟩, honce _ (by decide)⟩

end Plan

end Treeshake
