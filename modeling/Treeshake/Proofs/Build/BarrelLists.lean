import Mathlib.Data.List.Sort
import Treeshake.Proofs.Build.Gate
import Treeshake.Proofs.Source.BarrelKey

namespace Treeshake

open Usage Operation Source.Barrel

-- The exports of a kind that some modules use, each once and by code point.
structure Usage.Exports (m : Library.Manifest) (sources : List SourceModule) (kind : NameKind)
    (names : List String) : Prop where
  increasing : names.Pairwise (· < ·)
  mem_iff (name : String) : name ∈ names ↔ ∃ source ∈ sources, Resolves m source kind name

section Exports

variable {m : Library.Manifest} {sources others : List SourceModule} {kind : NameKind}
  {names names' : List String}

theorem Usage.Exports.unique (h : Exports m sources kind names)
    (h' : Exports m sources kind names') : names = names' :=
  h.increasing.eq_of_mem_iff h'.increasing fun {name} =>
    (h.mem_iff name).trans (h'.mem_iff name).symm

theorem Usage.Exports.congr (h : Exports m sources kind names)
    (hsame : ∀ source, source ∈ sources ↔ source ∈ others) : Exports m others kind names := by
  refine ⟨h.increasing, fun name => ?_⟩
  rw [h.mem_iff]
  simp only [hsame]

end Exports

namespace Plan

variable {p : Plan}

theorem transformBarrel_eq_some_iff {s : Session} {request source text : String}
    {package : Option Json} :
    (p.transformBarrel s request source package).answer.source = .ok (some text) ↔
      p.isBarrel request = true ∧ p.prunes s = true ∧ (∃ fields, package = some (.object fields)) ∧
      expand source s.record.components.names s.record.directives.names = .expanded text := by
  unfold transformBarrel
  by_cases hrequest : p.isBarrel request = true
  · by_cases hprunes : p.prunes s = true
    · simp only [hrequest, hprunes, Bool.not_true, Bool.false_eq_true, if_false, true_and]
      cases hdescribed : overrideSideEffects request package p.settings.sideEffects with
      | error fault =>
        constructor
        · intro h
          cases h
        · rintro ⟨⟨fields, rfl⟩, -⟩
          cases hdescribed
      | ok described =>
        have hpackage : ∃ fields, package = some (.object fields) := by
          unfold overrideSideEffects at hdescribed
          split at hdescribed
          · exact ⟨_, rfl⟩
          · cases hdescribed
        simp only [expandBarrel, hpackage, true_and]
        split <;> simp_all [silent]
    · simp [hrequest, hprunes]
  · simp [hrequest, silent]

-- While the build is not done, the record holds what its own scans have found.
theorem record_of_current (hp : p.mode = .production) {ops : List Operation}
    (hq : queries ops ≤ 1) (kind : NameKind) :
    Exports p.manifest (scanned ops) kind
      ((p.sessionAfter .initial ops).record.of kind).names := by
  refine ⟨(Record.of _ kind).increasing, fun name => ?_⟩
  have hopen : (p.sessionAfter .initial ops).phase ≠ .done := by
    rw [Ne, phase_eq_done_iff hp]
    omega
  rw [sessionAfter_current] at hopen ⊢
  rw [mem_record_sessionAfter hp (fun op hop => isReset_of_mem_current hop) hopen]
  have hempty : name ∉ (Session.initial.record.of kind).names := by
    cases kind <;> exact List.not_mem_nil
  simp [hempty, scanned]

theorem record_eq_of_scanned (hp : p.mode = .production) {ops others : List Operation}
    (hq : queries ops ≤ 1) (hq' : queries others ≤ 1)
    (h : ∀ m, m ∈ scanned others ↔ m ∈ scanned ops) (kind : NameKind) :
    ((p.sessionAfter .initial others).record.of kind).names =
      ((p.sessionAfter .initial ops).record.of kind).names :=
  ((record_of_current hp hq' kind).congr h).unique (record_of_current hp hq kind)

-- Between the first query and the second, the barrel lists what has been scanned since the last
-- reset. Neither order nor repetition of the scans shows.
theorem barrel_lists_scanned_exports (p : Plan) (hp : p.mode = .production)
    (ops : List Operation) (hq : queries ops = 1) (request source : String)
    (fields : List (String × Json)) (through behind : List Char)
    (hrequest : p.manifest.barrelRequest.toList <:+: request.toList)
    (hkey : FirstKey source.toList through behind) (hshort : ¬Expanded behind) :
    (∃ components directives tail,
      Exports p.manifest (scanned ops) .component components ∧
      Exports p.manifest (scanned ops) .directive directives ∧
      WithDirectives directives behind tail ∧
      (p.transformBarrel (p.sessionAfter .initial ops) request source
          (some (.object fields))).answer.source =
        .ok (some (String.ofList (through ++ listing "components." components ++ tail)))) ∧
    ∀ others, queries others = 1 → (∀ m, m ∈ scanned others ↔ m ∈ scanned ops) →
      (p.transformBarrel (p.sessionAfter .initial others) request source
          (some (.object fields))).answer.source =
        (p.transformBarrel (p.sessionAfter .initial ops) request source
          (some (.object fields))).answer.source := by
  have hbarrel := isBarrel_iff_infix.mpr hrequest
  -- the text that a session with one query behind it returns
  have htext (run : List Operation) (hrun : queries run = 1) :
      (p.transformBarrel (p.sessionAfter .initial run) request source
          (some (.object fields))).answer.source =
        .ok (some (String.ofList (through ++
          listing "components." ((p.sessionAfter .initial run).record.of .component).names ++
          expandDirectives ((p.sessionAfter .initial run).record.of .directive).names behind))) := by
    refine transformBarrel_eq_some_iff.mpr ⟨hbarrel, (prunes_iff hp run).mpr hrun, ⟨fields, rfl⟩, ?_⟩
    exact expand_eq_expanded_iff.mpr
      ⟨through, behind, _, hkey, hshort, withDirectives_iff.mpr rfl, rfl⟩
  constructor
  · exact ⟨_, _, _, record_of_current hp hq.le .component, record_of_current hp hq.le .directive,
      withDirectives_iff.mpr rfl, htext ops hq⟩
  · intro others hothers hsame
    have hrecord := record_eq_of_scanned hp hq.le hothers.le hsame
    rw [htext others hothers, htext ops hq, hrecord .component, hrecord .directive]

def barrelRequest : String := "/app/node_modules/" ++ Library.Manifest.barrelFile

def barrelSource : String := "install(app, \x7b components, directives, ...opts \x7d)"

theorem barrelRequest_infix :
    small.manifest.barrelRequest.toList <:+: barrelRequest.toList :=
  isBarrel_iff_infix.mp (by decide)

theorem barrelSource_firstKey :
    FirstKey barrelSource.toList "install(app, \x7b components".toList
      ", directives, ...opts \x7d)".toList :=
  splitAtComponents?_eq_some_iff.mp (by decide)

theorem barrelSource_nextKey :
    NextKey ", directives, ...opts \x7d)".toList ", directives".toList ", ...opts \x7d)".toList :=
  splitAtDirectives?_eq_some_iff.mp (by decide)

def rippleModule : SourceModule :=
  ⟨"src/Ripple.js", some (Node.program
    [Node.importAs "vue" "resolveDirective" "rd", Node.call "rd" "ripple"])⟩

-- A build that meets its directive only behind the query.
def oldBuild : List Operation :=
  [.scanModules [.small "src/Card.js" "q-card", .small "src/App.js" "q-btn"], .needsAnotherPass,
    .scanModule rippleModule]

-- The same build, a reset and another one, whose only scan comes behind its query.
def twoBuilds : List Operation :=
  oldBuild ++ [.reset, .needsAnotherPass, .scanModule (.small "src/App.js" "q-btn")]

-- A build of the same module, scanned twice and before the query.
def oneBuild : List Operation :=
  [.scanModule (.small "src/App.js" "q-btn"), .scanModule (.small "src/App.js" "q-btn"),
    .needsAnotherPass]

theorem exports_of_record {ops : List Operation} (hq : queries ops ≤ 1) {kind : NameKind}
    {names : List String}
    (h : ((small.sessionAfter .initial ops).record.of kind).names = names) :
    Exports .small (scanned ops) kind names :=
  h ▸ record_of_current (p := small) rfl hq kind

theorem exports_oldBuild : Exports .small (scanned oldBuild) .component ["QBtn", "QCard"] ∧
    Exports .small (scanned oldBuild) .directive ["Ripple"] :=
  ⟨exports_of_record (by decide) (by decide +kernel),
    exports_of_record (by decide) (by decide +kernel)⟩

theorem exports_twoBuilds : Exports .small (scanned twoBuilds) .component ["QBtn"] ∧
    Exports .small (scanned twoBuilds) .directive [] :=
  ⟨exports_of_record (by decide) (by decide +kernel),
    exports_of_record (by decide) (by decide +kernel)⟩

theorem barrel_lists_scanned_exports_twoBuilds :
    let barrel (ops : List Operation) := (small.transformBarrel (small.sessionAfter .initial ops)
      barrelRequest barrelSource (some (.object []))).answer.source
    small.mode = .production ∧ queries oldBuild = 1 ∧ queries twoBuilds = 1 ∧
    Exports .small (scanned oldBuild) .component ["QBtn", "QCard"] ∧
    Exports .small (scanned oldBuild) .directive ["Ripple"] ∧
    barrel oldBuild = .ok (some ("install(app, \x7b components: [components.QBtn, " ++
      "components.QCard], directives: [directives.Ripple], ...opts \x7d)")) ∧
    Exports .small (scanned twoBuilds) .component ["QBtn"] ∧
    Exports .small (scanned twoBuilds) .directive [] ∧
    barrel twoBuilds = .ok (some
      "install(app, \x7b components: [components.QBtn], directives: [], ...opts \x7d)") ∧
    barrel oneBuild = barrel twoBuilds := by
  intro barrel
  have hbuild (ops : List Operation) (hq : queries ops = 1) :=
    barrel_lists_scanned_exports small rfl ops hq barrelRequest barrelSource [] _ _
      barrelRequest_infix barrelSource_firstKey (mt isExpanded_iff.mpr (by decide +kernel))
  -- the barrel's text with the lists that the build has found
  have htext (ops : List Operation) (hq : queries ops = 1) {components directives : List String}
      (hcomponents : Exports .small (scanned ops) .component components)
      (hdirectives : Exports .small (scanned ops) .directive directives) :
      barrel ops = .ok (some (String.ofList ("install(app, \x7b components".toList ++
        listing "components." components ++ (", directives".toList ++
          listing "directives." directives ++ ", ...opts \x7d)".toList)))) := by
    obtain ⟨⟨components', directives', tail, hcomponents', hdirectives', htail, hbarrel⟩, -⟩ :=
      hbuild ops hq
    rw [hcomponents'.unique hcomponents] at hbarrel
    rw [hdirectives'.unique hdirectives, barrelSource_nextKey.withDirectives_iff] at htail
    rw [← htail]
    exact hbarrel
  obtain ⟨holdComponents, holdDirectives⟩ := exports_oldBuild
  obtain ⟨hcomponents, hdirectives⟩ := exports_twoBuilds
  have hsame (m : SourceModule) : m ∈ scanned oneBuild ↔ m ∈ scanned twoBuilds := by
    change m ∈ [_, _] ↔ m ∈ [_]
    simp
  refine ⟨rfl, rfl, rfl, holdComponents, holdDirectives, ?_, hcomponents, hdirectives, ?_,
    (hbuild twoBuilds rfl).2 oneBuild rfl hsame⟩
  · rw [htext oldBuild rfl holdComponents holdDirectives]
    decide +kernel
  · rw [htext twoBuilds rfl hcomponents hdirectives]
    decide +kernel

theorem pruning_until_query (hp : p.mode = .production) {s : Session} {ops : List Operation}
    (hs : s.phase = .pruning) (hops : ∀ op ∈ ops, op.isReset = false ∧ op.isQuery = false) :
    (p.sessionAfter s ops).phase = .pruning := by
  refine sessionAfter_keeps (motive := fun t => t.phase = .pruning) hs fun t hphase op hop => ?_
  obtain ⟨hreset, hquery⟩ := hops op hop
  rw [perform_phase hp, hphase]
  cases hevent : op.event? with
  | none => rfl
  | some event =>
    cases event with
    | begin => rfl
    | query => simp [isQuery, hevent] at hquery
    | reset => simp [isReset, hevent] at hreset

theorem phase_of_prunes (hp : p.mode = .production) {s : Session} (h : p.prunes s = true) :
    s.phase = .pruning := by
  rw [prunes, isDevelopment_of_production hp] at h
  cases hphase : s.phase <;> simp [hphase, Phase.prunes] at h ⊢

-- The second query of a build closes the record.
theorem record_closes (hp : p.mode = .production) {s : Session} {ops : List Operation}
    (hs : s.phase = .pruning) (hops : ∀ op ∈ ops, op.isReset = false)
    (hquery : ∀ op ∈ ops.head?, op.isQuery = true) : (p.sessionAfter s ops).record = s.record := by
  cases ops with
  | nil => rfl
  | cons op ops =>
    have hevent : op.event? = some .query := by simpa [isQuery] using hquery op rfl
    have hmodules : op.modules = [] := by cases op <;> first | rfl | cases hevent
    have hphase : (p.perform s op).session.phase = .done := by
      rw [perform_phase hp, hevent, hs]
      rfl
    have hrecord : (p.perform s op).session.record = s.record := by
      rw [perform_record hp, hmodules, hops op List.mem_cons_self]
      simp [scanAll]
    have hrest := sessionAfter_of_done hp hphase fun op hop => hops op (List.mem_cons_of_mem _ hop)
    exact hrest.2.trans hrecord

-- After the first query, a build finds what it scans before the second.
theorem mem_record_of_pruning (hp : p.mode = .production) {s : Session} {ops : List Operation}
    (hs : s.phase = .pruning) (hops : ∀ op ∈ ops, op.isReset = false)
    (kind : NameKind) (name : String) :
    name ∈ ((p.sessionAfter s ops).record.of kind).names ↔
      name ∈ (s.record.of kind).names ∨
        ∃ m ∈ (ops.takeWhile (!·.isQuery)).flatMap (·.modules),
          Resolves p.manifest m kind name := by
  have hsplit : ops.takeWhile (!·.isQuery) ++ ops.dropWhile (!·.isQuery) = ops :=
    List.takeWhile_append_dropWhile
  have hfirst : ∀ op ∈ ops.takeWhile (!·.isQuery), op.isReset = false :=
    fun op hop => hops op (List.takeWhile_subset _ hop)
  have hopen : (p.sessionAfter s (ops.takeWhile (!·.isQuery))).phase = .pruning := by
    refine pruning_until_query hp hs fun op hop => ⟨hfirst op hop, ?_⟩
    simpa using List.mem_takeWhile_imp hop
  have hclosed : (p.sessionAfter s ops).record =
      (p.sessionAfter s (ops.takeWhile (!·.isQuery))).record := by
    conv_lhs => rw [← hsplit, sessionAfter_append]
    refine record_closes hp hopen (fun op hop => hops op (List.dropWhile_subset _ hop)) ?_
    intro op hop
    have hnot := List.head?_dropWhile_not (!·.isQuery) ops
    rw [Option.mem_def.mp hop] at hnot
    simpa using hnot
  rw [hclosed]
  exact mem_record_sessionAfter hp hfirst (by rw [hopen]; simp) kind name

-- What is used at the end of a build is listed in each barrel that it has returned, unless a module
-- that was scanned after that barrel and before the second query uses it.
theorem barrel_misses_later_scans_only (p : Plan) (hp : p.mode = .production)
    (before after : List Operation) (request source text : String) (package : Option Json)
    (through behind through' behind' : List Char)
    (hkey : FirstKey source.toList through behind) (hnext : NextKey behind through' behind')
    (htext : (p.transformBarrel (p.sessionAfter .initial before) request source
      package).answer.source = .ok (some text))
    (hbuild : ∀ op ∈ after, op.isReset = false) :
    let listed := (p.sessionAfter .initial before).record
    let used := (p.sessionAfter .initial
      (before ++ .transformBarrel request source package :: after)).record
    text = String.ofList (through ++ listing "components." listed.components.names ++
      (through' ++ listing "directives." listed.directives.names ++ behind')) ∧
    ∀ kind name, name ∈ (used.of kind).names ↔
      name ∈ (listed.of kind).names ∨
        ∃ m ∈ (after.takeWhile (!·.isQuery)).flatMap (·.modules),
          Resolves p.manifest m kind name := by
  intro listed used
  obtain ⟨-, hprunes, -, hexpand⟩ := transformBarrel_eq_some_iff.mp htext
  refine ⟨expanded_text hkey hnext hexpand, fun kind name => ?_⟩
  obtain ⟨seen, hbarrel⟩ :=
    transformBarrel_session (p := p) (p.sessionAfter .initial before) request source package
  -- right after the barrel, record and phase are still those that it has met
  have hused : used =
      (p.sessionAfter { p.sessionAfter .initial before with barrelSeen := seen } after).record := by
    rw [← hbarrel]
    exact congrArg Session.record (sessionAfter_append .initial before _)
  have hphase : (p.sessionAfter .initial before).phase = .pruning := phase_of_prunes hp hprunes
  rw [hused]
  exact mem_record_of_pruning (s := { p.sessionAfter .initial before with barrelSeen := seen })
    hp hphase hbuild kind name

-- A module that is met only after the barrel.
def lateModule : List Operation :=
  [.scanModule (.small "src/Late.js" "q-card"), .needsAnotherPass]

def firstPass : List Operation :=
  [.scanModule (.small "src/App.js" "q-btn"), .needsAnotherPass]

theorem barrel_misses_later_scans_only_lateModule :
    let text := "install(app, \x7b components: [components.QBtn], directives: [], ...opts \x7d)"
    let barrel : Operation := .transformBarrel barrelRequest barrelSource (some (.object []))
    small.mode = .production ∧
    (small.transformBarrel (small.sessionAfter .initial firstPass) barrelRequest barrelSource
      (some (.object []))).answer.source = .ok (some text) ∧
    text = String.ofList ("install(app, \x7b components".toList ++
      listing "components." ["QBtn"] ++ (", directives".toList ++ listing "directives." [] ++
        ", ...opts \x7d)".toList)) ∧
    ∀ kind name,
      name ∈ ((small.sessionAfter .initial (firstPass ++ barrel :: lateModule)).record.of kind).names ↔
        name ∈ ((small.sessionAfter .initial firstPass).record.of kind).names ∨
          ∃ m ∈ (lateModule.takeWhile (!·.isQuery)).flatMap (·.modules),
            Resolves small.manifest m kind name := by
  intro text barrel
  have htext : (small.transformBarrel (small.sessionAfter .initial firstPass) barrelRequest
      barrelSource (some (.object []))).answer.source = .ok (some text) := by
    decide +kernel
  obtain ⟨hlists, hused⟩ := barrel_misses_later_scans_only small rfl firstPass lateModule
    barrelRequest barrelSource text _ _ _ _ _ barrelSource_firstKey barrelSource_nextKey htext
    (by decide +kernel)
  have hcomponents : (small.sessionAfter .initial firstPass).record.components.names = ["QBtn"] := by
    decide +kernel
  have hdirectives : (small.sessionAfter .initial firstPass).record.directives.names = [] := by
    decide +kernel
  rw [hcomponents, hdirectives] at hlists
  exact ⟨rfl, htext, hlists, hused⟩

-- The component of the late module is used when the build is done, and its barrel does not list it.
theorem late_module_missing_from_barrel :
    let used := small.sessionAfter .initial (firstPass ++
      .transformBarrel barrelRequest barrelSource (some (.object [])) :: lateModule)
    used.phase = .done ∧ used.record.components.names = ["QBtn", "QCard"] ∧
    (small.transformBarrel (small.sessionAfter .initial firstPass) barrelRequest barrelSource
        (some (.object []))).answer.source =
      .ok (some "install(app, \x7b components: [components.QBtn], directives: [], ...opts \x7d)") := by
  decide +kernel

end Plan

end Treeshake
