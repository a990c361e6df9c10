import Treeshake.Proofs.Source.Lookup
import Treeshake.Proofs.Source.Statement
import Treeshake.Proofs.Source.TemplateImports

namespace Treeshake.Source

open Library Pattern Pattern.Reader
open Import (IsName)

section Parts

variable {m : Manifest} {r : Resolution}

theorem ofText?_of_compile {place : PatternPlace} {text : String} {p : Pattern}
    (h : Library.compile place text = .ok p) : ofText? text = some p := by
  unfold Library.compile at h
  split at h
  · next hread =>
    rw [hread]
    exact congrArg some (Except.ok.inj h)
  · cases h

theorem ofText?_of_make {c : Convention} (h : Convention.make c.exports c.texts = .ok c) :
    ofText? c.texts.components = some c.components ∧
      ofText? c.texts.directives = some c.directives := by
  unfold Convention.make at h
  cases hcomponents : Library.compile (.names .component) c.texts.components with
  | error fault => simp [hcomponents, bind, Except.bind] at h
  | ok components =>
    cases hdirectives : Library.compile (.names .directive) c.texts.directives with
    | error fault => simp [hcomponents, hdirectives, bind, Except.bind] at h
    | ok directives =>
      simp only [hcomponents, hdirectives, bind, Except.bind, pure, Except.pure] at h
      have hmade := Except.ok.inj h
      rw [ofText?_of_compile hcomponents, ofText?_of_compile hdirectives]
      exact ⟨congrArg (some ·.components) hmade, congrArg (some ·.directives) hmade⟩

-- What a rewrite is made of.
theorem Resolution.parts_of_ofManifest (h : Resolution.ofManifest m = .ok r) :
    (∀ kind, ofText? (Resolution.patternText kind (Resolution.namesText m.convention.texts kind)) =
      some (match kind with
        | .component => r.components
        | .directive => r.directives)) ∧
      r.exports = m.convention.exports ∧ r.path = m.internalPath := by
  unfold Resolution.ofManifest at h
  cases hcomponents : Resolution.compileFor m.convention.texts .component with
  | error fault => simp [hcomponents, bind, Except.bind] at h
  | ok components =>
    cases hdirectives : Resolution.compileFor m.convention.texts .directive with
    | error fault => simp [hcomponents, hdirectives, bind, Except.bind] at h
    | ok directives =>
      simp only [hcomponents, hdirectives, bind, Except.bind, pure, Except.pure] at h
      obtain rfl := Except.ok.inj h
      refine ⟨?_, rfl, rfl⟩
      rintro ⟨⟩
      · exact ofText?_of_compile hcomponents
      · exact ofText?_of_compile hdirectives

end Parts

section Listed

variable {words : List (List Char)} {names : String} {q : Pattern}

-- A pattern that lists names holds for each of them.
theorem isMatch_of_mem (h : Alternation words names.toList) (hq : ofText? names = some q)
    (hchars : ∀ w ∈ words, ∀ c ∈ w, IsWordOrHyphen c) {w : List Char} (hw : w ∈ words) :
    q.isMatch (String.ofList w) = true := by
  have hne : words ≠ [] := List.ne_nil_of_mem hw
  obtain ⟨p, hp, hfinds⟩ : ∃ p, ofText? (Resolution.patternText .component names) = some p ∧
      Finds p (ofKind .component fun _ => words) := exists_finds h hne hchars
  let d := Declaration.plain .component ['x'] w (by decide) (hchars w hw)
  have hd : Declares (ofKind .component fun _ => words) (d.text ++ []) d [] :=
    declares_ofKind_iff.mpr ⟨rfl, rfl, hw, by simp [Declaration.Ends, Declaration.plain, marked, d]⟩
  have hmatch : matchAt p ⟨[], d.text ++ []⟩ = some (d.found [] []) :=
    (hfinds _ _ _).mpr ⟨d, [], hd, rfl⟩
  rw [ofText?_patternText hq hp] at hmatch
  exact (looksUp_of_matchAt hmatch).2.2

end Listed

section Unprefixed

-- The pattern for directives lists the names without the prefix, wherever it stands.
theorem exists_unprefixed {texts : Patterns} {prefixed : List (List Char)}
    (h : Alternation prefixed texts.directives.toList) (hne : prefixed ≠ [])
    (hchars : ∀ w ∈ prefixed, ∀ c ∈ w, IsWordOrHyphen c) :
    ∃ p, ofText? (Resolution.patternText .directive (Resolution.namesText texts .directive)) =
        some p ∧
      Finds p (ofKind .directive fun _ =>
        prefixed.map (Text.erase Convention.directivePrefix.toList)) := by
  refine exists_finds ?_ (by simpa using hne) ?_
  · rw [Resolution.namesText, String.toList_ofList]
    exact Vocabulary.alternation_erase (by decide) (by decide) h
  · intro w hw c hc
    obtain ⟨full, hfull, rfl⟩ := List.mem_map.mp hw
    exact hchars full hfull c (Text.mem_of_mem_erase hc)

end Unprefixed

section Components

variable {m : Manifest} {r : Resolution}

-- The import that a statement becomes when its name is looked for.
def statementImport? (m : Manifest) (kind : NameKind) (words : List (List Char))
    (tail name : List Char) : Option (List Char) :=
  if name ∈ words then
    (m.convention.exportOf? kind (String.ofList name)).map fun exported =>
      Import.Specifier.text m.internalPath ⟨exported.toList, stem kind ++ tail⟩
  else none

-- An import that one of the passes makes is one of the rewrite.
theorem replace?_of_mem_imports (r : Resolution) {source line : List Char}
    (hline : line ∈ (r.extract .component r.components source).imports ++
      (r.extract .directive r.directives (r.extract .component r.components source).text).imports) :
    ∃ (imports : List (List Char)) (text : List Char), r.replace? (String.ofList source) =
      some (String.ofList (imports.flatten ++ text)) ∧ line ∈ imports := by
  unfold Resolution.replace?
  simp only [String.toList_ofList]
  rw [if_neg]
  · exact ⟨_, _, rfl, hline⟩
  · intro hempty
    rw [List.isEmpty_iff.mp hempty] at hline
    cases hline

-- What both passes leave in one piece stands in the new text.
theorem infix_of_replace? {r : Resolution} {source w : List Char} {rewritten : String}
    (hleft : w <:+: (r.extract .directive r.directives
      (r.extract .component r.components source).text).text)
    (h : r.replace? (String.ofList source) = some rewritten) : w <:+: rewritten.toList := by
  unfold Resolution.replace? at h
  simp only [String.toList_ofList] at h
  split at h
  · cases h
  · rw [← Option.some.inj h, String.toList_ofList]
    exact hleft.trans (List.suffix_append _ _).isInfix

theorem Resolution.Extract.infix_around (front back : Resolution.Extract) (middle : List Char) :
    middle <:+: (front.around middle none back).text := by
  have hback : middle <+: middle ++ back.text := List.prefix_append _ _
  exact hback.isInfix.trans (List.suffix_append _ _).isInfix

theorem Resolution.canonical?_component (hr : Resolution.ofManifest m = .ok r) (name : List Char) :
    r.canonical? .component name = m.convention.canonical? (String.ofList name) := by
  obtain ⟨-, hexports, -⟩ := Resolution.parts_of_ofManifest hr
  rw [Resolution.canonical?, hexports, Convention.canonical?]

-- Whatever the pattern for components is, what it finds and maps is a component to a scan.
theorem componentExport?_of_import? (h : ofText? m.convention.texts.components =
      some m.convention.components) (hr : Resolution.ofManifest m = .ok r)
    {source before line : List Char} {found : Match}
    (hfound : (before, found) ∈ (r.components.pieces source).found)
    (hline : r.import? .component found = some line) :
    ∃ bound exported, LooksUp .component found.text bound (found.group "name") ∧
      line = Import.Specifier.text m.internalPath ⟨exported.toList, found.group "local"⟩ ∧
      m.convention.componentExport? (String.ofList (found.group "name")) = some exported := by
  obtain ⟨hpatterns, -, hpath⟩ := Resolution.parts_of_ofManifest hr
  have hparts : r.components = .seq (declarationParts .component m.convention.components) :=
    ofText?_patternText h (hpatterns .component)
  have heats : Eats r.components := by
    intro place m' hm
    rw [hparts] at hm
    obtain ⟨⟨bound, hlooks⟩, -⟩ := looksUp_of_matchAt hm
    exact hlooks.ne_nil
  obtain ⟨place, hmatch⟩ := exists_matchAt_of_mem_pieces heats hfound
  rw [hparts] at hmatch
  obtain ⟨⟨bound, hlooks⟩, -, hname⟩ := looksUp_of_matchAt hmatch
  obtain ⟨exported, hexported, rfl⟩ := Option.map_eq_some_iff.mp hline
  rw [Resolution.canonical?_component hr] at hexported
  refine ⟨bound, exported, hlooks, by rw [hpath, Import.line_eq], ?_⟩
  rw [Convention.componentExport?, Convention.isComponent, if_pos hname, hexported]

section List

variable {words : List (List Char)}

theorem componentExport?_of_mem (h : ofText? m.convention.texts.components =
      some m.convention.components) (hchars : ∀ w ∈ words, ∀ c ∈ w, IsWordOrHyphen c)
    (hwords : Alternation words m.convention.texts.components.toList) {w : List Char}
    (hw : w ∈ words) :
    m.convention.componentExport? (String.ofList w) =
      m.convention.canonical? (String.ofList w) := by
  have hmatch := isMatch_of_mem hwords h hchars hw
  rw [Convention.componentExport?, Convention.isComponent, if_pos hmatch]

theorem extract_component (h : ofText? m.convention.texts.components =
      some m.convention.components) (hr : Resolution.ofManifest m = .ok r)
    (hne : words ≠ []) (hchars : ∀ w ∈ words, ∀ c ∈ w, IsWordOrHyphen c)
    (hwords : Alternation words m.convention.texts.components.toList) (front : List Char)
    {tail name back : List Char} (htail : IsName tail) (hname : '"' ∉ name)
    (hbang : back.head? ≠ some '!') (hsemi : back.head? ≠ some ';') :
    r.extract .component r.components (front ++ (statement .component tail name ++ back)) =
      (r.extract .component r.components front).around (statement .component tail name)
        (statementImport? m .component words tail name)
        (r.extract .component r.components back) := by
  obtain ⟨hpatterns, -, hpath⟩ := Resolution.parts_of_ofManifest hr
  obtain ⟨p, hp, hfinds⟩ : ∃ p, ofText? (Resolution.patternText .component
      m.convention.texts.components) = some p ∧ Finds p (ofKind .component fun _ => words) :=
    exists_finds hwords hne hchars
  obtain rfl : p = r.components := Option.some.inj (hp.symm.trans (hpatterns .component))
  refine extract_statement r hfinds hchars front htail hname hbang hsemi ?_
  unfold statementImport?
  by_cases hmem : name ∈ words
  · simp only [hmem, and_self, if_true, Convention.exportOf?, hpath,
      componentExport?_of_mem h hchars hwords hmem, Resolution.canonical?_component hr]
  · simp only [hmem, and_false, if_false]

end List

-- Every component that a rewrite imports is one that a scan records under the name that the
-- declaration looks up. When the pattern lists names, a statement of its own is replaced if and only
-- if its name is listed and has an export, which is when a scan records a listed name: its import is
-- one of the rewrite, or else it stays, even behind the second pass if that looks for names as well.
theorem component_rewrite_follows_scan (m : Manifest) (r : Resolution)
    (hmade : Convention.make m.convention.exports m.convention.texts = .ok m.convention)
    (hr : Resolution.ofManifest m = .ok r) :
    (∀ (source before : List Char) (found : Match) (line : List Char),
      (before, found) ∈ (r.components.pieces source).found →
      r.import? .component found = some line →
      ∃ bound exported, LooksUp .component found.text bound (found.group "name") ∧
        line = Import.Specifier.text m.internalPath ⟨exported.toList, found.group "local"⟩ ∧
        m.convention.componentExport? (String.ofList (found.group "name")) = some exported) ∧
    ∀ words : List (List Char), words ≠ [] → (∀ w ∈ words, ∀ c ∈ w, IsWordOrHyphen c) →
      Alternation words m.convention.texts.components.toList →
      (∀ w ∈ words, m.convention.componentExport? (String.ofList w) =
        m.convention.canonical? (String.ofList w)) ∧
      ∀ front tail name back : List Char, IsName tail → '"' ∉ name →
        back.head? ≠ some '!' → back.head? ≠ some ';' →
        let source := front ++ (statement .component tail name ++ back)
        let line? := statementImport? m .component words tail name
        (line?.isSome ↔ name ∈ words ∧ (m.convention.canonical? (String.ofList name)).isSome) ∧
        r.extract .component r.components source =
          (r.extract .component r.components front).around (statement .component tail name) line?
            (r.extract .component r.components back) ∧
        (∀ line, line? = some line → ∃ (imports : List (List Char)) (text : List Char),
          r.replace? (String.ofList source) = some (String.ofList (imports.flatten ++ text)) ∧
            line ∈ imports) ∧
        (line? = none → ∀ prefixed : List (List Char), prefixed ≠ [] →
          (∀ w ∈ prefixed, ∀ c ∈ w, IsWordOrHyphen c) →
          Alternation prefixed m.convention.texts.directives.toList →
          ∀ rewritten, r.replace? (String.ofList source) = some rewritten →
            statement .component tail name <:+: rewritten.toList) := by
  obtain ⟨hcomponents, -⟩ := ofText?_of_make hmade
  obtain ⟨hpatterns, -⟩ := Resolution.parts_of_ofManifest hr
  refine ⟨fun source before found line => componentExport?_of_import? hcomponents hr, ?_⟩
  intro words hne hchars hwords
  refine ⟨fun w => componentExport?_of_mem hcomponents hchars hwords, ?_⟩
  intro front tail name back htail hname hbang hsemi source line?
  have hpass := extract_component hcomponents hr hne hchars hwords front htail hname hbang hsemi
  refine ⟨?_, hpass, ?_, ?_⟩
  · by_cases hmem : name ∈ words
    · simp [line?, statementImport?, hmem, Convention.exportOf?,
        componentExport?_of_mem hcomponents hchars hwords hmem]
    · simp [line?, statementImport?, hmem]
  · intro line hline
    refine replace?_of_mem_imports r (List.mem_append_left _ ?_)
    rw [hpass]
    simp [Resolution.Extract.around, show statementImport? m .component words tail name = some line
      from hline]
  · intro hnone prefixed hprefixed hprefixedChars hdirectives rewritten hrewritten
    obtain ⟨p, hp, hfinds⟩ := exists_unprefixed hdirectives hprefixed hprefixedChars
    obtain rfl : p = r.directives := Option.some.inj (hp.symm.trans (hpatterns .directive))
    have hleft : (r.extract .component r.components source).text =
        (r.extract .component r.components front).text ++ (statement .component tail name ++
          (r.extract .component r.components back).text) := by
      rw [hpass, show statementImport? m .component words tail name = none from hnone]
      rfl
    have hkind : ¬(NameKind.component = .directive ∧
        name ∈ prefixed.map (Text.erase Convention.directivePrefix.toList)) :=
      not_and_of_not_left _ (by decide)
    refine infix_of_replace? ?_ hrewritten
    rw [hleft, extract_unlisted r hfinds _ _ htail hname hkind]
    exact Resolution.Extract.infix_around _ _ _

theorem make_of_isSome {exports : List (String × String)} {texts : Patterns}
    (hcomponents : (ofText? texts.components).isSome = true)
    (hdirectives : (ofText? texts.directives).isSome = true) :
    Convention.make exports texts = .ok ⟨exports, texts,
      (ofText? texts.components).getD (.alt []), (ofText? texts.directives).getD (.alt [])⟩ := by
  have hread {text : String} (h : (ofText? text).isSome = true) (place : PatternPlace) :
      Library.compile place text = .ok ((ofText? text).getD (.alt [])) := by
    obtain ⟨p, hp⟩ := Option.isSome_iff_exists.mp h
    simp [Library.compile, hp]
  unfold Convention.make
  simp only [hread hcomponents, hread hdirectives]
  rfl

theorem make_small : Convention.make Manifest.small.convention.exports
    Manifest.small.convention.texts = .ok Manifest.small.convention :=
  make_of_isSome (by decide +kernel) (by decide +kernel)

-- One statement on a line of its own, and one that looks up a name which starts like a listed one.
theorem component_rewrite_follows_scan_small :
    ∃ r, Resolution.ofManifest .small = .ok r ∧
      let pass := r.extract .component r.components
      pass ("\n".toList ++ (statement .component "q_btn".toList "q-btn".toList ++ "\n".toList)) =
        (pass "\n".toList).around (statement .component "q_btn".toList "q-btn".toList)
          (some
            "import \x7b QBtn as _component_q_btn \x7d from 'quasar/src/index.prod.js';\n".toList)
          (pass "\n".toList) ∧
      pass ("\n".toList ++ (statement .component "x".toList "q-btn-x".toList ++ "\n".toList)) =
        (pass "\n".toList).around (statement .component "x".toList "q-btn-x".toList) none
          (pass "\n".toList) := by
  obtain ⟨r, hr, -⟩ := exists_serves Vocabulary.small_fits
  obtain ⟨-, hlisted⟩ := component_rewrite_follows_scan .small r make_small hr
  obtain ⟨-, hpass⟩ := hlisted Vocabulary.small.components (by decide) (by decide)
    Vocabulary.small_fits.components
  obtain ⟨-, hbutton, -⟩ := hpass "\n".toList "q_btn".toList "q-btn".toList "\n".toList (by decide)
    (by decide) (by decide) (by decide)
  obtain ⟨-, hother, -⟩ := hpass "\n".toList "x".toList "q-btn-x".toList "\n".toList (by decide)
    (by decide) (by decide) (by decide)
  have himport : statementImport? .small .component Vocabulary.small.components "q_btn".toList
      "q-btn".toList = some
        "import \x7b QBtn as _component_q_btn \x7d from 'quasar/src/index.prod.js';\n".toList := by
    decide +kernel
  have hkept : statementImport? .small .component Vocabulary.small.components "x".toList
      "q-btn-x".toList = none := by decide +kernel
  rw [himport] at hbutton
  rw [hkept] at hother
  exact ⟨r, hr, hbutton, hother⟩

end Components

section Directives

variable {m : Manifest} {r : Resolution} {words : List (List Char)}

-- The names in a table that stand for directives.
def prefixedKeys (c : Convention) : List (List Char) :=
  (c.exports.map (·.1.toList)).filter Convention.directivePrefix.toList.isPrefixOf

theorem mem_prefixedKeys_iff {c : Convention} {name : List Char} :
    Convention.directivePrefix.toList ++ name ∈ prefixedKeys c ↔
      (c.canonical? (Convention.directivePrefix ++ String.ofList name)).isSome := by
  have hkey {key : String} : key.toList = Convention.directivePrefix.toList ++ name ↔
      Convention.directivePrefix ++ String.ofList name = key := by
    rw [← String.toList_inj, String.toList_append, String.toList_ofList, eq_comm]
  have hsome : (c.canonical? (Convention.directivePrefix ++ String.ofList name)).isSome ↔
      ∃ e ∈ c.exports, Convention.directivePrefix ++ String.ofList name = e.1 := by
    rw [Convention.canonical?, ← Option.ne_none_iff_isSome, ne_eq, List.lookup_eq_none_iff]
    simp
  rw [hsome, prefixedKeys, List.mem_filter]
  simp [hkey]

-- A pattern that lists nothing is one that lists the empty name.
theorem exists_listed {text : List Char} (h : Alternation words text) :
    ∃ listed, listed ≠ [] ∧ Alternation listed text ∧ words ⊆ listed ∧
      ∀ w ∈ listed, w ∈ words ∨ w = [] ∧ words = [] := by
  cases words with
  | nil =>
    have hlisted : Alternation [[]] text := by
      cases h with
      | plain => exact .plain
      | grouped => exact .grouped
      | bare => exact .bare
    exact ⟨[[]], by simp, hlisted, by simp, by simp⟩
  | cons w words => exact ⟨w :: words, by simp, h, fun _ hmem => hmem, fun _ hmem => .inl hmem⟩

theorem Resolution.canonical?_directive (hr : Resolution.ofManifest m = .ok r) (name : List Char) :
    r.canonical? .directive name =
      m.convention.canonical? (Convention.directivePrefix ++ String.ofList name) := by
  obtain ⟨-, hexports, -⟩ := Resolution.parts_of_ofManifest hr
  rw [Resolution.canonical?, hexports, Convention.canonical?]

-- A scan records a directive if and only if the table has its name with the prefix.
theorem directiveExport?_eq (h : ofText? m.convention.texts.directives =
      some m.convention.directives) (hchars : ∀ w ∈ words, ∀ c ∈ w, IsWordOrHyphen c)
    (hwords : Alternation words m.convention.texts.directives.toList)
    (hkeys : ∀ w, w ∈ words ↔ w ∈ prefixedKeys m.convention) (name : List Char) :
    m.convention.directiveExport? (String.ofList name) =
      m.convention.canonical? (Convention.directivePrefix ++ String.ofList name) := by
  rw [Convention.directiveExport?]
  by_cases hmem : Convention.directivePrefix.toList ++ name ∈ words
  · have hmatch := isMatch_of_mem hwords h hchars hmem
    rw [String.ofList_append, String.ofList_toList] at hmatch
    rw [Convention.isDirective, if_pos hmatch]
  · rw [hkeys, mem_prefixedKeys_iff, Option.not_isSome_iff_eq_none] at hmem
    simp [hmem]

theorem extract_directive (h : ofText? m.convention.texts.directives =
      some m.convention.directives) (hr : Resolution.ofManifest m = .ok r)
    (hchars : ∀ w ∈ words, ∀ c ∈ w, IsWordOrHyphen c)
    (hwords : Alternation words m.convention.texts.directives.toList)
    (hkeys : ∀ w, w ∈ words ↔ w ∈ prefixedKeys m.convention) (front : List Char)
    {tail name back : List Char} (htail : IsName tail) (hname : '"' ∉ name)
    (hbang : back.head? ≠ some '!') (hsemi : back.head? ≠ some ';') :
    r.extract .directive r.directives (front ++ (statement .directive tail name ++ back)) =
      (r.extract .directive r.directives front).around (statement .directive tail name)
        (statementImport? m .directive (words.map (Text.erase Convention.directivePrefix.toList))
          tail name)
        (r.extract .directive r.directives back) := by
  obtain ⟨hpatterns, -, hpath⟩ := Resolution.parts_of_ofManifest hr
  obtain ⟨listed, hne, hlisted, hsub, hextra⟩ := exists_listed hwords
  have hlistedChars : ∀ w ∈ listed, ∀ c ∈ w, IsWordOrHyphen c := by
    intro w hw c hc
    rcases hextra w hw with hw | ⟨rfl, -⟩
    · exact hchars w hw c hc
    · cases hc
  obtain ⟨p, hp, hfinds⟩ := exists_unprefixed hlisted hne hlistedChars
  obtain rfl : p = r.directives := Option.some.inj (hp.symm.trans (hpatterns .directive))
  refine extract_statement r hfinds ?_ front htail hname hbang hsemi ?_
  · intro w hw c hc
    obtain ⟨full, hfull, rfl⟩ := List.mem_map.mp hw
    exact hlistedChars full hfull c (Text.mem_of_mem_erase hc)
  rw [Resolution.canonical?_directive hr, hpath, statementImport?, Convention.exportOf?,
    directiveExport?_eq h hchars hwords hkeys]
  cases hexport : m.convention.canonical? (Convention.directivePrefix ++ String.ofList name) with
  | none => simp
  | some exported =>
    -- a name with an export is listed, so there is more than the empty name
    have hmem : Convention.directivePrefix.toList ++ name ∈ words := by
      rw [hkeys, mem_prefixedKeys_iff, hexport, Option.isSome_some]
    have hiff : name ∈ listed.map (Text.erase Convention.directivePrefix.toList) ↔
        name ∈ words.map (Text.erase Convention.directivePrefix.toList) := by
      simp only [List.mem_map]
      constructor
      · rintro ⟨w, hw, rfl⟩
        rcases hextra w hw with hw | ⟨-, hempty⟩
        · exact ⟨w, hw, rfl⟩
        · exact absurd hmem (hempty ▸ List.not_mem_nil)
      · rintro ⟨w, hw, rfl⟩
        exact ⟨w, hsub hw, rfl⟩
    simp [hiff]

theorem LooksUp.call_infix {kind : NameKind} {text bound name : List Char}
    (h : LooksUp kind text bound name) : call kind <:+: text := by
  obtain ⟨gap, tail, before, after, bang, semicolon, -, -, -, -, -, -, rfl⟩ := h
  refine ⟨"const".toList ++ (gap ++ (bound ++ (before ++ '=' :: after))),
    name ++ '"' :: ')' :: (marked '!' bang ++ marked ';' semicolon), ?_⟩
  simp only [List.append_assoc, List.cons_append]

-- Without a component that is looked up the first pass leaves a text as it is.
theorem extract_component_of_absent (h : ofText? m.convention.texts.components =
      some m.convention.components) (hr : Resolution.ofManifest m = .ok r) {source : List Char}
    (habsent : ¬call .component <:+: source) :
    r.extract .component r.components source = ⟨[], source⟩ := by
  obtain ⟨hpatterns, -⟩ := Resolution.parts_of_ofManifest hr
  have hparts : r.components = .seq (declarationParts .component m.convention.components) :=
    ofText?_patternText h (hpatterns .component)
  have hpieces : r.components.pieces source = ⟨[], source⟩ := by
    refine pieces_of_unmatched fun place hplace => ?_
    cases hmatch : matchAt r.components place with
    | none => rfl
    | some found =>
      rw [hparts] at hmatch
      obtain ⟨⟨bound, hlooks⟩, hfront, -⟩ := looksUp_of_matchAt hmatch
      exact absurd (hlooks.call_infix.trans (hfront.isInfix.trans hplace.isInfix)) habsent
  rw [Resolution.extract, hpieces]
  rfl

-- Directives are listed with a prefix and looked up without it. When the pattern lists the keys of
-- the table that have the prefix, a statement is replaced if and only if a scan records its name
-- and erasing the prefix all over a key leaves the name. That is so for each recorded name in which
-- the prefix does not stand again.
theorem directive_rewrite_erases_keys (m : Manifest) (r : Resolution)
    (hmade : Convention.make m.convention.exports m.convention.texts = .ok m.convention)
    (hr : Resolution.ofManifest m = .ok r) (words : List (List Char))
    (hwords : Alternation words m.convention.texts.directives.toList)
    (hkeys : ∀ w, w ∈ words ↔ w ∈ prefixedKeys m.convention)
    (hchars : ∀ w ∈ words, ∀ c ∈ w, IsWordOrHyphen c) (front tail name back : List Char)
    (htail : IsName tail) (hname : '"' ∉ name) (hbang : back.head? ≠ some '!')
    (hsemi : back.head? ≠ some ';') :
    let export? := m.convention.directiveExport? (String.ofList name)
    let looked := words.map (Text.erase Convention.directivePrefix.toList)
    let line? := statementImport? m .directive looked tail name
    let left := front ++ (statement .directive tail name ++ back)
    (export?.isSome ↔ Convention.directivePrefix.toList ++ name ∈ words) ∧
    (line?.isSome ↔ export?.isSome ∧ name ∈ looked) ∧
    (¬Convention.directivePrefix.toList <:+: name → (line?.isSome ↔ export?.isSome)) ∧
    (∀ line, line? = some line → ∃ exported, export? = some exported ∧
      line = Import.Specifier.text m.internalPath ⟨exported.toList, stem .directive ++ tail⟩) ∧
    r.extract .directive r.directives left =
      (r.extract .directive r.directives front).around (statement .directive tail name) line?
        (r.extract .directive r.directives back) ∧
    (¬call .component <:+: left → (r.extract .component r.components left).text = left) ∧
    (∀ components : List (List Char), components ≠ [] →
      (∀ w ∈ components, ∀ c ∈ w, IsWordOrHyphen c) →
      Alternation components m.convention.texts.components.toList →
      (r.extract .component r.components left).text =
        (r.extract .component r.components front).text ++ (statement .directive tail name ++
          (r.extract .component r.components back).text)) ∧
    ∀ source, (r.extract .component r.components source).text = left →
      (∀ line, line? = some line → ∃ (imports : List (List Char)) (text : List Char),
        r.replace? (String.ofList source) = some (String.ofList (imports.flatten ++ text)) ∧
          line ∈ imports) ∧
      (line? = none → ∀ rewritten, r.replace? (String.ofList source) = some rewritten →
        statement .directive tail name <:+: rewritten.toList) := by
  intro export? looked line? left
  obtain ⟨hcomponents, hdirectives⟩ := ofText?_of_make hmade
  obtain ⟨hpatterns, -⟩ := Resolution.parts_of_ofManifest hr
  have hpass := extract_directive hdirectives hr hchars hwords hkeys front htail hname hbang hsemi
  have hexport : export?.isSome ↔ Convention.directivePrefix.toList ++ name ∈ words := by
    rw [hkeys, mem_prefixedKeys_iff, ← directiveExport?_eq hdirectives hchars hwords hkeys]
  have hline : line?.isSome ↔ export?.isSome ∧ name ∈ looked := by
    by_cases hmem : name ∈ looked <;>
      simp [line?, export?, statementImport?, hmem, Convention.exportOf?]
  refine ⟨hexport, hline, ?_, ?_, hpass, ?_, ?_, ?_⟩
  · intro habsent
    rw [hline, and_iff_left_iff_imp, hexport]
    intro hmem
    refine List.mem_map.mpr ⟨_, hmem, ?_⟩
    rw [Text.erase_append (by decide), Text.erase_of_absent habsent]
  · intro line hsome
    have hmem : name ∈ looked := (hline.mp (by simp [hsome])).2
    have hmap : export?.map (fun exported => Import.Specifier.text m.internalPath
        ⟨exported.toList, stem .directive ++ tail⟩) = some line := by
      rw [← hsome]
      exact (if_pos hmem).symm
    obtain ⟨exported, hexported, hmade⟩ := Option.map_eq_some_iff.mp hmap
    exact ⟨exported, hexported, hmade.symm⟩
  · intro habsent
    rw [extract_component_of_absent hcomponents hr habsent]
  · intro components hne hcomponentsChars hlisted
    obtain ⟨p, hp, hfinds⟩ : ∃ p, ofText? (Resolution.patternText .component
        m.convention.texts.components) = some p ∧ Finds p (ofKind .component fun _ => components) :=
      exists_finds hlisted hne hcomponentsChars
    obtain rfl : p = r.components := Option.some.inj (hp.symm.trans (hpatterns .component))
    rw [extract_unlisted r hfinds front back htail hname (not_and_of_not_left _ (by decide))]
    rfl
  · intro source hleft
    refine ⟨fun line hsome => ?_, fun hnone rewritten hrewritten => ?_⟩
    · refine replace?_of_mem_imports r (List.mem_append_right _ ?_)
      rw [hleft, hpass]
      simp [Resolution.Extract.around, show statementImport? m .directive looked tail name =
        some line from hsome, looked]
    · refine infix_of_replace? ?_ hrewritten
      rw [hleft, hpass, show statementImport? m .directive looked tail name = none from hnone]
      exact Resolution.Extract.infix_around _ _ _

-- Of the small library's directives the one key holds the prefix at its start alone.
theorem directive_rewrite_erases_keys_small :
    ∃ r, Resolution.ofManifest .small = .ok r ∧
      let pass := r.extract .directive r.directives
      let ripple := statement .directive "ripple".toList "ripple".toList
      let source := "\n".toList ++ (ripple ++ "\n".toList)
      let line :=
        "import \x7b Ripple as _directive_ripple \x7d from 'quasar/src/index.prod.js';\n".toList
      (r.extract .component r.components source).text = source ∧
      pass source = (pass "\n".toList).around ripple (some line) (pass "\n".toList) ∧
      ∃ (imports : List (List Char)) (text : List Char), r.replace? (String.ofList source) =
        some (String.ofList (imports.flatten ++ text)) ∧ line ∈ imports := by
  obtain ⟨r, hr, -⟩ := exists_serves Vocabulary.small_fits
  have hkeys : prefixedKeys Manifest.small.convention = Vocabulary.small.directives := by decide
  obtain ⟨-, -, -, -, hpass, habsent, -, hreplace⟩ := directive_rewrite_erases_keys .small r
    make_small hr Vocabulary.small.directives Vocabulary.small_fits.directives
    (fun w => by rw [hkeys]) (by decide) "\n".toList "ripple".toList "ripple".toList "\n".toList
    (by decide) (by decide) (by decide) (by decide)
  have himport : statementImport? .small .directive
      (Vocabulary.small.directives.map (Text.erase Convention.directivePrefix.toList))
      "ripple".toList "ripple".toList = some
        "import \x7b Ripple as _directive_ripple \x7d from 'quasar/src/index.prod.js';\n".toList := by
    decide +kernel
  have hleft := habsent (by decide)
  rw [himport] at hpass
  exact ⟨r, hr, hleft, hpass, (hreplace _ hleft).1 _ himport⟩

-- A library with a directive whose name has the prefix again further inside.
def navigation : Manifest :=
  let texts : Patterns := ⟨"(NavLink)", "(v-nav-link)"⟩
  .standard "2.16.0" ⟨[("v-nav-link", "NavLink")], texts,
    (ofText? texts.components).getD (.alt []), (ofText? texts.directives).getD (.alt [])⟩

-- A scan records the directive, but the statement that looks it up stays.
theorem inner_prefix_not_replaced :
    ∃ r, Resolution.ofManifest navigation = .ok r ∧
      Convention.make navigation.convention.exports navigation.convention.texts =
        .ok navigation.convention ∧
      navigation.convention.texts.directives.toList =
        '(' :: bars (prefixedKeys navigation.convention) ++ [')'] ∧
      navigation.convention.directiveExport? "nav-link" = some "NavLink" ∧
      r.replace? (String.ofList
        (statement .directive "nav_link".toList "nav-link".toList ++ ['\n'])) = none := by
  have hreplace : (Resolution.ofManifest navigation).toOption.map (fun r =>
      r.replace? (String.ofList
        (statement .directive "nav_link".toList "nav-link".toList ++ ['\n']))) = some none := by
    decide +kernel
  obtain ⟨r, hr, hnone⟩ := Option.map_eq_some_iff.mp hreplace
  have hofManifest : Resolution.ofManifest navigation = .ok r := by
    cases h : Resolution.ofManifest navigation with
    | error fault => simp [h, Except.toOption] at hr
    | ok r' =>
      rw [h] at hr
      exact congrArg Except.ok (Option.some.inj hr)
  exact ⟨r, hofManifest, make_of_isSome (by decide +kernel) (by decide +kernel), by decide,
    by decide +kernel, hnone⟩

end Directives

end Treeshake.Source
