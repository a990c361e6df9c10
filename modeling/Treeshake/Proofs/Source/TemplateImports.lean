import Treeshake.Proofs.Source.Extraction
import Treeshake.Proofs.Usage.Contribution

namespace Treeshake.Source

open Library Pattern Pattern.Reader

section Alone

variable {m : Manifest} {v : Vocabulary}

theorem specifiersOf_without_dropped (m : Manifest) (segments : List Segment) :
    specifiersOf m .directive (without (dropped m .component) segments) =
      specifiersOf m .directive segments := by
  induction segments with
  | nil => rfl
  | cons s segments ih =>
    cases s with
    | char c => exact ih
    | declaration d =>
      cases hd : dropped m .component d with
      | true =>
        have hkind : d.kind ≠ .directive := by
          intro hkind
          simp [dropped, hkind] at hd
        rw [without_dropped hd, specifiersOf_other hkind, ih]
      | false =>
        rw [without_kept hd]
        by_cases hkind : d.kind = .directive
        · rw [specifiersOf_declaration hkind, specifiersOf_declaration hkind, ih]
        · rw [specifiersOf_other hkind, specifiersOf_other hkind, ih]

theorem without_dropped_dropped (m : Manifest) (segments : List Segment) :
    without (dropped m .directive) (without (dropped m .component) segments) =
      without (Declaration.mapped m) segments := by
  rw [without, without, without, List.filter_filter]
  refine List.filter_congr fun s _ => ?_
  cases s with
  | char c => rfl
  | declaration d => cases hkind : d.kind <;> simp [dropped, hkind]

-- Every declaration that stands alone is replaced by its import or stays as it is: the imports of
-- the mapped ones come first, of components and then of directives in their order, and behind them
-- is the text without the mapped ones.
theorem replace?_declarations (m : Manifest) (v : Vocabulary) (hv : v.Fits m.convention.texts) :
    ∃ r, Resolution.ofManifest m = .ok r ∧ r.Serves m v ∧ ∀ source : String,
      (∃ segments, Segmented v.names source.toList segments) ∧
      ∀ segments, Segmented v.names source.toList segments → StandAlone segments →
        r.replace? source =
          if importsOf m segments segments = [] then none
          else some (String.ofList
            ((importsOf m segments segments).flatMap (Import.Specifier.text m.internalPath) ++
              textOf (without (Declaration.mapped m) segments))) := by
  obtain ⟨r, hr, hserves⟩ := exists_serves hv
  refine ⟨r, hr, hserves, fun source => ⟨exists_segmented _ _, fun segments h halone => ?_⟩⟩
  have hleft := h.without halone (dropped m .component)
  rw [hserves.replace?_eq h hleft, importsOf, specifiersOf_without_dropped,
    without_dropped_dropped, Import.line_eq]
  rfl

-- The small library's names, and two declarations that look names of it up, for examples.
def Vocabulary.small : Vocabulary where
  components := ["QBtn".toList, "q-btn".toList, "QCard".toList, "q-card".toList]
  directives := ["v-ripple".toList]
  components_ne := by decide
  directives_ne := by decide
  components_chars := by decide
  directives_chars := by decide

theorem Vocabulary.small_fits : Vocabulary.small.Fits Manifest.small.convention.texts := by
  have hcomponents : Manifest.small.convention.texts.components.toList =
      '(' :: bars Vocabulary.small.components ++ [')'] := by decide
  have hdirectives : Manifest.small.convention.texts.directives.toList =
      '(' :: bars Vocabulary.small.directives ++ [')'] := by decide
  constructor
  · rw [hcomponents]
    exact .grouped
  · rw [hdirectives]
    exact .grouped

def Declaration.button : Declaration where
  kind := .component
  gap := [' ']
  tail := "q_btn".toList
  before := [' ']
  after := [' ']
  name := "q-btn".toList
  bang := false
  semicolon := false
  gap_blank := blanks_one_space
  gap_ne := one_space_ne_nil
  tail_name := by decide
  before_blank := blanks_one_space
  after_blank := blanks_one_space
  name_chars := by decide

def Declaration.ripple : Declaration :=
  { button with
    kind := .directive, tail := "ripple".toList, name := "ripple".toList
    tail_name := by decide, name_chars := by decide }

-- A component and a directive, on a line each.
def twoLines : List Segment := [.declaration .button, .char '\n', .declaration .ripple]

theorem declares_ripple : Declares Vocabulary.small.names Declaration.ripple.text .ripple [] := by
  refine ⟨(List.append_nil _).symm, by decide, by decide, by decide⟩

theorem segmented_ripple : Segmented Vocabulary.small.names ('\n' :: Declaration.ripple.text)
    [.char '\n', .declaration .ripple] :=
  .char (not_declares_of_head (by decide) _) (.declaration declares_ripple .nil)

theorem segmented_twoLines : Segmented Vocabulary.small.names (textOf twoLines) twoLines :=
  .declaration ⟨by simp [twoLines, textOf, Segment.text], by decide, by decide, by decide⟩
    segmented_ripple

theorem standAlone_twoLines : StandAlone twoLines := by
  have hblank : Segment.IsBlank (.char '\n') := by simp only [Segment.IsBlank]; decide
  intro front d back h
  match front with
  | [] =>
    obtain ⟨-, rfl⟩ := List.cons.inj h
    exact ⟨.inl (by simp), by simpa using hblank⟩
  | [s] => cases (List.cons.inj (List.cons.inj h).2).1
  | [s, t] =>
    simp only [twoLines, List.cons_append, List.nil_append, List.cons.injEq] at h
    obtain ⟨rfl, rfl, -, rfl⟩ := h
    exact ⟨.inr ⟨[], _, _, rfl, trivial, by simpa using hblank⟩, by simp⟩
  | s :: t :: u :: front => simp [twoLines] at h

theorem importsOf_twoLines : importsOf .small twoLines twoLines =
    [⟨"QBtn".toList, "_component_q_btn".toList⟩,
      ⟨"Ripple".toList, "_directive_ripple".toList⟩] := by
  decide

theorem text_twoLines : String.ofList
    ([⟨"QBtn".toList, "_component_q_btn".toList⟩, ⟨"Ripple".toList, "_directive_ripple".toList⟩].flatMap
      (Import.Specifier.text Manifest.small.internalPath) ++ ['\n']) =
      "import \x7b QBtn as _component_q_btn \x7d from 'quasar/src/index.prod.js';\n" ++
        "import \x7b Ripple as _directive_ripple \x7d from 'quasar/src/index.prod.js';\n\n" := by
  decide +kernel

theorem replace?_declarations_two_lines :
    ∃ r, Resolution.ofManifest .small = .ok r ∧ StandAlone twoLines ∧
      String.ofList (textOf twoLines) = "const _component_q_btn = _resolveComponent(\"q-btn\")\n" ++
        "const _directive_ripple = _resolveDirective(\"ripple\")" ∧
      r.replace? (String.ofList (textOf twoLines)) = some
        ("import \x7b QBtn as _component_q_btn \x7d from 'quasar/src/index.prod.js';\n" ++
          "import \x7b Ripple as _directive_ripple \x7d from 'quasar/src/index.prod.js';\n\n") := by
  obtain ⟨r, hr, -, hsource⟩ := replace?_declarations .small .small Vocabulary.small_fits
  have hsegmented := segmented_twoLines.ofList
  have hleft : textOf (without (Declaration.mapped .small) twoLines) = ['\n'] := by decide
  refine ⟨r, hr, standAlone_twoLines, by decide +kernel, ?_⟩
  rw [(hsource _).2 twoLines hsegmented standAlone_twoLines, importsOf_twoLines, hleft,
    if_neg (by simp), text_twoLines]

end Alone

section Distinct

variable {m : Manifest} {v : Vocabulary}

def mappedOf (m : Manifest) (kind : NameKind) (segments : List Segment) : List Declaration :=
  (declarationsOf kind segments).filter (Declaration.mapped m)

theorem kind_of_mem_mappedOf {kind : NameKind} {segments : List Segment} {d : Declaration}
    (h : d ∈ mappedOf m kind segments) : d.kind = kind := by
  obtain ⟨s, -, hs⟩ := List.mem_filterMap.mp (List.mem_of_mem_filter h)
  cases s with
  | char c => cases hs
  | declaration d' =>
    simp only [Option.ite_none_right_eq_some, Option.some.injEq] at hs
    exact hs.2 ▸ hs.1

theorem map_bound_specifiersOf (m : Manifest) (kind : NameKind) (segments : List Segment) :
    (specifiersOf m kind segments).map Import.Specifier.bound =
      (mappedOf m kind segments).map Declaration.bound := by
  rw [specifiersOf, mappedOf]
  induction declarationsOf kind segments with
  | nil => rfl
  | cons d ds ih =>
    cases hd : m.convention.canonical? d.key <;>
      simp [Declaration.specifier?, Declaration.mapped, hd, ← ih]

theorem bound_ne_of_kind_ne {d d' : Declaration} (h : d.kind ≠ d'.kind) : d.bound ≠ d'.bound :=
  fun heq => h (kind_eq_of_stem heq)

-- The imports bind a name twice if and only if two mapped declarations of one kind do. Nothing
-- keeps them from that: in functions of their own both are lawful.
theorem imports_distinct_iff (m : Manifest) (v : Vocabulary) (hv : v.Fits m.convention.texts) :
    ∃ r, Resolution.ofManifest m = .ok r ∧ r.Serves m v ∧
      ∀ (source : String) (segments left : List Segment),
      Segmented v.names source.toList segments →
      Segmented v.names (textOf (without (dropped m .component) segments)) left →
      (r.replace? source =
        if importsOf m segments left = [] then none
        else some (String.ofList
          ((importsOf m segments left).flatMap (Import.Specifier.text m.internalPath) ++
            textOf (without (dropped m .directive) left)))) ∧
      (((importsOf m segments left).map Import.Specifier.bound).Nodup ↔
        ((mappedOf m .component segments).map Declaration.bound).Nodup ∧
          ((mappedOf m .directive left).map Declaration.bound).Nodup) := by
  obtain ⟨r, hr, hserves⟩ := exists_serves hv
  refine ⟨r, hr, hserves, fun source segments left h hleft => ⟨?_, ?_⟩⟩
  · rw [hserves.replace?_eq h hleft, Import.line_eq]
  rw [importsOf, List.map_append, map_bound_specifiersOf, map_bound_specifiersOf,
    List.nodup_append]
  have hapart : ∀ a ∈ (mappedOf m .component segments).map Declaration.bound,
      ∀ b ∈ (mappedOf m .directive left).map Declaration.bound, a ≠ b := by
    intro a ha b hb
    obtain ⟨d, hd, rfl⟩ := List.mem_map.mp ha
    obtain ⟨d', hd', rfl⟩ := List.mem_map.mp hb
    refine bound_ne_of_kind_ne ?_
    rw [kind_of_mem_mappedOf hd, kind_of_mem_mappedOf hd']
    decide
  constructor
  · rintro ⟨hc, hd, -⟩
    exact ⟨hc, hd⟩
  · rintro ⟨hc, hd⟩
    exact ⟨hc, hd, hapart⟩

theorem imports_distinct_iff_two_lines :
    ∃ r, Resolution.ofManifest .small = .ok r ∧
      r.replace? (String.ofList (textOf twoLines)) = some
        ("import \x7b QBtn as _component_q_btn \x7d from 'quasar/src/index.prod.js';\n" ++
          "import \x7b Ripple as _directive_ripple \x7d from 'quasar/src/index.prod.js';\n\n") ∧
      ["_component_q_btn".toList, "_directive_ripple".toList].Nodup := by
  obtain ⟨r, hr, -, hsource⟩ := imports_distinct_iff .small .small Vocabulary.small_fits
  have hsegmented := segmented_twoLines.ofList
  have himports : importsOf .small twoLines [.char '\n', .declaration .ripple] =
      [⟨"QBtn".toList, "_component_q_btn".toList⟩,
        ⟨"Ripple".toList, "_directive_ripple".toList⟩] := by decide
  have hleft : textOf (without (dropped .small .directive)
      [.char '\n', .declaration .ripple]) = ['\n'] := by decide
  obtain ⟨hreplace, hdistinct⟩ := hsource _ twoLines _ hsegmented segmented_ripple
  rw [himports, hleft, if_neg (by simp), text_twoLines] at hreplace
  rw [himports] at hdistinct
  exact ⟨r, hr, hreplace, hdistinct.mpr ⟨by decide, by decide⟩⟩

-- Two functions that look the same component up.
def aroundFirst : List Char := "let f = () => \x7b\n  ".toList

def aroundSecond : List Char := "\n\x7d\nlet g = () => \x7b\n  ".toList

def aroundLast : List Char := "\n\x7d\n".toList

def twoFunctions : List Segment :=
  aroundFirst.map .char ++ .declaration .button ::
    (aroundSecond.map .char ++ .declaration .button :: (aroundLast.map .char ++ []))

theorem segmented_of_not_mem {names : NameKind → List (List Char)} {w text : List Char}
    {segments : List Segment} (hw : 'c' ∉ w) (h : Segmented names text segments) :
    Segmented names (w ++ text) (w.map .char ++ segments) := by
  induction w with
  | nil => exact h
  | cons c w ih =>
    have hc : c ≠ 'c' := fun hc => hw (by simp [hc])
    exact .char (not_declares_of_head hc _) (ih fun hmem => hw (by simp [hmem]))

theorem segmented_twoFunctions :
    Segmented Vocabulary.small.names (textOf twoFunctions) twoFunctions := by
  have hdeclares {rest : List Char} (hrest : rest.head? = some '\n') :
      Declares Vocabulary.small.names (Declaration.button.text ++ rest) .button rest :=
    ⟨rfl, by decide, by simp [Declaration.Ends, marked, Declaration.button, hrest]⟩
  have hlast : Segmented Vocabulary.small.names (aroundLast ++ []) (aroundLast.map .char ++ []) :=
    segmented_of_not_mem (by decide) .nil
  have hsecond := segmented_of_not_mem (w := aroundSecond) (by decide)
    (.declaration (hdeclares rfl) hlast)
  have hfirst := segmented_of_not_mem (w := aroundFirst) (by decide)
    (.declaration (hdeclares rfl) hsecond)
  exact hfirst.textOf_eq ▸ hfirst

-- Their local names are two bindings of two functions, and become two imports of one module.
theorem local_name_imported_twice :
    ∃ r, Resolution.ofManifest .small = .ok r ∧
      ∃ (imports : List Import.Specifier) (text : List Char),
        r.replace? (String.ofList (textOf twoFunctions)) = some (String.ofList
          (imports.flatMap (Import.Specifier.text Manifest.small.internalPath) ++ text)) ∧
        r.replace? (String.ofList (textOf twoFunctions)) = some
          ("import \x7b QBtn as _component_q_btn \x7d from 'quasar/src/index.prod.js';\n" ++
            "import \x7b QBtn as _component_q_btn \x7d from 'quasar/src/index.prod.js';\n" ++
            "let f = () => \x7b\n  \n\x7d\nlet g = () => \x7b\n  \n\x7d\n") ∧
        ¬(imports.map Import.Specifier.bound).Nodup := by
  obtain ⟨r, hr, hserves⟩ := exists_serves Vocabulary.small_fits
  have hsegmented := segmented_twoFunctions.ofList
  have hleft : Segmented Vocabulary.small.names
      (textOf (without (dropped .small .component) twoFunctions))
      (aroundFirst.map .char ++ (aroundSecond.map .char ++ (aroundLast.map .char ++ []))) := by
    rw [twoFunctions, textOf_without_chars, without_dropped (by decide), textOf_without_chars,
      without_dropped (by decide), textOf_without_chars]
    exact segmented_of_not_mem (by decide) (segmented_of_not_mem (by decide)
      (segmented_of_not_mem (by decide) .nil))
  have himports : importsOf .small twoFunctions (aroundFirst.map .char ++
      (aroundSecond.map .char ++ (aroundLast.map .char ++ []))) =
        [⟨"QBtn".toList, "_component_q_btn".toList⟩,
          ⟨"QBtn".toList, "_component_q_btn".toList⟩] := by
    decide
  have hreplace := hserves.replace?_eq hsegmented hleft
  rw [himports, if_neg (by simp), Import.line_eq] at hreplace
  refine ⟨r, hr, _, _, hreplace, ?_, by decide⟩
  rw [hreplace]
  decide +kernel

end Distinct

end Treeshake.Source
