import Treeshake.Proofs.Source.ImportScan
import Treeshake.Proofs.Source.Statement
import Treeshake.Proofs.Source.TemplateImports

namespace Treeshake.Source

open Library Pattern
open Barrel (Blanks)

section Occurrences

variable {names names' : NameKind → List (List Char)} {text rest rest' : List Char}
  {d d' : Declaration} {segments : List Segment}

theorem marked_unique {mark : Char} {b b' : Bool}
    (h : marked mark b ++ rest = marked mark b' ++ rest')
    (hrest : b = false → rest.head? ≠ some mark) (hrest' : b' = false → rest'.head? ≠ some mark) :
    b = b' ∧ rest = rest' := by
  cases b <;> cases b'
  · exact ⟨rfl, h⟩
  · have hmark : rest = mark :: rest' := h
    simp [hmark] at hrest
  · have hmark : mark :: rest = rest' := h
    simp [← hmark] at hrest'
  · exact ⟨rfl, (List.cons.inj h).2⟩

-- Which name is looked up at a place, and where that ends, is told by the text.
theorem Declares.unique (h : Declares names text d rest) (h' : Declares names' text d' rest') :
    d.kind = d'.kind ∧ d.name = d'.name ∧ rest = rest' := by
  have hkind : d.kind = d'.kind := opening_unique h.opening h'.opening
  obtain ⟨front, hhead, hfree⟩ := d'.exists_head
  have htext : text = front ++ '"' :: (d'.name ++ (d'.closing ++ rest')) := by
    rw [h'.1, Declaration.text, hhead]
    simp only [List.append_assoc, List.cons_append, List.nil_append]
  obtain ⟨-, hbehind⟩ := Declares.of_quote hfree (htext ▸ h)
  obtain ⟨-, -, hbang, hsemi⟩ := h
  obtain ⟨-, -, hbang', hsemi'⟩ := h'
  simp only [Declaration.closing, List.cons_append, List.append_assoc] at hbehind
  obtain ⟨hname, hclosing⟩ := eq_of_quote d'.quote_not_mem_name d.quote_not_mem_name hbehind
  have hrest := (marked_unique (List.cons.inj hclosing).2 hbang' hbang).2
  exact ⟨hkind, hname.symm, (marked_unique hrest hsemi' hsemi).2.symm⟩

-- Wherever a declaration starts in a text, the cut of the text has one with the same name.
theorem Segmented.exists_of_declares (h : Segmented names text segments) {front back : List Char}
    (hsplit : text = front ++ back) (hd : Declares names back d rest) :
    ∃ fronts D backs, segments = fronts ++ .declaration D :: backs ∧ textOf fronts = front ∧
      textOf backs = rest ∧ D.kind = d.kind ∧ D.name = d.name := by
  induction h generalizing front with
  | nil =>
    obtain ⟨-, rfl⟩ := List.append_eq_nil_iff.mp hsplit.symm
    exact absurd hd (not_declares_nil d rest)
  | @char c text segments hnone h ih =>
    cases front with
    | nil => exact absurd (hsplit ▸ hd) (hnone d rest)
    | cons e front =>
      obtain ⟨rfl, hmore⟩ := List.cons.inj hsplit
      obtain ⟨fronts, D, backs, rfl, rfl, hrest⟩ := ih hmore
      exact ⟨.char c :: fronts, D, backs, rfl, rfl, hrest⟩
  | @declaration text behind D segments hD h ih =>
    have hinside (front : List Char) (hsplit : behind = front ++ back) :
        ∃ fronts D' backs, .declaration D :: segments = fronts ++ .declaration D' :: backs ∧
          textOf fronts = D.text ++ front ∧ textOf backs = rest ∧ D'.kind = d.kind ∧
            D'.name = d.name := by
      obtain ⟨fronts, D', backs, rfl, rfl, hrest⟩ := ih hsplit
      exact ⟨.declaration D :: fronts, D', backs, rfl, textOf_cons _ _, hrest⟩
    cases front with
    | nil =>
      obtain rfl : text = back := hsplit
      obtain ⟨hkind, hname, rfl⟩ := hD.unique hd
      exact ⟨[], D, segments, rfl, rfl, h.textOf_eq, hkind, hname⟩
    | cons e front =>
      rw [hD.1] at hsplit
      rcases List.append_eq_append_iff.mp hsplit with ⟨x, hx, hback⟩ | ⟨x, hx, hback⟩
      · rw [hx]
        exact hinside x hback
      · by_cases hne : x = []
        · subst hne
          rw [List.append_nil] at hx
          have hsame := hinside [] (by simpa using hback.symm)
          rwa [List.append_nil, hx] at hsame
        · -- it would start inside of the one before
          obtain ⟨tail, htail, hquiet⟩ := D.quiet d.kind behind
          rw [htail, List.cons_append] at hx
          exact absurd (hback ▸ hd.opening) (hquiet front x (List.cons.inj hx).2 hne)

-- Every declaration of a text starts at a place for a statement, and a blank follows it, if
-- anything does.
def Standing (names : NameKind → List (List Char)) (text : List Char) : Prop :=
  ∀ front back d rest, text = front ++ back → Declares names back d rest →
    AtStatement front ∧ ∀ c ∈ rest.head?, Unicode.isBlank c = true

theorem standing_iff (h : Segmented names text segments) :
    Standing names text ↔ Placed segments := by
  constructor
  · rintro hstanding front d back rfl
    have hback := Segmented.of_append h
    cases hback with
    | declaration hd hrest =>
      rw [← hrest.textOf_eq] at hd
      refine hstanding _ _ d _ ?_ hd
      rw [← h.textOf_eq, textOf_append]
  · intro hplaced front back d rest hsplit hd
    obtain ⟨fronts, D, backs, rfl, rfl, rfl, -⟩ := h.exists_of_declares hsplit hd
    exact hplaced fronts D backs rfl

end Occurrences

section Settled

variable {m : Manifest} {v : Vocabulary} {r : Resolution} {segments : List Segment}

theorem mem_specifiersOf {kind : NameKind} {s : Import.Specifier} :
    s ∈ specifiersOf m kind segments ↔
      ∃ d, .declaration d ∈ segments ∧ d.kind = kind ∧ d.specifier? m = some s := by
  simp only [specifiersOf, declarationsOf, List.mem_filterMap]
  constructor
  · rintro ⟨d, ⟨segment, hmem, hd⟩, hs⟩
    cases segment with
    | char c => cases hd
    | declaration d' =>
      obtain ⟨hkind, hsome⟩ := Option.ite_none_right_eq_some.mp hd
      exact ⟨d', hmem, hkind, Option.some.inj hsome ▸ hs⟩
  · rintro ⟨d, hmem, hkind, hs⟩
    exact ⟨d, ⟨_, hmem, if_pos hkind⟩, hs⟩

theorem mem_importsOf {s : Import.Specifier} :
    s ∈ importsOf m segments segments ↔
      ∃ d, .declaration d ∈ segments ∧ d.specifier? m = some s := by
  rw [importsOf, List.mem_append, mem_specifiersOf, mem_specifiersOf]
  constructor
  · rintro (⟨d, hmem, -, hs⟩ | ⟨d, hmem, -, hs⟩)
    · exact ⟨d, hmem, hs⟩
    · exact ⟨d, hmem, hs⟩
  · rintro ⟨d, hmem, hs⟩
    cases hkind : d.kind with
    | component => exact .inl ⟨d, hmem, hkind, hs⟩
    | directive => exact .inr ⟨d, hmem, hkind, hs⟩

-- No declaration is left that would be replaced.
def Settled (m : Manifest) (segments : List Segment) : Prop :=
  ∀ d, .declaration d ∈ segments → d.mapped m = false

theorem settled_iff : Settled m segments ↔ importsOf m segments segments = [] := by
  simp only [Settled, List.eq_nil_iff_forall_not_mem, mem_importsOf, not_exists, not_and]
  constructor
  · intro h s d hmem hs
    have hunmapped := h d hmem
    rw [← isSome_specifier?, hs] at hunmapped
    cases hunmapped
  · intro h d hmem
    rw [← isSome_specifier?, Option.isSome_eq_false_iff, Option.isNone_iff_eq_none,
      Option.eq_none_iff_forall_ne_some]
    exact fun s hs => h s d hmem hs

theorem Settled.without_eq (h : Settled m segments) {drop : Declaration → Bool}
    (hdrop : ∀ d, drop d = true → d.mapped m = true) : without drop segments = segments := by
  rw [without, List.filter_eq_self]
  intro s hs
  cases s with
  | char c => rfl
  | declaration d =>
    have hunmapped := h d hs
    cases hd : drop d with
    | false => simp [hd]
    | true => simp [hdrop d hd] at hunmapped

theorem Settled.replace?_eq (hr : r.Serves m v) (h : Settled m segments) {source : String}
    (hsegmented : Segmented v.names source.toList segments) : r.replace? source = none := by
  have hdrop (kind : NameKind) : without (dropped m kind) segments = segments :=
    h.without_eq fun d hd => (Bool.and_eq_true_iff.mp hd).2
  have hleft : Segmented v.names (textOf (without (dropped m .component) segments)) segments := by
    rw [hdrop, hsegmented.textOf_eq]
    exact hsegmented
  rw [hr.replace?_eq hsegmented hleft, if_pos (settled_iff.mp h)]

theorem textOf_chars (w : List Char) : textOf (w.map .char) = w := by
  induction w with
  | nil => rfl
  | cons c w ih => rw [List.map_cons, textOf_char, ih]

-- The new text: its imports are plain characters.
def rewritten (m : Manifest) (segments : List Segment) : List Segment :=
  ((importsOf m segments segments).flatMap (Import.line m.internalPath)).map .char ++
    without (Declaration.mapped m) segments

theorem settled_rewritten (m : Manifest) (segments : List Segment) :
    Settled m (rewritten m segments) := by
  intro d hmem
  rcases List.mem_append.mp hmem with hmem | hmem
  · obtain ⟨c, -, hc⟩ := List.mem_map.mp hmem
    cases hc
  · simpa using (List.mem_filter.mp hmem).2

theorem textOf_rewritten (m : Manifest) (segments : List Segment) :
    textOf (rewritten m segments) =
      (importsOf m segments segments).flatMap (Import.line m.internalPath) ++
        textOf (without (Declaration.mapped m) segments) := by
  rw [rewritten, textOf_append, textOf_chars]

theorem Placed.replace?_eq (hr : r.Serves m v) (hplaced : Placed segments) {source : String}
    (h : Segmented v.names source.toList segments) :
    r.replace? source =
      if importsOf m segments segments = [] then none
      else some (String.ofList (textOf (rewritten m segments))) := by
  have hleft := h.without_of_placed hplaced (dropped m .component)
  rw [hr.replace?_eq h hleft, importsOf, specifiersOf_without_dropped, without_dropped_dropped,
    ← importsOf, textOf_rewritten]

theorem toList_getD_replace? (hr : r.Serves m v) (hplaced : Placed segments) {source : String}
    (h : Segmented v.names source.toList segments) :
    ((r.replace? source).getD source).toList = textOf (rewritten m segments) := by
  rw [hplaced.replace?_eq hr h]
  split
  · next hnone =>
    have hsettled : Settled m segments := settled_iff.mpr hnone
    rw [Option.getD_none, textOf_rewritten, hnone, hsettled.without_eq fun _ hd => hd,
      h.textOf_eq]
    rfl
  · rw [Option.getD_some, String.toList_ofList]

end Settled

section Lines

variable {m : Manifest} {v : Vocabulary} {segments : List Segment} {path : String}
  {s : Import.Specifier}

-- No declaration starts inside a new import.
theorem quiet_line (hpath : ∀ c ∈ path.toList, Unicode.isBlank c = false)
    (himported : ∀ c ∈ s.imported, Unicode.isBlank c = false)
    (hbound : ∀ c ∈ s.bound, Unicode.isBlank c = false) (kind : NameKind) (rest : List Char) :
    Quiet kind (Import.line path s) rest := by
  rw [Import.line_eq]
  delta Import.Specifier.text
  refine quiet_append (quiet_of_not_mem (by decide)) (quiet_append ?_ (quiet_append
    (quiet_of_not_mem (by decide)) (quiet_append ?_ (quiet_append (quiet_of_not_mem (by decide))
      (quiet_append ?_ (quiet_of_not_mem (by decide)))))))
  · exact quiet_of_next [' '] (by decide) himported blanks_one_space
  · exact quiet_of_next [' '] (by decide) hbound blanks_one_space
  · exact quiet_of_next [] (by decide) hpath (by simp [Blanks])

theorem still_lines (hpath : ∀ c ∈ path.toList, Unicode.isBlank c = false)
    {names : NameKind → List (List Char)} {specifiers : List Import.Specifier}
    (hspecifiers : ∀ s ∈ specifiers, (∀ c ∈ s.imported, Unicode.isBlank c = false) ∧
      ∀ c ∈ s.bound, Unicode.isBlank c = false) (rest : List Char) :
    Still names (specifiers.flatMap (Import.line path)) rest := by
  induction specifiers with
  | nil =>
    intro before after hsplit hne
    exact absurd (List.append_eq_nil_iff.mp hsplit.symm).2 hne
  | cons s specifiers ih =>
    rw [List.flatMap_cons]
    refine still_append (fun before after hsplit hne d rest' hd => ?_)
      (ih fun s' hs' => hspecifiers s' (List.mem_cons_of_mem s hs'))
    obtain ⟨himported, hbound⟩ := hspecifiers s List.mem_cons_self
    exact quiet_line hpath himported hbound d.kind _ before after hsplit hne hd.opening

-- What is imported are exports of the library, and locals of the template.
theorem not_blank_of_mem_importsOf
    (hexports : ∀ entry ∈ m.convention.exports, ∀ c ∈ entry.2.toList, Unicode.isBlank c = false)
    (hs : s ∈ importsOf m segments segments) :
    (∀ c ∈ s.imported, Unicode.isBlank c = false) ∧ ∀ c ∈ s.bound, Unicode.isBlank c = false := by
  obtain ⟨d, -, hd⟩ := mem_importsOf.mp hs
  obtain ⟨exported, hlookup, rfl⟩ := Option.map_eq_some_iff.mp hd
  obtain ⟨before, after, hentry, -⟩ := List.lookup_eq_some_iff.mp hlookup
  exact ⟨hexports (d.key, exported) (by simp [hentry]), d.bound_not_blank⟩

theorem Segmented.rewritten (hpath : ∀ c ∈ m.internalPath.toList, Unicode.isBlank c = false)
    (hexports : ∀ entry ∈ m.convention.exports, ∀ c ∈ entry.2.toList, Unicode.isBlank c = false)
    {names : NameKind → List (List Char)} {text : List Char} (h : Segmented names text segments)
    (hplaced : Placed segments) :
    Segmented names (textOf (rewritten m segments)) (Source.rewritten m segments) := by
  have hkept := h.without_of_placed hplaced (Declaration.mapped m)
  rw [Source.rewritten, textOf_append, textOf_chars]
  exact segmented_still (still_lines hpath (fun s hs => not_blank_of_mem_importsOf hexports hs) _)
    hkept

end Lines

section Rewritten

theorem mapped_congr (m : Manifest) {d d' : Declaration} (hkind : d.kind = d'.kind)
    (hname : d.name = d'.name) : d.mapped m = d'.mapped m := by
  rw [Declaration.mapped, Declaration.mapped, Declaration.key, Declaration.key, hkind, hname]

-- Where every declaration is a statement of its own, a rewrite leaves none that would be replaced,
-- and so has nothing to do the second time. Neither the path nor the exports need to be names, as
-- long as they hold no blanks.
theorem replace?_getD_replace? (m : Manifest) (v : Vocabulary) (hv : v.Fits m.convention.texts)
    (hpath : ∀ c ∈ m.internalPath.toList, Unicode.isBlank c = false)
    (hexports : ∀ entry ∈ m.convention.exports, ∀ c ∈ entry.2.toList, Unicode.isBlank c = false) :
    ∃ r, Resolution.ofManifest m = .ok r ∧ r.Serves m v ∧ ∀ source : String,
      Standing v.names source.toList →
        r.replace? ((r.replace? source).getD source) = none ∧
        ∀ front back d rest, ((r.replace? source).getD source).toList = front ++ back →
          Declares v.names back d rest → d.mapped m = false := by
  obtain ⟨r, hr, hserves⟩ := exists_serves hv
  refine ⟨r, hr, hserves, fun source hstanding => ?_⟩
  obtain ⟨segments, h⟩ := exists_segmented v.names source.toList
  have hplaced : Placed segments := (standing_iff h).mp hstanding
  have hresult := h.rewritten hpath hexports hplaced
  rw [← toList_getD_replace? hserves hplaced h] at hresult
  have hsettled := settled_rewritten m segments
  refine ⟨hsettled.replace?_eq hserves hresult, fun front back d rest hsplit hd => ?_⟩
  obtain ⟨fronts, D, backs, hsegments, -, -, hkind, hname⟩ := hresult.exists_of_declares hsplit hd
  rw [← mapped_congr m hkind hname]
  exact hsettled D (by simp [hsegments])

theorem replace?_getD_replace?_two_lines :
    ∃ r, Resolution.ofManifest .small = .ok r ∧
      Standing Vocabulary.small.names (textOf twoLines) ∧
      (r.replace? (String.ofList (textOf twoLines))).isSome = true ∧
      r.replace? ((r.replace? (String.ofList (textOf twoLines))).getD
        (String.ofList (textOf twoLines))) = none := by
  obtain ⟨r, hr, hserves, hsource⟩ := replace?_getD_replace? .small .small Vocabulary.small_fits
    (by decide) (by decide)
  have hstanding : Standing Vocabulary.small.names (textOf twoLines) :=
    (standing_iff segmented_twoLines).mpr standAlone_twoLines.placed
  have hstands : Standing Vocabulary.small.names (String.ofList (textOf twoLines)).toList := by
    rwa [String.toList_ofList]
  refine ⟨r, hr, hstanding, ?_, (hsource _ hstands).1⟩
  rw [standAlone_twoLines.placed.replace?_eq hserves segmented_twoLines.ofList,
    importsOf_twoLines, if_neg (by simp)]
  rfl

end Rewritten

end Treeshake.Source
