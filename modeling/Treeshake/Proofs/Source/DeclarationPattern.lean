import Treeshake.Proofs.Source.Declaration
import Treeshake.Source.Resolution

namespace Treeshake.Source

open Pattern Pattern.Reader
open Barrel (Blanks)
open Import (IsName IsNameChar)

section Parts

def localParts (kind : NameKind) : List Pattern :=
  literal (stem kind) ++ [.times 1 none true (.set nameSet)]

-- The parts between the local name and the name that is looked up.
def assignmentParts (kind : NameKind) : List Pattern :=
  blanks 0 :: (literal ['='] ++ blanks 0 :: literal (call kind))

-- The parts up to the name that is looked up, and those from it on.
def headParts (kind : NameKind) : List Pattern :=
  literal "const".toList ++ blanks 1 :: .group (some "local") (.seq (localParts kind)) ::
    assignmentParts kind

def tailParts (inner : Pattern) : List Pattern :=
  .group (some "name") inner :: (literal ['"', ')'] ++ [atMostOne '!', atMostOne ';'])

def declarationParts (kind : NameKind) (inner : Pattern) : List Pattern :=
  headParts kind ++ tailParts inner

variable {α : Type} {rest : Rest α}

theorem has_nameSet (c : Char) : nameSet.has c = true ↔ IsNameChar c := by
  simp [nameSet, CharSet.has, Property.holds, IsNameChar]

theorem takes_local (kind : NameKind) (h : Stops rest IsNameChar) :
    Takes (run (.seq (localParts kind))) (fun w => ∃ tail, w = stem kind ++ tail ∧ IsName tail)
      rest := by
  have hstop : Stops rest (nameSet.has · = true) :=
    fun behind c ahead captures hc => h behind c ahead captures ((has_nameSet c).mp hc)
  have hparts := (takes_times 1 hstop).after (takes_literal (stem kind) _)
  intro behind ahead captures r
  rw [run, localParts, runAll_append]
  refine (hparts behind ahead captures r).trans ?_
  constructor
  · rintro ⟨_, ahead', rfl, ⟨_, tail, rfl, rfl, hlen, htail⟩, hgo⟩
    refine ⟨_, ahead', rfl, ⟨tail, rfl, ?_, fun c hc => (has_nameSet c).mp (htail c hc)⟩, hgo⟩
    exact List.ne_nil_of_length_pos hlen
  · rintro ⟨_, ahead', rfl, ⟨tail, rfl, hne, htail⟩, hgo⟩
    refine ⟨_, ahead', rfl, ⟨_, tail, rfl, rfl, List.length_pos_of_ne_nil hne, ?_⟩, hgo⟩
    exact fun c hc => (has_nameSet c).mpr (htail c hc)

theorem head?_call (kind : NameKind) : ∃ more, call kind = '_' :: more := by
  cases kind <;> exact ⟨_, rfl⟩

end Parts

section Matching

variable {α : Type} {kind : NameKind} {words : List (List Char)} {inner : Pattern}

theorem runAll_marks {rest : Rest α} (hrest : Total rest) (behind ahead : List Char)
    (captures : Captures) (r : α) :
    runAll [atMostOne '!', atMostOne ';'] rest ⟨behind, ahead⟩ captures = some r ↔
      ∃ bang semicolon ahead', ahead = marked '!' bang ++ marked ';' semicolon ++ ahead' ∧
        (bang = false → (marked ';' semicolon ++ ahead').head? ≠ some '!') ∧
        (semicolon = false → ahead'.head? ≠ some ';') ∧
        rest ⟨(marked '!' bang ++ marked ';' semicolon).reverse ++ behind, ahead'⟩ captures =
          some r := by
  have hsecond := total_atMostOne ';' hrest
  simp only [runAll, run_atMostOne_eq_some_iff '!' hsecond]
  constructor
  · rintro ⟨bang, _, rfl, hbang, hgo⟩
    obtain ⟨semicolon, ahead', rfl, hsemi, hgo⟩ :=
      (run_atMostOne_eq_some_iff ';' hrest _ _ _ _).mp hgo
    exact ⟨bang, semicolon, ahead', by simp, hbang, hsemi, by simpa using hgo⟩
  · rintro ⟨bang, semicolon, ahead', rfl, hbang, hsemi, hgo⟩
    refine ⟨bang, marked ';' semicolon ++ ahead', by simp, hbang, ?_⟩
    refine (run_atMostOne_eq_some_iff ';' hrest _ _ _ _).mpr ⟨semicolon, ahead', rfl, hsemi, ?_⟩
    simpa using hgo

-- The text between a local name and the name that is looked up.
def IsAssignment (kind : NameKind) (w : List Char) : Prop :=
  ∃ before after, w = before ++ '=' :: (after ++ call kind) ∧ Blanks before ∧ Blanks after

theorem takes_assignment (rest : Rest α) :
    Takes (runAll (assignmentParts kind)) (IsAssignment kind) rest := by
  obtain ⟨more, hcall⟩ := head?_call kind
  have hstopCall : Stops (runAll (literal (call kind)) rest) (Unicode.isBlank · = true) := by
    rw [hcall]
    exact stops_blank_of_goesOnAt (goesOnAt_literal '_' more rest) (by decide)
  have hafter := (takes_literal (call kind) rest).after (takes_blanks 0 hstopCall)
  have hequals := hafter.after (takes_literal ['='] _)
  have hbefore := hequals.after (takes_blanks 0
    (stops_blank_of_goesOnAt (goesOnAt_literal '=' [] _) (by decide)))
  intro behind ahead captures r
  simp only [assignmentParts, runAll, runAll_append]
  refine (hbefore behind ahead captures r).trans ?_
  constructor
  · rintro ⟨_, ahead', rfl, ⟨before, _, rfl, ⟨-, hb⟩, _, _, rfl, rfl, after, _, rfl, ⟨-, ha⟩, rfl⟩,
      hgo⟩
    exact ⟨_, ahead', rfl, ⟨before, after, rfl, hb, ha⟩, hgo⟩
  · rintro ⟨_, ahead', rfl, ⟨before, after, rfl, hb, ha⟩, hgo⟩
    exact ⟨_, ahead', rfl, ⟨before, _, rfl, ⟨Nat.zero_le _, hb⟩, ['='], _, rfl, rfl, after, _, rfl,
      ⟨Nat.zero_le _, ha⟩, rfl⟩, hgo⟩

-- A local name is followed by none of its own characters.
theorem stops_assignment (kind : NameKind) (rest : Rest α) :
    Stops (runAll (assignmentParts kind) rest) IsNameChar := by
  refine (takes_assignment rest).stops (fun c w hc hw => ?_) ?_
  · obtain ⟨before, after, heq, hb, -⟩ := hw
    cases before with
    | nil =>
      obtain ⟨rfl, -⟩ := List.cons.inj heq
      exact absurd hc (by decide)
    | cons d before =>
      obtain ⟨rfl, -⟩ := List.cons.inj heq
      exact absurd hc.not_blank (by simp [hb c (by simp)])
  · rintro ⟨before, after, heq, -⟩
    simp at heq

theorem goesOnAt_local (kind : NameKind) {rest : Rest α} (hstop : Stops rest IsNameChar) :
    GoesOnAt '_' (run (.group (some "local") (.seq (localParts kind))) rest) := by
  intro behind ahead captures r hr
  obtain ⟨_, ahead', rfl, ⟨tail, rfl, -⟩, -⟩ := (run_group_eq_some_iff "local"
    (fun start => takes_local kind fun behind c ahead captures hc => hstop _ _ _ _ hc)
    behind ahead captures r).mp hr
  obtain ⟨more, hstem⟩ := head?_stem kind
  simp [hstem]

-- The text in front of the local name, that name, and the text up to the looked up name.
theorem runAll_head {rest : Rest α} (behind ahead : List Char) (captures : Captures) (r : α) :
    runAll (headParts kind) rest ⟨behind, ahead⟩ captures = some r ↔
      ∃ gap tail before after ahead', ahead = "const".toList ++ (gap ++ ((stem kind ++ tail) ++
          (before ++ '=' :: (after ++ (call kind ++ ahead'))))) ∧
        gap ≠ [] ∧ Blanks gap ∧ IsName tail ∧ Blanks before ∧ Blanks after ∧
        rest ⟨("const".toList ++ (gap ++ ((stem kind ++ tail) ++ (before ++ '=' ::
          (after ++ call kind))))).reverse ++ behind, ahead'⟩
          (("local", stem kind ++ tail) :: captures) = some r := by
  have hstop := stops_assignment kind rest
  have hlocal := run_group_eq_some_iff "local"
    (fun start => takes_local kind fun behind c ahead captures hc => hstop _ _ _ _ hc)
  have hgap := takes_blanks 1 (stops_blank_of_goesOnAt (goesOnAt_local kind hstop)
    (by decide))
  rw [headParts, runAll_append, runAll, runAll]
  constructor
  · intro hr
    obtain ⟨_, ahead, rfl, rfl, hgo⟩ := (takes_literal _ _ _ _ _ _).mp hr
    obtain ⟨gap, ahead, rfl, ⟨hlen, hblank⟩, hgo⟩ := (hgap _ _ _ _).mp hgo
    obtain ⟨_, ahead, rfl, ⟨tail, rfl, htail⟩, hgo⟩ := (hlocal _ _ _ _).mp hgo
    obtain ⟨_, ahead, rfl, ⟨before, after, rfl, hb, ha⟩, hgo⟩ :=
      (takes_assignment rest _ _ _ _).mp hgo
    refine ⟨gap, tail, before, after, ahead, by simp, List.ne_nil_of_length_pos hlen, hblank,
      htail, hb, ha, by simpa using hgo⟩
  · rintro ⟨gap, tail, before, after, ahead', rfl, hne, hblank, htail, hb, ha, hgo⟩
    refine (takes_literal _ _ _ _ _ _).mpr ⟨_, _, rfl, rfl, ?_⟩
    refine (hgap _ _ _ _).mpr ⟨gap, _, rfl, ⟨List.length_pos_of_ne_nil hne, hblank⟩, ?_⟩
    refine (hlocal _ _ _ _).mpr ⟨_, _, rfl, ⟨tail, rfl, htail⟩, ?_⟩
    refine (takes_assignment rest _ _ _ _).mpr ⟨before ++ '=' :: (after ++ call kind), ahead',
      by simp, ⟨before, after, rfl, hb, ha⟩, by simpa using hgo⟩

-- The looked up name in its quotes, and what closes the declaration.
theorem runAll_tail {rest : Rest α} (hrest : Total rest)
    (hinner : ∀ {rest : Rest α}, GoesOnAt '"' rest → Takes (run inner) (· ∈ words) rest)
    (behind ahead : List Char) (captures : Captures) (r : α) :
    runAll (tailParts inner) rest ⟨behind, ahead⟩ captures = some r ↔
      ∃ name bang semicolon ahead', ahead = name ++ '"' :: ')' ::
          (marked '!' bang ++ marked ';' semicolon ++ ahead') ∧
        name ∈ words ∧ (bang = false → (marked ';' semicolon ++ ahead').head? ≠ some '!') ∧
        (semicolon = false → ahead'.head? ≠ some ';') ∧
        rest ⟨(name ++ '"' :: ')' :: (marked '!' bang ++ marked ';' semicolon)).reverse ++ behind,
          ahead'⟩ (("name", name) :: captures) = some r := by
  have hquote := goesOnAt_literal '"' [')'] (runAll [atMostOne '!', atMostOne ';'] rest)
  have hname := run_group_eq_some_iff "name"
    (fun start => hinner fun behind ahead captures r hr => hquote behind ahead _ r hr)
  rw [tailParts, runAll, runAll_append]
  constructor
  · intro hr
    obtain ⟨name, ahead, rfl, hmem, hgo⟩ := (hname _ _ _ _).mp hr
    obtain ⟨_, ahead, rfl, rfl, hgo⟩ := (takes_literal _ _ _ _ _ _).mp hgo
    obtain ⟨bang, semicolon, ahead, rfl, hbang, hsemi, hgo⟩ := (runAll_marks hrest _ _ _ _).mp hgo
    exact ⟨name, bang, semicolon, ahead, by simp, hmem, hbang, hsemi, by simpa using hgo⟩
  · rintro ⟨name, bang, semicolon, ahead', rfl, hmem, hbang, hsemi, hgo⟩
    refine (hname _ _ _ _).mpr ⟨name, _, rfl, hmem, ?_⟩
    refine (takes_literal _ _ _ _ _ _).mpr ⟨_, _, rfl, rfl, ?_⟩
    exact (runAll_marks hrest _ _ _ _).mpr
      ⟨bang, semicolon, ahead', rfl, hbang, hsemi, by simpa using hgo⟩

-- The pattern for a kind matches where a declaration of that kind starts, and keeps its names.
theorem matchAt_declaration {names : NameKind → List (List Char)}
    (hnames : ∀ w ∈ names kind, ∀ c ∈ w, IsWordOrHyphen c)
    (hinner : ∀ {rest : Rest Match}, GoesOnAt '"' rest → Takes (run inner) (· ∈ names kind) rest)
    (behind text : List Char) (m : Match) :
    matchAt (.seq (declarationParts kind inner)) ⟨behind, text⟩ = some m ↔
      ∃ d rest, d.kind = kind ∧ Declares names text d rest ∧ m = d.found behind rest := by
  have hmatch : matchAt (.seq (declarationParts kind inner)) ⟨behind, text⟩ =
      runAll (headParts kind) (runAll (tailParts inner) (matched ⟨behind, text⟩)) ⟨behind, text⟩
        [] := by
    rw [← runAll_append]
    simp only [matchAt, run]
    rfl
  have htail := runAll_tail (r := m) (total_matched ⟨behind, text⟩) hinner
  rw [hmatch, runAll_head]
  constructor
  · rintro ⟨gap, tail, before, after, ahead, htext, hne, hgap, htl, hb, ha, hgo⟩
    obtain ⟨name, bang, semicolon, rest, rfl, hmem, hbang, hsemi, hgo⟩ := (htail _ _ _).mp hgo
    let d : Declaration := ⟨kind, gap, tail, before, after, name, bang, semicolon, hgap, hne, htl,
      hb, ha, hnames name hmem⟩
    have htext : text = d.text ++ rest := by
      rw [htext, d.text_append]
      simp [d, Declaration.bound, Declaration.closing]
    refine ⟨d, rest, rfl, ⟨htext, hmem, hbang, hsemi⟩, ?_⟩
    have hhead : "const".toList ++ (gap ++ ((stem kind ++ tail) ++ (before ++ '=' :: (after ++
        call kind)))) = d.head := rfl
    rw [matched, Option.some.injEq, htext, between_append, hhead] at hgo
    rw [← hgo]
    simp [d, Declaration.found, Declaration.text, Declaration.bound, Declaration.closing]
  · rintro ⟨d, rest, rfl, ⟨rfl, hmem, hbang, hsemi⟩, rfl⟩
    refine ⟨d.gap, d.tail, d.before, d.after, _, ?_, d.gap_ne, d.gap_blank, d.tail_name,
      d.before_blank, d.after_blank, (htail _ _ _).mpr
        ⟨d.name, d.bang, d.semicolon, rest, rfl, hmem, hbang, hsemi, ?_⟩⟩
    · rw [d.text_append]
      simp [Declaration.bound, Declaration.closing]
    · have hhead : "const".toList ++ (d.gap ++ ((stem d.kind ++ d.tail) ++ (d.before ++ '=' ::
          (d.after ++ call d.kind)))) = d.head := rfl
      rw [matched, between_append, hhead]
      simp [Declaration.found, Declaration.text, Declaration.bound, Declaration.closing]

end Matching

section Reading

-- The function that looks a name up.
def function : NameKind → List Char
  | .component => "_resolveComponent".toList
  | .directive => "_resolveDirective".toList

-- The text of the pattern for a kind up to the looked up names, cut into what is read in one step
-- each, and the text behind them.
def patternFront (kind : NameKind) : List Char :=
  "const".toList ++ '\\' :: 's' :: '+' ::
    '(' :: '?' :: 'P' :: '<' :: ("local".toList ++ '>' :: (stem kind ++
      '[' :: '\\' :: 'w' :: '$' :: ']' :: '+' :: ')' :: '\\' :: 's' :: '*' :: '=' ::
        '\\' :: 's' :: '*' :: (function kind ++ '\\' :: '(' :: '"' ::
          '(' :: '?' :: 'P' :: '<' :: ("name".toList ++ ['>']))))

def patternBack : List Char := ['"', '\\', ')', '!', '?', ';', '?']

theorem toList_patternText (kind : NameKind) (names : String) :
    (Resolution.patternText kind names).toList =
      patternFront kind ++ (names.toList ++ ')' :: patternBack) := by
  have hstart : "const\\s+(?P<local>".toList = "const".toList ++ '\\' :: 's' :: '+' ::
      '(' :: '?' :: 'P' :: '<' :: ("local".toList ++ ['>']) := by decide
  have hmid : "[\\w$]+)\\s*=\\s*".toList = ['[', '\\', 'w', '$', ']', '+', ')', '\\', 's', '*', '=',
      '\\', 's', '*'] := by decide
  have hname : "\\(\"(?P<name>".toList = '\\' :: '(' :: '"' :: '(' :: '?' :: 'P' :: '<' ::
      ("name".toList ++ ['>']) := by decide
  have hend : ")\"\\)!?;?".toList = ')' :: patternBack := by decide
  have htext : (Resolution.patternText kind names).toList = "const\\s+(?P<local>".toList ++ (stem kind ++
      ("[\\w$]+)\\s*=\\s*".toList ++ (function kind ++ ("\\(\"(?P<name>".toList ++
        (names.toList ++ ")\"\\)!?;?".toList))))) := by
    delta Resolution.patternText stem function
    cases kind <;> simp only [String.toList_append, List.append_assoc]
  rw [htext, hstart, hmid, hname, hend]
  delta patternFront
  simp only [List.append_assoc, List.cons_append, List.nil_append]

theorem stem_plain (kind : NameKind) : ∀ c ∈ stem kind, IsPlain c := by
  cases kind <;> decide

theorem function_plain (kind : NameKind) : ∀ c ∈ function kind, IsPlain c := by
  cases kind <;> decide

theorem head?_function (kind : NameKind) : ∃ more, function kind = '_' :: more := by
  cases kind <;> exact ⟨_, rfl⟩

theorem call_eq (kind : NameKind) : call kind = function kind ++ ['(', '"'] := by
  cases kind <;> decide

-- The group that is open where the looked up names stand in the pattern for a kind.
def namesFrame (kind : NameKind) : Frame := ⟨some "name", {}, [], (headParts kind).reverse, true⟩

theorem leads_front (kind : NameKind) (rest : List Char) :
    Leads .initial (patternFront kind ++ rest)
      ⟨{}, [namesFrame kind], [], [], false, ["name", "local"]⟩ rest := by
  obtain ⟨more, hfunction⟩ := head?_function kind
  have hlocal : Reader.sequence (.times 1 none true (.set nameSet) :: (literal (stem kind)).reverse) =
      .seq (localParts kind) := by
    obtain ⟨more, hstem⟩ := head?_stem kind
    rw [sequence_of_two_le (by simp [hstem, literal])]
    simp [localParts]
  have hopened {parts : List Pattern} (hparts : parts = (headParts kind).reverse) :
      Leads ⟨{}, [], [], parts, true, ["local"]⟩
        ('(' :: '?' :: 'P' :: '<' :: ("name".toList ++ '>' :: rest))
        ⟨{}, [namesFrame kind], [], [], false, ["name", "local"]⟩ rest := by
    subst hparts
    exact leads_openNamed (by decide) (by decide)
  delta patternFront
  simp only [List.append_assoc, List.cons_append, List.nil_append]
  refine (leads_word (by decide)).trans ?_
  refine leads_blank.trans ((leads_repetition (fun _ _ => rfl) (by simp)).trans ?_)
  refine (leads_openNamed (by decide) (by decide)).trans ((leads_word (stem_plain kind)).trans ?_)
  refine leads_nameSet.trans ((leads_repetition (fun _ _ => rfl) (by simp)).trans ?_)
  refine (leads_close rfl).trans ?_
  refine leads_blank.trans ((leads_repetition (fun _ _ => rfl) (by simp)).trans ?_)
  refine (leads_plain (by decide)).trans ?_
  refine leads_blank.trans ((leads_repetition (fun _ _ => rfl) (by simp [hfunction])).trans ?_)
  refine (leads_word (function_plain kind)).trans ((leads_escaped (by decide)).trans ?_)
  refine (leads_plain (by decide)).trans (hopened ?_)
  simp only [State.whole, List.append_nil, hlocal]
  simp [headParts, assignmentParts, literal, call_eq, blanks]

theorem leads_back (kind : NameKind) (inner : Pattern) (names : List String) :
    ∃ s : State, Leads ⟨{}, [], [], .group (some "name") inner :: (headParts kind).reverse, true, names⟩
        patternBack s [] ∧
      s.flags = {} ∧ s.frames = [] ∧ s.whole = .seq (declarationParts kind inner) := by
  have hdone {parts : List Pattern}
      (hparts : atMostOne ';' :: parts = (declarationParts kind inner).reverse) :
      Leads ⟨{}, [], [], .set (.only ';') :: parts, true, names⟩ ['?']
        ⟨{}, [], [], (declarationParts kind inner).reverse, true, names⟩ [] := by
    rw [← hparts]
    exact @leads_repetition _ _ _ _ _ '?' ⟨0, some 1⟩ _ (fun _ _ => rfl) (by simp)
  refine ⟨⟨{}, [], [], (declarationParts kind inner).reverse, true, names⟩, ?_, rfl, rfl, ?_⟩
  · refine (leads_plain (by decide)).trans ((leads_escaped (by decide)).trans ?_)
    refine (leads_plain (by decide)).trans ((leads_repetition (fun _ _ => rfl) (by simp)).trans ?_)
    refine (leads_plain (by decide)).trans (hdone ?_)
    simp [declarationParts, tailParts, literal, atMostOne]
  · simp [State.whole, Reader.sequence, declarationParts, headParts, tailParts, literal]

-- The pattern for a kind is read as its parts, with what its names are read as among them.
theorem exists_pattern {kind : NameKind} {words : List (List Char)} {names : String}
    (h : Alternation words names.toList) (hne : words ≠ [])
    (hplain : ∀ w ∈ words, ∀ c ∈ w, IsPlain c) :
    ∃ inner, (inner = wordsPattern words ∨ inner = .group none (wordsPattern words)) ∧
      ofText? (Resolution.patternText kind names) = some (.seq (declarationParts kind inner)) := by
  obtain ⟨inner, hinner, hnames⟩ := h.exists_inner hne hplain
  obtain ⟨s, hback, hflags, hframes, hwhole⟩ := leads_back kind inner ["name", "local"]
  refine ⟨inner, hinner, ?_⟩
  have hleads : Leads .initial (Resolution.patternText kind names).toList s [] := by
    rw [toList_patternText]
    exact (leads_front kind _).trans ((hnames rfl rfl).trans hback)
  have hinnerDepth : depth inner ≤ 3 := by
    have hwords := depth_wordsPattern_le words
    rcases hinner with rfl | rfl
    · omega
    · simp only [depth]
      omega
  have hdepth : depth (.seq (declarationParts kind inner)) ≤ depthLimit := by
    simp only [declarationParts, headParts, tailParts, assignmentParts, localParts, blanks,
      atMostOne, depth, depthAll, depthAll_append, depthAll_literal, depthLimit]
    omega
  rw [ofText?, hleads.readFrom?_eq hflags hframes, hwhole]
  simpa using hdepth

-- The pattern finds the declarations of the names, each where it starts, and nothing else.
def Finds (p : Pattern) (names : NameKind → List (List Char)) : Prop :=
  ∀ behind text m, matchAt p ⟨behind, text⟩ = some m ↔
    ∃ d rest, Declares names text d rest ∧ m = d.found behind rest

-- A pattern that lists names is read, and as one that finds the declarations of these names.
theorem exists_finds {kind : NameKind} {names : NameKind → List (List Char)} {listed : String}
    (h : Alternation (names kind) listed.toList) (hne : names kind ≠ [])
    (hchars : ∀ w ∈ names kind, ∀ c ∈ w, IsWordOrHyphen c) :
    ∃ p, ofText? (Resolution.patternText kind listed) = some p ∧ Finds p (ofKind kind names) := by
  have hplain : ∀ w ∈ names kind, ∀ c ∈ w, IsPlain c :=
    fun w hw c hc => (hchars w hw c hc).plain
  have hquote : ∀ w ∈ names kind, '"' ∉ w := by
    intro w hw hmem
    exact absurd (hchars w hw _ hmem) (by decide)
  obtain ⟨inner, hinner, hread⟩ := exists_pattern h hne hplain
  refine ⟨_, hread, fun behind text m => ?_⟩
  rw [matchAt_declaration hchars (fun hrest => takes_alternation hrest hquote hinner)]
  simp only [declares_ofKind_iff, and_assoc]

end Reading

end Treeshake.Source
