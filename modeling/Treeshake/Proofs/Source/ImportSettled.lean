import Treeshake.Proofs.Source.ImportScan

namespace Treeshake.Source.Import

open Barrel (Blanks)
open Text (Throughout throughout_append)

-- A name of a module that neither a blank nor a quote cuts short.
def Solid (name : List Char) : Prop := ∀ c ∈ name, Unicode.isBlank c = false ∧ ¬IsQuote c

instance (name : List Char) : Decidable (Solid name) :=
  inferInstanceAs (Decidable (∀ c ∈ name, _ ∧ _))

variable {library other list list' rest rest' : List Char}

-- The statement in front of its quotes.
def Layout.front (l : Layout) (list : List Char) : List Char :=
  "import".toList ++ (l.afterImport ++ '\x7b' :: (list ++ '\x7d' :: (l.afterList ++
    ("from".toList ++ l.afterFrom))))

-- The statement through its second quote. What follows is no matter for there being a statement.
def Layout.core (l : Layout) (library list : List Char) : List Char :=
  l.front list ++ l.opening :: (library ++ [l.closing])

theorem Layout.text_eq_core (l : Layout) (library list : List Char) :
    l.text library list = l.core library list ++ (l.trail ++ l.mark) := by
  delta Layout.text Layout.core Layout.front
  simp only [List.append_assoc, List.cons_append, List.nil_append]

theorem Layout.core_append (l : Layout) (library list rest : List Char) :
    l.core library list ++ rest = l.front list ++ l.opening :: (library ++ l.closing :: rest) := by
  delta Layout.core
  simp only [List.append_assoc, List.cons_append, List.nil_append]

theorem statement?_eq_none_iff {text : List Char} :
    statement? library text = none ↔ ∀ (l : Layout) (list : List Char), list ≠ [] →
      (∀ c ∈ list, isListed c = true) → ∀ rest, text ≠ l.core library list ++ rest := by
  constructor
  · rintro hnone l list hne hlisted behind rfl
    obtain ⟨trail, semicolon, htrail, hbehind, hend⟩ := exists_trail behind
    let l' : Layout := { l with trail := trail, semicolon := semicolon, trail_blank := htrail }
    have htext : l.core library list ++ behind = l'.text library list ++ afterTrail behind := by
      have hcore : l'.core library list = l.core library list := rfl
      have hmark : l'.mark = if semicolon then [';'] else [] := rfl
      rw [l'.text_eq_core, hcore, hmark, List.append_assoc, List.append_assoc, ← hbehind]
    rw [statement?_eq_some_iff.mpr ⟨hne, hlisted, l', htext, hend⟩] at hnone
    cases hnone
  · intro hnot
    rw [Option.eq_none_iff_forall_ne_some]
    rintro ⟨list, rest⟩ hread
    obtain ⟨hne, hlisted, l, htext, -⟩ := statement?_eq_some_iff.mp hread
    rw [l.text_eq_core, List.append_assoc] at htext
    exact hnot l list hne hlisted _ htext

section Quotes

theorem eq_of_first_quote {front front' back back' : List Char} {quote quote' : Char}
    (h : front ++ quote :: back = front' ++ quote' :: back') (hfront : ∀ c ∈ front, ¬IsQuote c)
    (hfront' : ∀ c ∈ front', ¬IsQuote c) (hquote : IsQuote quote) (hquote' : IsQuote quote') :
    front = front' ∧ back = back' := by
  have hspan := Text.span_unique (p := fun c => !decide (IsQuote c)) h (by simpa using hfront)
    (by simpa using hfront') (by simpa using hquote) (by simpa using hquote')
  exact ⟨hspan.1, (List.cons.inj hspan.2).2⟩

theorem not_quote_of_blanks {blanks : List Char} (h : Blanks blanks) :
    ∀ c ∈ blanks, ¬IsQuote c := by
  intro c hc hquote
  have hblank := h c hc
  rw [hquote.not_blank] at hblank
  cases hblank

theorem not_quote_of_listed {c : Char} (h : isListed c = true) : ¬IsQuote c := by
  rintro (rfl | rfl)
  · revert h
    decide
  · revert h
    decide

theorem Layout.not_quote_front (l : Layout) (hlist : ∀ c ∈ list, isListed c = true) :
    ∀ c ∈ l.front list, ¬IsQuote c := by
  have hwords : (∀ c ∈ "import".toList, ¬IsQuote c) ∧ (∀ c ∈ "from".toList, ¬IsQuote c) ∧
      ¬IsQuote '\x7b' ∧ ¬IsQuote '\x7d' := by decide
  obtain ⟨himport, hfrom, hopen, hclose⟩ := hwords
  intro c hc
  delta Layout.front at hc
  simp only [List.mem_append, List.mem_cons] at hc
  rcases hc with hc | hc | rfl | hc | rfl | hc | hc | hc
  · exact himport c hc
  · exact not_quote_of_blanks l.afterImport_blank c hc
  · exact hopen
  · exact not_quote_of_listed (hlist c hc)
  · exact hclose
  · exact not_quote_of_blanks l.afterList_blank c hc
  · exact hfrom c hc
  · exact not_quote_of_blanks l.afterFrom_blank c hc

-- Behind the first quote of a statement come its library and the second quote.
theorem Layout.core_behind_quote (l : Layout) {front behind : List Char} {quote : Char}
    (hlist : ∀ c ∈ list, isListed c = true) (hfront : ∀ c ∈ front, ¬IsQuote c)
    (hquote : IsQuote quote) (h : l.core library list ++ rest = front ++ quote :: behind) :
    behind = library ++ l.closing :: rest := by
  rw [l.core_append] at h
  exact (eq_of_first_quote h (l.not_quote_front hlist) hfront l.opening_quote hquote).2.symm

-- A text starts with statements from one library only.
theorem library_unique (l l' : Layout) (hlist : ∀ c ∈ list, isListed c = true)
    (hlist' : ∀ c ∈ list', isListed c = true) (hlibrary : Solid library) (hother : Solid other)
    (h : l.core library list ++ rest = l'.core other list' ++ rest') : library = other := by
  rw [l'.core_append] at h
  have hbehind := l.core_behind_quote hlist (l'.not_quote_front hlist') l'.opening_quote h
  exact (eq_of_first_quote hbehind.symm (fun c hc => (hlibrary c hc).2)
    (fun c hc => (hother c hc).2) l.closing_quote l'.closing_quote).1

end Quotes

section Opening

-- How statements start.
def Opening (text : List Char) : Prop :=
  ∃ blanks more, Blanks blanks ∧ text = "import".toList ++ (blanks ++ '\x7b' :: more)

theorem Layout.opening_core (l : Layout) (library list rest : List Char) :
    Opening (l.core library list ++ rest) := by
  refine ⟨l.afterImport, list ++ '\x7d' :: (l.afterList ++ ("from".toList ++ (l.afterFrom ++
    l.opening :: (library ++ l.closing :: rest)))), l.afterImport_blank, ?_⟩
  delta Layout.core Layout.front
  simp only [List.append_assoc, List.cons_append, List.nil_append]

theorem statement?_of_not_opening {text : List Char} (h : ¬Opening text) :
    statement? library text = none := by
  rw [statement?_eq_none_iff]
  rintro l list - - rest rfl
  exact h (l.opening_core library list rest)

def Unopened (word rest : List Char) : Prop := Throughout (fun text => ¬Opening text) word rest

theorem unopened_of_not_mem {word : List Char} (h : 'i' ∉ word) (rest : List Char) :
    Unopened word rest := by
  rintro before after rfl hafter ⟨blanks, more, -, heq⟩
  cases after with
  | nil => exact hafter rfl
  | cons c after =>
    rw [import_eq_cons, List.cons_append, List.cons_append] at heq
    simp [(List.cons.inj heq).1] at h

-- The first character that cannot be listed would be a brace that opens.
theorem not_opening_of_listed (hlist : ∀ c ∈ list, isListed c = true) (rest : List Char) :
    ¬Opening (list ++ '\x7d' :: rest) := by
  rintro ⟨blanks, more, hblanks, heq⟩
  have hword : ∀ c ∈ "import".toList ++ blanks, isListed c = true := by
    intro c hc
    rcases List.mem_append.mp hc with hc | hc
    · have hletters : ∀ c ∈ "import".toList, isListed c = true := by decide
      exact hletters c hc
    · exact listed_of_blanks hblanks c hc
  rw [← List.append_assoc] at heq
  have hspan := Text.span_unique heq hlist hword (by simp; decide) (by simp; decide)
  exact absurd (List.cons.inj hspan.2).1 (by decide)

theorem unopened_list (hlist : ∀ c ∈ list, isListed c = true) (rest : List Char) :
    Unopened (list ++ ['\x7d']) rest := by
  refine throughout_append ?_ (unopened_of_not_mem (by decide) rest)
  intro before after hsplit hafter
  exact not_opening_of_listed (fun c hc => hlist c (by simp [hsplit, hc])) rest

theorem not_mem_of_blanks {c : Char} {blanks : List Char} (h : Blanks blanks)
    (hc : Unicode.isBlank c = false) : c ∉ blanks := by
  intro hmem
  rw [h c hmem] at hc
  cases hc

-- In front of its library no other statement starts inside a statement.
theorem Layout.unopened_front (l : Layout) (hlist : ∀ c ∈ list, isListed c = true)
    (rest : List Char) :
    ∃ tail, l.front list ++ [l.opening] = 'i' :: tail ∧ Unopened tail rest := by
  refine ⟨("mport".toList ++ (l.afterImport ++ ['\x7b'])) ++ ((list ++ ['\x7d']) ++
    (l.afterList ++ ("from".toList ++ (l.afterFrom ++ [l.opening])))), ?_, ?_⟩
  · delta Layout.front
    rw [import_eq_cons]
    simp only [List.append_assoc, List.cons_append, List.nil_append]
  · have hafterImport := not_mem_of_blanks (c := 'i') l.afterImport_blank (by decide)
    have hafterList := not_mem_of_blanks (c := 'i') l.afterList_blank (by decide)
    have hafterFrom := not_mem_of_blanks (c := 'i') l.afterFrom_blank (by decide)
    have hopening : 'i' ≠ l.opening := l.opening_quote.ne (by decide)
    have hstart : 'i' ∉ "mport".toList ++ (l.afterImport ++ ['\x7b']) := by
      simp only [List.mem_append, not_or]
      exact ⟨by decide, hafterImport, by decide⟩
    have hend : 'i' ∉ l.afterList ++ ("from".toList ++ (l.afterFrom ++ [l.opening])) := by
      simp only [List.mem_append, List.mem_singleton, not_or]
      exact ⟨hafterList, by decide, hafterFrom, hopening⟩
    exact throughout_append (unopened_of_not_mem hstart _)
      (throughout_append (unopened_list hlist _) (unopened_of_not_mem hend rest))

end Opening

section Lines

variable {path : String} {s : Specifier}

theorem line_eq_core (path : String) (s : Specifier) :
    line path s = plainLayout.core path.toList s.listed ++ [';', '\n'] := by
  rw [line_eq_text, plainLayout.text_eq_core, List.append_assoc]
  rfl

-- No new line starts in a name with a quote behind it: the blank behind its `import` would be inside
-- of the name, or the quote inside of the word.
theorem throughout_ne_line {name : List Char} {quote : Char}
    (hname : ∀ c ∈ name, Unicode.isBlank c = false) (hquote : IsQuote quote)
    (rest more : List Char) :
    Throughout (fun text => text ≠ line path s ++ more) (name ++ [quote]) rest := by
  intro before after hsplit hne heq
  have hstart : ∃ tail, line path s ++ more = "import".toList ++ ' ' :: tail := by
    have hopen : "import \x7b ".toList = "import".toList ++ [' ', '\x7b', ' '] := by decide
    rw [line_eq]
    delta Specifier.text
    rw [hopen, List.append_assoc, List.append_assoc]
    exact ⟨_, rfl⟩
  obtain ⟨tail, hstart⟩ := hstart
  have hmem : quote ∈ after := by
    have hend := congrArg List.getLast? hsplit
    rw [List.getLast?_concat, List.getLast?_append_of_ne_nil before hne] at hend
    exact List.mem_of_getLast? hend.symm
  have hword : quote ∉ "import".toList := by
    have hletters : ∀ c ∈ "import".toList, ¬IsQuote c := by decide
    exact fun hmem => hletters _ hmem hquote
  have hblank : ∀ c ∈ after, Unicode.isBlank c = false := by
    intro c hc
    have hc : c ∈ name ++ [quote] := by simp [hsplit, hc]
    rcases List.mem_append.mp hc with hc | hc
    · exact hname c hc
    · rw [List.mem_singleton.mp hc]
      exact hquote.not_blank
  rw [hstart] at heq
  rcases List.append_eq_append_iff.mp heq with ⟨gap, hgap, -⟩ | ⟨gap, hgap, hmore⟩
  · exact hword (by simp [hgap, hmem])
  · cases gap with
    | nil => exact hword (by simpa [hgap] using hmem)
    | cons c gap =>
      obtain ⟨rfl, -⟩ := List.cons.inj hmore
      exact absurd (hblank ' ' (by simp [hgap])) (by decide)

-- No new line starts inside a statement, neither in front of its library nor in the name of it.
theorem Layout.not_line_inside (l : Layout) (hlist : ∀ c ∈ list, isListed c = true)
    (hlibrary : Solid library) {before after : List Char} (hbefore : before ≠ [])
    (hafter : after ≠ []) (hsplit : l.core library list = before ++ after) (more : List Char) :
    after ++ rest ≠ line path s ++ more := by
  have hcore : l.core library list = (l.front list ++ [l.opening]) ++ (library ++ [l.closing]) := by
    simp only [Layout.core, List.append_assoc, List.cons_append, List.nil_append]
  obtain ⟨tail, htail, hfront⟩ := l.unopened_front hlist ((library ++ [l.closing]) ++ rest)
  rw [hcore, htail, List.cons_append] at hsplit
  have hboth : Throughout (fun text => text ≠ line path s ++ more) (tail ++ (library ++ [l.closing]))
      rest := by
    refine throughout_append (fun first last hlast hne hmeet => ?_)
      (throughout_ne_line (fun c hc => (hlibrary c hc).1) l.closing_quote rest more)
    apply hfront first last hlast hne
    rw [hmeet, line_eq_core, List.append_assoc]
    exact plainLayout.opening_core path.toList s.listed _
  cases before with
  | nil => exact absurd rfl hbefore
  | cons c before => exact hboth before after (List.cons.inj hsplit).2 hafter

-- No statement starts in the rest of a line behind a piece of its path: its library would go on
-- with the semicolon and the line break.
theorem statement?_of_path {name : List Char} (hlibrary : Solid library)
    (hname : ∀ c ∈ name, ¬IsQuote c) (text : List Char) :
    statement? library (name ++ '\'' :: ';' :: '\n' :: text) = none := by
  rw [statement?_eq_none_iff]
  intro l list _ hlist rest heq
  have hbehind := l.core_behind_quote hlist hname (.inl rfl) heq.symm
  have hclosing : ∀ c ∈ [';', '\n'], ¬IsQuote c := by decide
  cases library with
  | nil =>
    obtain ⟨hsemicolon, -⟩ := List.cons.inj hbehind
    exact hclosing ';' (by simp) (hsemicolon ▸ l.closing_quote)
  | cons c library =>
    obtain ⟨rfl, hbreak⟩ := List.cons.inj hbehind
    cases library with
    | nil =>
      obtain ⟨hbreak, -⟩ := List.cons.inj hbreak
      exact hclosing '\n' (by simp) (hbreak ▸ l.closing_quote)
    | cons d library =>
      obtain ⟨rfl, -⟩ := List.cons.inj hbreak
      exact absurd (hlibrary '\n' (by simp)).1 (by decide)

-- No statement starts inside a new line.
theorem unread_line (hlibrary : Solid library) (hpath : Solid path.toList)
    (hne : library ≠ path.toList) (hlisted : ∀ c ∈ s.listed, isListed c = true)
    (text : List Char) :
    Throughout (fun text => statement? library text = none) (line path s) text := by
  have hline : line path s = (plainLayout.front s.listed ++ [plainLayout.opening]) ++
      (path.toList ++ ['\'', ';', '\n']) := by
    rw [line_eq_core]
    simp only [Layout.core, List.append_assoc, List.cons_append, List.nil_append]
    rfl
  have hunread {word rest : List Char} (h : Unopened word rest) :
      Throughout (fun text => statement? library text = none) word rest := by
    intro before after hsplit hafter
    exact statement?_of_not_opening (h before after hsplit hafter)
  have hfirst : statement? library (line path s ++ text) = none := by
    rw [statement?_eq_none_iff]
    intro l list _ hlist rest heq
    rw [line_eq_core, List.append_assoc] at heq
    exact hne (library_unique l plainLayout hlist hlisted hlibrary hpath heq.symm)
  have hback : Throughout (fun text => statement? library text = none)
      (path.toList ++ ['\'', ';', '\n']) text := by
    refine throughout_append ?_ (hunread (unopened_of_not_mem (by decide) text))
    intro before after hsplit hafter
    exact statement?_of_path hlibrary (fun c hc => (hpath c (by simp [hsplit, hc])).2) text
  obtain ⟨tail, htail, hfront⟩ := plainLayout.unopened_front hlisted
    ((path.toList ++ ['\'', ';', '\n']) ++ text)
  intro before after hsplit hafter
  cases before with
  | nil =>
    rw [List.nil_append] at hsplit
    exact hsplit ▸ hfirst
  | cons c before =>
    rw [hline, htail, List.cons_append] at hsplit
    exact throughout_append (hunread hfront) hback before after (List.cons.inj hsplit).2 hafter

theorem occurs_of_unread {word text : List Char}
    (h : Throughout (fun text => statement? library text = none) word text) :
    occurs library (word ++ text) = occurs library text := by
  induction word with
  | nil => rfl
  | cons c word ih =>
    have hhead : statement? library (c :: (word ++ text)) = none := h [] (c :: word) rfl (by simp)
    rw [List.cons_append, occurs, hhead]
    exact ih fun before after hsplit => h (c :: before) after (by rw [hsplit]; rfl)

end Lines

section Rewritten

variable {path : String} {text : List Char}

-- Every statement that the scan meets lists something.
def Full (library text : List Char) : Prop :=
  ∀ list rest, Meets library text list rest → specifiers list ≠ []

-- What is written for a text starts like the text itself, up to a first new line.
theorem exists_unchanged (path : String) (hfull : Full library text) :
    ∃ front more, front <+: text ∧ splitFrom library path 0 text = front ++ more ∧
      (more = [] ∨ ∃ s behind, more = line path s ++ behind) := by
  induction text with
  | nil => exact ⟨[], [], List.prefix_rfl, rfl, .inl rfl⟩
  | cons c text ih =>
    cases hread : statement? library (c :: text) with
    | none =>
      have hmore : Full library text := fun list rest h => hfull list rest (.char hread h)
      obtain ⟨front, more, hfront, hsplit, hcases⟩ := ih hmore
      refine ⟨c :: front, more, (List.cons_prefix_cons.mpr ⟨rfl, hfront⟩), ?_, hcases⟩
      rw [splitFrom_of_none hread, hsplit, List.cons_append]
    | some pair =>
      obtain ⟨list, rest⟩ := pair
      obtain ⟨s, others, hlist⟩ := List.exists_cons_of_ne_nil (hfull list rest (.here hread))
      have hsplit : splitFrom library path 0 (c :: text) =
          line path s ++ (others.flatMap (line path) ++ splitFrom library path 0 rest) := by
        rw [splitFrom_of_some hread, lines, hlist, List.flatMap_cons, List.append_assoc]
      exact ⟨[], _, List.nil_prefix, hsplit, .inr ⟨s, _, rfl⟩⟩

-- A statement at the start of a rewritten text has been there before the rewrite.
theorem statement?_cons_splitFrom {c : Char} (hlibrary : Solid library)
    (hnone : statement? library (c :: text) = none) (hfull : Full library text) :
    statement? library (c :: splitFrom library path 0 text) = none := by
  rw [statement?_eq_none_iff] at hnone ⊢
  intro l list hne hlist rest heq
  obtain ⟨front, more, hfront, hsplit, hmore⟩ := exists_unchanged path hfull
  have hbefore : ¬l.core library list <+: c :: text := by
    rintro ⟨behind, hbehind⟩
    exact hnone l list hne hlist behind hbehind.symm
  have hkept : c :: front <+: c :: text := List.cons_prefix_cons.mpr ⟨rfl, hfront⟩
  rw [hsplit, ← List.cons_append] at heq
  rcases List.append_eq_append_iff.mp heq.symm with ⟨gap, hgap, -⟩ | ⟨gap, hgap, hrest⟩
  · exact hbefore (List.IsPrefix.trans ⟨gap, hgap.symm⟩ hkept)
  · by_cases hnil : gap = []
    · rw [hnil, List.append_nil] at hgap
      exact hbefore (hgap ▸ hkept)
    · rcases hmore with rfl | ⟨s, behind, rfl⟩
      · exact hnil (List.append_eq_nil_iff.mp hrest.symm).1
      · exact l.not_line_inside hlist hlibrary (List.cons_ne_nil c front) hnil hgap behind
          hrest.symm

theorem isListed_of_mem_specifiers (hlist : ∀ c ∈ list, isListed c = true) {s : Specifier}
    (hs : s ∈ specifiers list) : ∀ c ∈ s.listed, isListed c = true := by
  intro c hc
  rcases Specifier.mem_listed hs hc with hc | hc
  · exact hlist c hc
  · have hword : ∀ c ∈ " as ".toList, isListed c = true := by decide
    exact hword c hc

theorem occurs_splitFrom (hlibrary : Solid library) (hpath : Solid path.toList)
    (hne : library ≠ path.toList) (text : List Char) (hfull : Full library text) :
    occurs library (splitFrom library path 0 text) = false := by
  induction text using scan_induction library with
  | nil => rfl
  | char c text hnone ih =>
    have hmore : Full library text := fun list rest h => hfull list rest (.char hnone h)
    rw [splitFrom_of_none hnone, occurs, statement?_cons_splitFrom hlibrary hnone hmore]
    exact ih hmore
  | statement text list rest hread ih =>
    have hrest := ih fun list' rest' h => hfull list' rest' (.behind hread h)
    obtain ⟨-, hlist, -⟩ := statement?_eq_some_iff.mp hread
    have hlines (specifiers : List Specifier)
        (h : ∀ s ∈ specifiers, ∀ c ∈ s.listed, isListed c = true) :
        occurs library (specifiers.flatMap (line path) ++ splitFrom library path 0 rest) =
          false := by
      induction specifiers with
      | nil => exact hrest
      | cons s specifiers ihs =>
        rw [List.flatMap_cons, List.append_assoc,
          occurs_of_unread (unread_line hlibrary hpath hne (h s (by simp)) _)]
        exact ihs fun s' hs' => h s' (by simp [hs'])
    rw [splitFrom_of_some hread]
    exact hlines _ fun s hs => isListed_of_mem_specifiers hlist hs

-- A rewritten text stays as it is when it is rewritten once more, if the path is another name than
-- the library, both without blanks and quotes, and each statement that is replaced leaves a line.
theorem split?_getD_split? (library path : String) (hne : library ≠ path)
    (hlibrary : Solid library.toList) (hpath : Solid path.toList) (source : String)
    (hfull : Full library.toList source.toList) :
    split? library path ((split? library path source).getD source) = none := by
  have hnone : occurs library.toList (splitFrom library.toList path 0 source.toList) = false :=
    occurs_splitFrom hlibrary hpath (fun h => hne (String.ext h)) source.toList hfull
  rw [split?, toList_getD_split?, hnone]
  rfl

-- Two statements without anything between them.
def adjacent : String :=
  "import \x7b QBtn \x7d from 'quasar';import \x7b QCard as Card \x7d from 'quasar'\nuse(Card)"

def adjacentLines : String :=
  "import \x7b QBtn as QBtn \x7d from 'quasar/src/index.prod.js';\n" ++
    "import \x7b QCard as Card \x7d from 'quasar/src/index.prod.js';\n\nuse(Card)"

theorem full_adjacent : Full "quasar".toList adjacent.toList := by
  have hfirst : statement? "quasar".toList adjacent.toList = some (" QBtn ".toList,
      "import \x7b QCard as Card \x7d from 'quasar'\nuse(Card)".toList) := by decide +kernel
  have hsecond : statement? "quasar".toList
      "import \x7b QCard as Card \x7d from 'quasar'\nuse(Card)".toList =
        some (" QCard as Card ".toList, "\nuse(Card)".toList) := by decide +kernel
  have hlast : occurs "quasar".toList "\nuse(Card)".toList = false := by decide +kernel
  intro list rest h
  rw [meets_of_some hfirst, meets_of_some hsecond] at h
  rcases h with ⟨rfl, -⟩ | ⟨rfl, -⟩ | h
  · decide +kernel
  · decide +kernel
  · exact absurd h (not_meets_of_not_occurs hlast)

theorem split?_getD_split?_adjacent :
    split? "quasar" barrelPath adjacent = some adjacentLines ∧
      split? "quasar" barrelPath adjacentLines = none := by
  have hlines : split? "quasar" barrelPath adjacent = some adjacentLines := by decide +kernel
  have hsettled := split?_getD_split? "quasar" barrelPath (by decide) (by decide) (by decide)
    adjacent full_adjacent
  rw [hlines, Option.getD_some] at hsettled
  exact ⟨hlines, hsettled⟩

end Rewritten

end Treeshake.Source.Import
