import Treeshake.Proofs.Source.ImportList

namespace Treeshake.Source.Import

open Barrel (Blanks trimStart_append)

def IsQuote (c : Char) : Prop := c = '\'' ∨ c = '"'

instance (c : Char) : Decidable (IsQuote c) := inferInstanceAs (Decidable (_ ∨ _))

def LineBlanks (text : List Char) : Prop := ∀ c ∈ text, c = ' ' ∨ c = '\t'

structure Layout where
  afterImport : List Char
  afterList : List Char
  afterFrom : List Char
  opening : Char
  closing : Char
  trail : List Char
  semicolon : Bool
  afterImport_blank : Blanks afterImport
  afterList_blank : Blanks afterList
  afterFrom_blank : Blanks afterFrom
  opening_quote : IsQuote opening
  closing_quote : IsQuote closing
  trail_blank : LineBlanks trail

def Layout.mark (l : Layout) : List Char := if l.semicolon then [';'] else []

-- The statement with a list and a library, from `import` through the semicolon.
def Layout.text (l : Layout) (library list : List Char) : List Char :=
  "import".toList ++ (l.afterImport ++ '\x7b' :: (list ++ '\x7d' :: (l.afterList ++
    ("from".toList ++ (l.afterFrom ++ l.opening :: (library ++ l.closing ::
      (l.trail ++ l.mark)))))))

-- The text behind a statement has nothing left that would belong to it.
def Layout.Ends (l : Layout) (rest : List Char) : Prop :=
  l.semicolon = false → ∀ c ∈ rest.head?, c ≠ ' ' ∧ c ≠ '\t' ∧ c ≠ ';'

theorem Layout.text_append (l : Layout) (library list rest : List Char) :
    l.text library list ++ rest = "import".toList ++ (l.afterImport ++ '\x7b' :: (list ++ '\x7d' ::
      (l.afterList ++ ("from".toList ++ (l.afterFrom ++ l.opening :: (library ++ l.closing ::
        (l.trail ++ (l.mark ++ rest)))))))) := by
  delta Layout.text
  simp only [List.append_assoc, List.cons_append]

theorem import_eq_cons : "import".toList = 'i' :: "mport".toList := by decide

theorem Layout.text_eq_cons (l : Layout) (library list : List Char) :
    ∃ tail, l.text library list = 'i' :: tail := by
  delta Layout.text
  rw [import_eq_cons]
  exact ⟨_, rfl⟩

theorem after?_eq_some_iff {word text rest : List Char} :
    after? word text = some rest ↔ text = word ++ rest := by
  simp only [after?, Option.ite_none_right_eq_some, List.isPrefixOf_iff_prefix, Option.some.injEq]
  constructor
  · rintro ⟨⟨rest, rfl⟩, hrest⟩
    rw [← hrest, List.drop_left]
  · rintro rfl
    exact ⟨List.prefix_append _ _, List.drop_left⟩

theorem after?_append (word rest : List Char) : after? word (word ++ rest) = some rest :=
  after?_eq_some_iff.mpr rfl

theorem after?_cons (c : Char) (rest : List Char) : after? [c] (c :: rest) = some rest :=
  after?_append [c] rest

theorem afterQuote?_eq_some_iff {text rest : List Char} :
    afterQuote? text = some rest ↔ ∃ quote, IsQuote quote ∧ text = quote :: rest := by
  cases text with
  | nil => simp [afterQuote?]
  | cons c text =>
    simp only [afterQuote?, Option.ite_none_right_eq_some, Option.some.injEq, List.cons.injEq,
      Bool.or_eq_true, decide_eq_true_eq]
    constructor
    · rintro ⟨hquote, rfl⟩
      exact ⟨c, hquote, rfl, rfl⟩
    · rintro ⟨quote, hquote, rfl, rfl⟩
      exact ⟨hquote, rfl⟩

theorem IsQuote.not_blank {c : Char} (h : IsQuote c) : Unicode.isBlank c = false := by
  rcases h with rfl | rfl <;> decide

theorem IsQuote.ne {c mark : Char} (h : IsQuote c) (hmark : ¬IsQuote mark) : mark ≠ c :=
  fun heq => hmark (heq ▸ h)

-- What follows the blanks on a line and a semicolon behind them.
def afterTrail (text : List Char) : List Char :=
  let rest := text.dropWhile fun c => c == ' ' || c == '\t'
  (after? [';'] rest).getD rest

theorem exists_trail (text : List Char) :
    ∃ trail semicolon, LineBlanks trail ∧
      text = trail ++ ((if semicolon then [';'] else []) ++ afterTrail text) ∧
      (semicolon = false → ∀ c ∈ (afterTrail text).head?, c ≠ ' ' ∧ c ≠ '\t' ∧ c ≠ ';') := by
  have htrail : LineBlanks (text.takeWhile fun c => c == ' ' || c == '\t') := by
    intro c hc
    simpa using List.mem_takeWhile_imp hc
  have htext := (List.takeWhile_append_dropWhile (p := fun c => c == ' ' || c == '\t')
    (l := text)).symm
  cases hafter : after? [';'] (text.dropWhile fun c => c == ' ' || c == '\t') with
  | some rest =>
    refine ⟨_, true, htrail, ?_, by simp⟩
    rw [afterTrail, hafter, Option.getD_some, if_pos rfl, ← after?_eq_some_iff.mp hafter]
    exact htext
  | none =>
    refine ⟨_, false, htrail, by simp [afterTrail, hafter], fun _ c hc => ?_⟩
    rw [afterTrail, hafter, Option.getD_none] at hc
    have hhead := List.head?_dropWhile_not (fun c => c == ' ' || c == '\t') text
    rw [Option.mem_def.mp hc] at hhead
    refine ⟨by rintro rfl; simp at hhead, by rintro rfl; simp at hhead, ?_⟩
    rintro rfl
    obtain ⟨rest, hrest⟩ := List.head?_eq_some_iff.mp hc
    have hsome : after? [';'] (text.dropWhile fun c => c == ' ' || c == '\t') = some rest :=
      after?_eq_some_iff.mpr hrest
    rw [hafter] at hsome
    cases hsome

theorem afterTrail_append {trail rest : List Char} {semicolon : Bool} (htrail : LineBlanks trail)
    (hend : semicolon = false → ∀ c ∈ rest.head?, c ≠ ' ' ∧ c ≠ '\t' ∧ c ≠ ';') :
    afterTrail (trail ++ ((if semicolon then [';'] else []) ++ rest)) = rest := by
  have hdrop : ∀ c ∈ trail, (c == ' ' || c == '\t') = true := by simpa [LineBlanks] using htrail
  rw [afterTrail, List.dropWhile_append_of_pos hdrop]
  cases semicolon with
  | true => rfl
  | false =>
    cases rest with
    | nil => rfl
    | cons c rest =>
      obtain ⟨hspace, htab, hsemicolon⟩ := hend rfl c rfl
      have hstays : (c :: rest).dropWhile (fun c => c == ' ' || c == '\t') = c :: rest :=
        List.dropWhile_cons_of_neg (by simp [hspace, htab])
      have hnone : after? [';'] (c :: rest) = none := by
        simp [after?, Ne.symm hsemicolon]
      simp [hstays, hnone]

-- A statement that is read has a list of names and one of the layouts.
theorem exists_layout_of_statement? {library text list rest : List Char}
    (h : statement? library text = some (list, rest)) :
    list ≠ [] ∧ (∀ c ∈ list, isListed c = true) ∧
      ∃ l : Layout, text = l.text library list ++ rest ∧ l.Ends rest := by
  simp only [statement?, Option.bind_eq_bind, Option.bind_eq_some_iff, after?_eq_some_iff] at h
  obtain ⟨text₁, rfl, text₂, hopen, h⟩ := h
  split at h
  · cases h
  next hfull =>
  simp only [Option.bind_eq_some_iff, after?_eq_some_iff, afterQuote?_eq_some_iff,
    Option.pure_def, Option.some.injEq, Prod.mk.injEq] at h
  obtain ⟨text₃, hclose, text₄, hfrom, text₅, ⟨opening, hopening, hquote⟩, text₆, rfl, text₇,
    ⟨closing, hclosing, rfl⟩, hlist, hrest⟩ := h
  obtain ⟨blanks₁, hblanks₁, rfl⟩ := Text.exists_blanks_of_trimStart hopen
  obtain ⟨blanks₂, hblanks₂, rfl⟩ := Text.exists_blanks_of_trimStart hfrom
  obtain ⟨blanks₃, hblanks₃, rfl⟩ := Text.exists_blanks_of_trimStart hquote
  obtain ⟨trail, semicolon, htrail, htext₇, hend⟩ := exists_trail text₇
  have hrest' : afterTrail text₇ = rest := hrest
  rw [hrest'] at htext₇ hend
  have hlist₂ : text₂.takeWhile isListed = list := hlist
  have htext₂ := (List.takeWhile_append_dropWhile (p := isListed) (l := text₂)).symm
  rw [Text.drop_length_takeWhile] at hclose
  rw [hlist₂] at htext₂ hfull
  refine ⟨by simpa using hfull, fun c hc => ?_, ⟨blanks₁, blanks₂, blanks₃, opening, closing,
    trail, semicolon, hblanks₁, hblanks₂, hblanks₃, hopening, hclosing, htrail⟩, ?_, hend⟩
  · rw [← hlist₂] at hc
    exact List.mem_takeWhile_imp hc
  · rw [htext₂, hclose, htext₇]
    rw [Layout.text_append]
    rfl

theorem Layout.statement?_text {library list rest : List Char} (l : Layout) (hne : list ≠ [])
    (hlisted : ∀ c ∈ list, isListed c = true) (hend : l.Ends rest) :
    statement? library (l.text library list ++ rest) = some (list, rest) := by
  have htrail : afterTrail (l.trail ++ (l.mark ++ rest)) = rest :=
    afterTrail_append l.trail_blank hend
  have hquote (c : Char) (hc : IsQuote c) (text : List Char) :
      afterQuote? (c :: text) = some text :=
    afterQuote?_eq_some_iff.mpr ⟨c, hc, rfl⟩
  have hopen (text : List Char) :
      Text.trimStart (l.afterImport ++ '\x7b' :: text) = '\x7b' :: text :=
    trimStart_append l.afterImport_blank (by simp; decide)
  have hfrom (text : List Char) :
      Text.trimStart (l.afterList ++ ("from".toList ++ text)) = "from".toList ++ text :=
    trimStart_append l.afterList_blank (by simp; decide)
  have hname (text : List Char) :
      Text.trimStart (l.afterFrom ++ l.opening :: text) = l.opening :: text :=
    trimStart_append l.afterFrom_blank (by simpa using l.opening_quote.not_blank)
  have hlist (text : List Char) : (list ++ '\x7d' :: text).takeWhile isListed = list := by
    rw [List.takeWhile_append_of_pos hlisted, List.takeWhile_cons_of_neg (by decide),
      List.append_nil]
  have hempty : list.isEmpty = false := by simpa using hne
  rw [Layout.text_append]
  simp only [statement?, after?_append, after?_cons, hopen, hlist, hempty, List.drop_left, hfrom,
    hname, hquote _ l.opening_quote, hquote _ l.closing_quote, Option.bind_eq_bind,
    Option.bind_some, Bool.false_eq_true, if_false]
  exact congrArg (fun rest => some (list, rest)) htrail

theorem statement?_eq_some_iff {library text list rest : List Char} :
    statement? library text = some (list, rest) ↔
      list ≠ [] ∧ (∀ c ∈ list, isListed c = true) ∧
        ∃ l : Layout, text = l.text library list ++ rest ∧ l.Ends rest := by
  constructor
  · exact exists_layout_of_statement?
  · rintro ⟨hne, hlisted, l, rfl, hend⟩
    exact l.statement?_text hne hlisted hend

variable {library : List Char} {path : String}

theorem splitFrom_eq_drop (skip : Nat) (text : List Char) :
    splitFrom library path skip text = splitFrom library path 0 (text.drop skip) := by
  induction text generalizing skip with
  | nil => cases skip <;> rfl
  | cons c text ih =>
    cases skip with
    | zero => rfl
    | succ skip => exact ih skip

theorem splitFrom_of_none {c : Char} {text : List Char}
    (h : statement? library (c :: text) = none) :
    splitFrom library path 0 (c :: text) = c :: splitFrom library path 0 text := by
  rw [splitFrom, h]

theorem splitFrom_of_some {text list rest : List Char}
    (h : statement? library text = some (list, rest)) :
    splitFrom library path 0 text = lines path list ++ splitFrom library path 0 rest := by
  cases text with
  | nil => cases h
  | cons c text =>
    obtain ⟨-, -, l, htext, -⟩ := statement?_eq_some_iff.mp h
    obtain ⟨tail, htail⟩ := l.text_eq_cons library list
    rw [htail, List.cons_append] at htext
    obtain ⟨-, rfl⟩ := List.cons.inj htext
    have hskip : (tail ++ rest).length - rest.length = tail.length := by simp
    rw [splitFrom, h]
    simp only [hskip]
    rw [splitFrom_eq_drop, List.drop_left]

-- The statements that begin in the front part end in it.
def Apart (library front text : List Char) : Prop :=
  ∀ before after list rest, front = before ++ after → after ≠ [] →
    statement? library (after ++ text) = some (list, rest) → ∃ gap, rest = gap ++ text

theorem Apart.of_suffix {front front' text : List Char} (h : Apart library front text)
    (hsuffix : front' <:+ front) : Apart library front' text := by
  obtain ⟨lead, rfl⟩ := hsuffix
  intro before after list rest hfront hafter hread
  exact h (lead ++ before) after list rest (by rw [hfront, List.append_assoc]) hafter hread

-- A statement in the front part is the same one with and without a text behind that does not
-- prolong it.
theorem statement?_append_iff {front text list gap : List Char}
    (hhead : ∀ c ∈ text.head?, c ≠ ' ' ∧ c ≠ '\t' ∧ c ≠ ';') :
    statement? library (front ++ text) = some (list, gap ++ text) ↔
      statement? library front = some (list, gap) := by
  have hends (l : Layout) : l.Ends (gap ++ text) ↔ l.Ends gap := by
    cases gap with
    | cons c gap => simp [Layout.Ends]
    | nil =>
      have hnone : l.Ends [] := by simp [Layout.Ends]
      have htext : l.Ends text := fun _ => hhead
      simp [hnone, htext]
  rw [statement?_eq_some_iff, statement?_eq_some_iff]
  simp only [hends, ← List.append_assoc, List.append_left_inj]

theorem splitFrom_append {front text : List Char} (happart : Apart library front text)
    (hhead : ∀ c ∈ text.head?, c ≠ ' ' ∧ c ≠ '\t' ∧ c ≠ ';') :
    splitFrom library path 0 (front ++ text) =
      splitFrom library path 0 front ++ splitFrom library path 0 text := by
  induction hlength : front.length using Nat.strong_induction_on generalizing front with
  | _ length ih =>
    subst hlength
    cases front with
    | nil => rfl
    | cons c front =>
      cases hread : statement? library (c :: front ++ text) with
      | some pair =>
        obtain ⟨list, rest⟩ := pair
        obtain ⟨gap, rfl⟩ := happart [] (c :: front) list rest rfl (by simp) hread
        have hfront := (statement?_append_iff hhead).mp hread
        obtain ⟨-, -, l, htext, -⟩ := statement?_eq_some_iff.mp hfront
        have hsuffix : gap <:+ c :: front := ⟨_, htext.symm⟩
        have hshorter : gap.length < (c :: front).length := by
          obtain ⟨tail, htail⟩ := l.text_eq_cons library list
          rw [htext, htail]
          simp only [List.length_append, List.length_cons]
          omega
        rw [splitFrom_of_some hread, splitFrom_of_some hfront, List.append_assoc,
          ih gap.length hshorter (happart.of_suffix hsuffix) rfl]
      | none =>
        have hfront : statement? library (c :: front) = none := by
          cases hsome : statement? library (c :: front) with
          | none => rfl
          | some pair =>
            rw [(statement?_append_iff hhead).mpr hsome] at hread
            cases hread
        rw [List.cons_append] at hread
        rw [List.cons_append, splitFrom_of_none hread, splitFrom_of_none hfront, List.cons_append,
          ih front.length (by simp) (happart.of_suffix (List.suffix_cons c front)) rfl]

theorem occurs_append {front text list rest : List Char}
    (h : statement? library text = some (list, rest)) : occurs library (front ++ text) = true := by
  induction front with
  | nil =>
    cases text with
    | nil => cases h
    | cons c text => simp [occurs, h]
  | cons c front ih => simp [occurs, ih]

-- The only brace that opens anything stands behind the word and its blanks.
theorem Layout.text_eq_head (l : Layout) {list : List Char} (hlibrary : '\x7b' ∉ library)
    (hlist : ∀ c ∈ list, isListed c = true) :
    ∃ middle, '\x7b' ∉ middle ∧ l.text library list =
      ("import".toList ++ l.afterImport) ++ '\x7b' ::
        (middle ++ l.closing :: (l.trail ++ l.mark)) := by
  refine ⟨list ++ '\x7d' :: (l.afterList ++ ("from".toList ++ (l.afterFrom ++
    l.opening :: library))), ?_, ?_⟩
  · have hopening : '\x7b' ≠ l.opening := l.opening_quote.ne (by decide)
    have hlist' : '\x7b' ∉ list := fun hmem => absurd (hlist _ hmem) (by decide)
    have hafterList : '\x7b' ∉ l.afterList := fun hmem =>
      absurd (l.afterList_blank _ hmem) (by decide)
    have hafterFrom : '\x7b' ∉ l.afterFrom := fun hmem =>
      absurd (l.afterFrom_blank _ hmem) (by decide)
    simp [hlist', hafterList, hafterFrom, hopening, hlibrary]
  · delta Layout.text
    simp only [List.append_assoc, List.cons_append]

theorem Layout.not_mem_head (l : Layout) {c : Char} (hword : c ∉ "import".toList)
    (hblank : Unicode.isBlank c = false) : c ∉ "import".toList ++ l.afterImport := by
  intro hmem
  rcases List.mem_append.mp hmem with hmem | hmem
  · exact hword hmem
  · rw [l.afterImport_blank c hmem] at hblank
    cases hblank

theorem Layout.not_mem_trail (l : Layout) {c : Char} (hblank : Unicode.isBlank c = false)
    (hmark : c ≠ ';') : c ∉ l.trail ++ l.mark := by
  intro hmem
  rcases List.mem_append.mp hmem with hmem | hmem
  · rcases l.trail_blank c hmem with rfl | rfl <;> revert hblank <;> decide
  · rw [Layout.mark] at hmem
    split at hmem
    · exact hmark (List.mem_singleton.mp hmem)
    · cases hmem

theorem Layout.brace_not_mem_back (l : Layout) {middle : List Char} (hmiddle : '\x7b' ∉ middle) :
    '\x7b' ∉ middle ++ l.closing :: (l.trail ++ l.mark) := by
  have hclosing : '\x7b' ≠ l.closing := l.closing_quote.ne (by decide)
  have htrail := l.not_mem_trail (c := '\x7b') (by decide) (by decide)
  simp only [List.mem_append, List.mem_cons, not_or] at htrail ⊢
  exact ⟨hmiddle, hclosing, htrail⟩

-- The word of a statement is not found again behind its first letter.
theorem Layout.not_second_head (l l' : Layout) {front : List Char} (hfront : front ≠ [])
    (h : front ++ ("import".toList ++ l.afterImport) = "import".toList ++ l'.afterImport) :
    False := by
  cases front with
  | nil => exact hfront rfl
  | cons c front =>
    have hmem : 'i' ∈ front ++ ("import".toList ++ l.afterImport) := by simp
    have htail :
        front ++ ("import".toList ++ l.afterImport) = "mport".toList ++ l'.afterImport := by
      rw [import_eq_cons, List.cons_append, List.cons_append] at h
      rw [import_eq_cons]
      exact (List.cons.inj h).2
    rw [htail] at hmem
    rcases List.mem_append.mp hmem with hmem | hmem
    · revert hmem
      decide
    · exact absurd (l'.afterImport_blank 'i' hmem) (by decide)

-- Nor does it, with nothing but blanks, end a statement: behind the closing quote are no letters.
theorem Layout.not_head_at_end (l l' : Layout) {lead front more : List Char} (hmore : more ≠ [])
    (hfront : more <+: "import".toList ++ l.afterImport)
    (h : lead ++ l'.closing :: (l'.trail ++ l'.mark) = front ++ more) : False := by
  have hclosing : l'.closing ∉ more := by
    intro hmem
    have hletters : ∀ c ∈ "import".toList, ¬IsQuote c := by decide
    exact l.not_mem_head (fun hword => hletters _ hword l'.closing_quote)
      l'.closing_quote.not_blank (hfront.subset hmem)
  have hletter : 'i' ∈ more := by
    rw [import_eq_cons, List.cons_append] at hfront
    cases more with
    | nil => exact absurd rfl hmore
    | cons c more => simp [(List.cons_prefix_cons.mp hfront).1]
  rcases List.append_eq_append_iff.mp h with ⟨gap, -, hback⟩ | ⟨gap, -, hback⟩
  · cases gap with
    | nil =>
      rw [List.nil_append] at hback
      exact hclosing (hback ▸ List.mem_cons_self)
    | cons c gap =>
      have htrail : l'.trail ++ l'.mark = gap ++ more := (List.cons.inj hback).2
      exact l'.not_mem_trail (by decide) (by decide) (htrail ▸ List.mem_append_right gap hletter)
  · exact hclosing (by simp [hback])

-- A statement that began inside of another one would have its brace behind the only one there is,
-- or it would begin behind the closing quote.
theorem not_inside (l l' : Layout) {front more list list' rest rest' : List Char}
    (hlibrary : '\x7b' ∉ library) (hlist : ∀ c ∈ list, isListed c = true)
    (hlist' : ∀ c ∈ list', isListed c = true) (hfront : front ≠ []) (hmore : more ≠ [])
    (htext : l'.text library list' = front ++ more)
    (hrest : l.text library list ++ rest = more ++ rest') : False := by
  obtain ⟨middle, -, hshape⟩ := l.text_eq_head hlibrary hlist
  obtain ⟨middle', hmiddle', hshape'⟩ := l'.text_eq_head hlibrary hlist'
  rw [hshape, List.append_assoc] at hrest
  rw [hshape'] at htext
  have hnot : ¬more <+: "import".toList ++ l.afterImport := by
    intro hfront
    rw [← List.cons_append, ← List.append_assoc] at htext
    exact l.not_head_at_end l' hmore hfront htext
  rcases List.append_eq_append_iff.mp hrest with ⟨gap, rfl, hgap⟩ | ⟨gap, hhead, -⟩
  · cases gap with
    | nil => exact hnot (by simp)
    | cons c gap =>
      obtain ⟨rfl, -⟩ := List.cons.inj hgap
      rw [← List.append_assoc] at htext
      have hheads := (List.append_cons_inj_of_notMem (l'.not_mem_head (by decide) (by decide))
        (l'.brace_not_mem_back hmiddle')).mp htext
      exact l.not_second_head l' hfront hheads.1.symm
  · exact hnot ⟨gap, hhead.symm⟩

-- A statement never begins inside of another one, unless the library's name holds a brace.
theorem apart_of_brace_not_mem (hlibrary : '\x7b' ∉ library) (front : List Char) (l : Layout)
    {list : List Char} (hlist : ∀ c ∈ list, isListed c = true) (rest : List Char) :
    Apart library front (l.text library list ++ rest) := by
  intro before after list' rest' hfront hafter hread
  obtain ⟨-, hlist', l', htext, -⟩ := statement?_eq_some_iff.mp hread
  rcases List.append_eq_append_iff.mp htext with ⟨more, hmore, hrest⟩ | ⟨gap, -, hgap⟩
  · cases more with
    | nil => exact ⟨[], hrest.symm⟩
    | cons c more =>
      exact absurd hrest fun h => not_inside l l' hlibrary hlist hlist' hafter (by simp) hmore h
  · exact ⟨gap, hgap⟩

-- A statement with a list of items becomes one line for each specifier that is read off the list,
-- whatever stands around it. These are the specifiers as they are written, in their order, exactly
-- if every item is spaced well.
theorem split?_statement (library path : String) (front rest : List Char) (l : Layout)
    (items : List Item) (closing : Option (List Char)) (hitems : items ≠ [])
    (hclosing : ∀ blanks ∈ closing, Blanks blanks) (hend : l.Ends rest)
    (happart : Apart library.toList front
      (l.text library.toList (listText items closing) ++ rest)) :
    split? library path (String.ofList
        (front ++ (l.text library.toList (listText items closing) ++ rest))) =
      some (String.ofList (splitFrom library.toList path 0 front ++
        ((specifiers (listText items closing)).flatMap (Specifier.text path) ++
          splitFrom library.toList path 0 rest))) ∧
    (specifiers (listText items closing) = items.map Item.specifier ↔
      ∀ i ∈ items, i.Spaced) := by
  have hread : statement? library.toList
      (l.text library.toList (listText items closing) ++ rest) =
        some (listText items closing, rest) :=
    statement?_eq_some_iff.mpr
      ⟨listText_ne_nil hitems closing, listed_listText hclosing, l, rfl, hend⟩
  have hhead : ∀ c ∈ (l.text library.toList (listText items closing) ++ rest).head?,
      c ≠ ' ' ∧ c ≠ '\t' ∧ c ≠ ';' := by
    obtain ⟨tail, htail⟩ := l.text_eq_cons library.toList (listText items closing)
    rw [htail]
    simp
  refine ⟨?_, specifiers_listText_eq_iff hclosing⟩
  rw [split?, String.toList_ofList, if_pos (occurs_append hread), splitFrom_append happart hhead,
    splitFrom_of_some hread, lines, line_eq]

def plainLayout : Layout where
  afterImport := [' ']
  afterList := [' ']
  afterFrom := [' ']
  opening := '\''
  closing := '\''
  trail := []
  semicolon := true
  afterImport_blank := by decide
  afterList_blank := by decide
  afterFrom_blank := by decide
  opening_quote := .inl rfl
  closing_quote := .inl rfl
  trail_blank := by simp [LineBlanks]

def buttonItem : Item where
  lead := "\n  ".toList
  name := "QBtn".toList
  renamed := none
  trail := []
  lead_blank := by decide
  name_name := by decide
  trail_blank := by decide

-- The blanks around `as` are no matter as long as spaces touch it.
def cardItem : Item where
  lead := "\n  ".toList
  name := "QCard".toList
  renamed := some {
    before := "\n ".toList
    after := " \t".toList
    bound := "Card".toList
    before_blank := by decide
    before_ne := by decide
    after_blank := by decide
    after_ne := by decide
    bound_name := by decide }
  trail := []
  lead_blank := by decide
  name_name := by decide
  trail_blank := by decide

theorem buttonItem_spaced : buttonItem.Spaced := by
  rintro ⟨-, -, -, hname, -⟩
  revert hname
  decide

theorem cardItem_spaced : cardItem.Spaced := by
  refine ⟨⟨['\n'], ['\t'], by decide, rfl, by decide⟩, ?_, ?_⟩
  · rintro ⟨-, -, -, hname, -⟩
    revert hname
    decide
  · rintro ⟨-, -, -, hbound, -⟩
    revert hbound
    decide

def barrelPath : String := "quasar/src/index.prod.js"

def twoItems : String :=
  "let a\nimport \x7b\n  QBtn,\n  QCard\n as \tCard,\n\x7d from 'quasar';\nuse(Card)"

theorem split?_statement_two_items :
    split? "quasar" barrelPath twoItems = some
      ("let a\nimport \x7b QBtn as QBtn \x7d from 'quasar/src/index.prod.js';\n" ++
        "import \x7b QCard as Card \x7d from 'quasar/src/index.prod.js';\n\nuse(Card)") := by
  have hclosing : ∀ blanks ∈ some ['\n'], Blanks blanks := by
    intro blanks hblanks
    cases hblanks
    decide
  have hspaced : ∀ i ∈ [buttonItem, cardItem], i.Spaced := by
    simpa using ⟨buttonItem_spaced, cardItem_spaced⟩
  obtain ⟨htext, hiff⟩ := split?_statement "quasar" barrelPath "let a\n".toList
    "\nuse(Card)".toList plainLayout [buttonItem, cardItem] (some ['\n']) (by simp) hclosing
    (by simp [Layout.Ends, plainLayout])
    (apart_of_brace_not_mem (by decide) _ _ (listed_listText hclosing) _)
  rw [hiff.mpr hspaced] at htext
  have hsource : twoItems = String.ofList ("let a\n".toList ++ (plainLayout.text "quasar".toList
      (listText [buttonItem, cardItem] (some ['\n'])) ++ "\nuse(Card)".toList)) := by
    decide +kernel
  rw [hsource, htext]
  decide +kernel

-- The new name stands on a line of its own.
def brokenItem : Item where
  lead := "\n  ".toList
  name := "QCard".toList
  renamed := some {
    before := " ".toList
    after := "\n    ".toList
    bound := "Card".toList
    before_blank := by decide
    before_ne := by decide
    after_blank := by decide
    after_ne := by decide
    bound_name := by decide }
  trail := "\n".toList
  lead_blank := by decide
  name_name := by decide
  trail_blank := by decide

-- The new name is lost there: the line imports nothing by the name that is written.
theorem bound_name_lost_at_line_break :
    ¬∀ (l : Layout) (items : List Item), items ≠ [] →
      split? "quasar" barrelPath (String.ofList (l.text "quasar".toList (listText items none))) =
        some (String.ofList ((items.map Item.specifier).flatMap (Specifier.text barrelPath))) := by
  intro h
  have hbroken := h plainLayout [brokenItem] (by simp)
  revert hbroken
  decide +kernel

end Treeshake.Source.Import
