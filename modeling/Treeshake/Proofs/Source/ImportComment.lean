import Treeshake.Proofs.Source.ImportScan
import Treeshake.Proofs.Text.Lines

namespace Treeshake.Source.Import

open Barrel (Blanks)
open Text (AllLines LaterLines allLines_iff laterLines_append laterLines_append_break
  laterLines_break laterLines_cons firstLine firstLine_append)

-- The line has nothing to execute, or is a comment.
def Muted (line : List Char) : Prop := Blanks line ∨ "//".toList <+: line

-- Every line that is not blank begins as a comment.
def Commented (text : List Char) : Prop := AllLines Muted text

instance (line : List Char) : Decidable (Muted line) := inferInstanceAs (Decidable (_ ∨ _))

instance (text : List Char) : Decidable (Commented text) :=
  inferInstanceAs (Decidable (∀ line ∈ Text.pieces ['\n'] text, Muted line))

variable {library list : List Char} {path : String} {text : List Char}

theorem not_muted {c : Char} (hblank : Unicode.isBlank c = false) (hslash : c ≠ '/')
    (line : List Char) : ¬Muted (c :: line) := by
  rintro (hblanks | ⟨more, hmore⟩)
  · rw [hblanks c List.mem_cons_self] at hblank
    cases hblank
  · have hmark : "//".toList = ['/', '/'] := by decide
    rw [hmark, List.cons_append] at hmore
    exact hslash (List.cons.inj hmore).1.symm

-- A list that is broken off would go on in a line that begins as no comment does.
theorem break_not_mem_list (hlist : ∀ c ∈ list, isListed c = true) {rest : List Char}
    (h : LaterLines Muted (list ++ '\x7d' :: rest)) : '\n' ∉ list := by
  induction list with
  | nil => simp
  | cons c list ih =>
    have hmore : ∀ c ∈ list, isListed c = true := fun d hd => hlist d (by simp [hd])
    by_cases hc : c = '\n'
    · subst hc
      rw [List.cons_append, laterLines_break, allLines_iff] at h
      exfalso
      have hline := h.1
      rw [firstLine_append (ih hmore h.2)] at hline
      have hbrace : firstLine ('\x7d' :: rest) = '\x7d' :: firstLine rest := rfl
      rw [hbrace] at hline
      rcases hline with hblanks | ⟨behind, hbehind⟩
      · exact absurd (hblanks '\x7d' (by simp)) (by decide)
      · have hmark : "//".toList = ['/', '/'] := by decide
        rw [hmark, List.cons_append] at hbehind
        cases list with
        | nil => exact absurd (List.cons.inj hbehind).1 (by decide)
        | cons d list =>
          obtain ⟨rfl, -⟩ := List.cons.inj hbehind
          exact absurd (hmore '/' (by simp)) (by decide)
    · rw [List.cons_append, laterLines_cons hc] at h
      simp only [List.mem_cons, not_or]
      exact ⟨Ne.symm hc, ih hmore h⟩

theorem break_not_mem_of_statement? {rest : List Char} (h : LaterLines Muted text)
    (hread : statement? library text = some (list, rest)) :
    '\n' ∉ list ∧ LaterLines Muted rest := by
  obtain ⟨-, hlist, l, rfl, -⟩ := statement?_eq_some_iff.mp hread
  refine ⟨?_, h.of_append⟩
  have hbehind : ∃ front back, l.text library list ++ rest = front ++ (list ++ '\x7d' :: back) := by
    refine ⟨"import".toList ++ (l.afterImport ++ ['\x7b']), l.afterList ++ ("from".toList ++
      (l.afterFrom ++ l.opening :: (library ++ l.closing :: (l.trail ++ (l.mark ++ rest))))), ?_⟩
    rw [l.text_append]
    simp only [List.append_assoc, List.cons_append, List.nil_append]
  obtain ⟨front, back, hsplit⟩ := hbehind
  rw [hsplit] at h
  exact break_not_mem_list hlist h.of_append

-- A line up to its break: it goes on behind the break, and else only the path could break it.
theorem laterLines_line {s : Specifier} (hs : '\n' ∉ s.listed) (rest : List Char) :
    LaterLines Muted (line path s ++ rest) ↔
      LaterLines Muted (path.toList ++ ['\'', ';']) ∧ Commented rest := by
  have hline : line path s ++ rest = "import \x7b".toList ++ (s.listed ++ ("\x7d from '".toList ++
      (path.toList ++ ['\'', ';']))) ++ '\n' :: rest := by
    have hopen : "import \x7b".toList = "import".toList ++ [' ', '\x7b'] := by decide
    have hfrom : "\x7d from '".toList = ['\x7d', ' '] ++ ("from".toList ++ [' ', '\'']) := by decide
    rw [line_eq_text, List.append_assoc, plainLayout.text_append, hopen, hfrom]
    simp only [List.append_assoc, List.cons_append, List.nil_append]
    rfl
  rw [hline, laterLines_append_break, laterLines_append (by decide), laterLines_append hs,
    laterLines_append (by decide)]
  exact Iff.rfl

theorem firstLine_line (path : String) (s : Specifier) (rest : List Char) :
    ¬Muted (firstLine (line path s ++ rest)) := by
  have hstart : ∃ more, line path s ++ rest = 'i' :: more := by
    obtain ⟨tail, htail⟩ := plainLayout.text_eq_cons path.toList s.listed
    rw [line_eq_text, htail]
    exact ⟨_, rfl⟩
  obtain ⟨more, hmore⟩ := hstart
  have hfirst : firstLine ('i' :: more) = 'i' :: firstLine more := rfl
  rw [hmore, hfirst]
  exact not_muted (by decide) (by decide) _

-- A line that is blank or a comment stays one.
theorem muted_firstLine_splitFrom (h : Muted (firstLine text)) :
    Muted (firstLine (splitFrom library path 0 text)) := by
  rcases h with hblanks | ⟨more, hmore⟩
  · left
    induction text with
    | nil => exact hblanks
    | cons c text ih =>
      by_cases hc : c = '\n'
      · subst hc
        rw [splitFrom_of_none (statement?_of_head (by decide) text)]
        simp [firstLine, Blanks]
      · have hfirst (rest : List Char) : firstLine (c :: rest) = c :: firstLine rest := by
          simp [firstLine, hc]
        rw [hfirst] at hblanks
        have hblank := hblanks c List.mem_cons_self
        have hhead : c ≠ 'i' := by
          rintro rfl
          revert hblank
          decide
        rw [splitFrom_of_none (statement?_of_head hhead text), hfirst]
        intro d hd
        rcases List.mem_cons.mp hd with rfl | hd
        · exact hblank
        · exact ih (blanks_of_cons hblanks) d hd
  · right
    have hmark : "//".toList = ['/', '/'] := by decide
    have hstart : ∃ rest, text = '/' :: '/' :: rest := by
      have hprefix := List.takeWhile_prefix (· != '\n') (l := text)
      rw [← firstLine, ← hmore, hmark] at hprefix
      obtain ⟨behind, hbehind⟩ := hprefix
      exact ⟨more ++ behind, hbehind.symm⟩
    obtain ⟨rest, rfl⟩ := hstart
    rw [splitFrom_of_none (statement?_of_head (by decide) _),
      splitFrom_of_none (statement?_of_head (by decide) _), hmark]
    exact ⟨firstLine (splitFrom library path 0 rest), rfl⟩

-- What is written for a statement stays a comment: nothing is imported, or one name, and then the
-- line goes on with blanks or with a comment. A path that breaks the line goes on in comments.
def StaysComment (library : List Char) (path : String) (list rest : List Char) : Prop :=
  specifiers list = [] ∨
    (∃ s, specifiers list = [s]) ∧ LaterLines Muted (path.toList ++ ['\'', ';']) ∧
      Muted (firstLine (splitFrom library path 0 rest))

theorem laterLines_lines {rest : List Char} (hlist : '\n' ∉ list) :
    LaterLines Muted (lines path list ++ splitFrom library path 0 rest) ↔
      StaysComment library path list rest ∧ LaterLines Muted (splitFrom library path 0 rest) := by
  have hbreak : ∀ s ∈ specifiers list, '\n' ∉ s.listed := by
    intro s hs hmem
    rcases Specifier.mem_listed hs hmem with hmem | hmem
    · exact hlist hmem
    · revert hmem
      decide
  rw [lines, StaysComment]
  cases hspecifiers : specifiers list with
  | nil => simp
  | cons s others =>
    rw [hspecifiers] at hbreak
    rw [List.flatMap_cons, List.append_assoc, laterLines_line (hbreak s List.mem_cons_self)]
    cases others with
    | nil => simp [Commented, allLines_iff, and_assoc]
    | cons next others =>
      have hnot : ¬Commented ((next :: others).flatMap (line path) ++
          splitFrom library path 0 rest) := by
        rw [Commented, allLines_iff, List.flatMap_cons, List.append_assoc]
        exact fun h => firstLine_line path next _ h.1
      constructor
      · intro h
        exact absurd h.2 hnot
      · rintro ⟨hstays | ⟨⟨only, hstays⟩, -⟩, -⟩
        · cases hstays
        · cases hstays

theorem laterLines_splitFrom (text : List Char) (h : LaterLines Muted text) :
    LaterLines Muted (splitFrom library path 0 text) ↔
      ∀ list rest, Meets library text list rest → StaysComment library path list rest := by
  induction text using scan_induction library with
  | nil => simp [splitFrom, not_meets_nil, h]
  | char c text hnone ih =>
    rw [splitFrom_of_none hnone]
    simp only [meets_of_none hnone]
    by_cases hc : c = '\n'
    · subst hc
      rw [laterLines_break, allLines_iff] at h
      have hfirst : Muted (firstLine (splitFrom library path 0 text)) :=
        muted_firstLine_splitFrom h.1
      rw [laterLines_break, allLines_iff, ih h.2]
      exact and_iff_right hfirst
    · rw [laterLines_cons hc] at h ⊢
      exact ih h
  | statement text list rest hread ih =>
    obtain ⟨hlist, hrest⟩ := break_not_mem_of_statement? h hread
    rw [splitFrom_of_some hread, laterLines_lines hlist, ih hrest]
    simp only [meets_of_some hread]
    constructor
    · rintro ⟨hhere, hmore⟩ list' rest' (⟨rfl, rfl⟩ | hmeets)
      · exact hhere
      · exact hmore list' rest' hmeets
    · intro hall
      exact ⟨hall list rest (.inl ⟨rfl, rfl⟩), fun list' rest' hmeets => hall _ _ (.inr hmeets)⟩

-- A text of comments is one of comments after the rewrite if and only if every statement in it
-- stays in its comment: it imports one name at most, and nothing but a comment follows it.
theorem commented_split?_iff (library path source : String) (h : Commented source.toList) :
    Commented ((split? library path source).getD source).toList ↔
      ∀ list rest, Meets library.toList source.toList list rest →
        StaysComment library.toList path list rest := by
  rw [Commented, allLines_iff] at h
  have hfirst : Muted (firstLine (splitFrom library.toList path 0 source.toList)) :=
    muted_firstLine_splitFrom h.1
  rw [toList_getD_split?, Commented, allLines_iff, laterLines_splitFrom source.toList h.2]
  exact and_iff_right hfirst

-- One name, and a comment right behind the statement.
def oneName : String := "// import \x7b QBtn \x7d from 'quasar';// later\n// end"

theorem commented_split?_iff_one_name :
    Commented oneName.toList ∧
      split? "quasar" barrelPath oneName =
        some "// import \x7b QBtn as QBtn \x7d from 'quasar/src/index.prod.js';\n// later\n// end" ∧
      ∀ list rest, Meets "quasar".toList oneName.toList list rest →
        StaysComment "quasar".toList barrelPath list rest := by
  have hcommented : Commented oneName.toList := by decide +kernel
  have hsplit : split? "quasar" barrelPath oneName = some
      "// import \x7b QBtn as QBtn \x7d from 'quasar/src/index.prod.js';\n// later\n// end" := by
    decide +kernel
  refine ⟨hcommented, hsplit, (commented_split?_iff "quasar" barrelPath oneName hcommented).mp ?_⟩
  rw [hsplit]
  decide +kernel

-- Of two names the second one is imported on a line of its own, outside of the comment.
theorem second_name_leaves_comment :
    ¬∀ library path source : String, Commented source.toList →
      Commented ((split? library path source).getD source).toList := by
  intro h
  have hsecond := h "quasar" barrelPath "// import \x7b QBtn, QCard \x7d from 'quasar'"
    (by decide +kernel)
  revert hsecond
  decide +kernel

end Treeshake.Source.Import
