import Treeshake.Proofs.Pattern.Pieces
import Treeshake.Proofs.Pattern.Reading
import Treeshake.Proofs.Source.ImportScan

namespace Treeshake.Source.Import

open Pattern Pattern.Reader
open Barrel (Blanks)

section Parts

def listedSet : CharSet :=
  .union (.union (.union (.union .none (.property .word)) (.only '$')) (.only ','))
    (.property .blank)

def quoteSet : CharSet := .union (.union .none (.only '\'')) (.only '"')

def lineBlankSet : CharSet := .union (.union .none (.only ' ')) (.only '\t')

def listParts : List Pattern :=
  literal ['\x7b'] ++ .group none (.times 1 none true (.set listedSet)) :: literal ['\x7d']

def quotedParts (library : List Char) : List Pattern :=
  .set quoteSet :: (literal library ++ [.set quoteSet])

def sourceParts (library : List Char) : List Pattern :=
  literal "from".toList ++ blanks 0 :: quotedParts library

-- The parts of a statement through its second quote, and those behind it.
def headParts (library : List Char) : List Pattern :=
  literal "import".toList ++ blanks 0 :: (listParts ++ blanks 0 :: sourceParts library)

def trailParts : List Pattern := [.times 0 none true (.set lineBlankSet), atMostOne ';']

def statementPattern (library : List Char) : Pattern := .seq (headParts library ++ trailParts)

theorem has_listedSet (c : Char) : listedSet.has c = isListed c := by
  simp [listedSet, CharSet.has, Property.holds, isListed]

theorem has_quoteSet (c : Char) : quoteSet.has c = true ↔ IsQuote c := by
  simp [quoteSet, CharSet.has, IsQuote]

theorem has_lineBlankSet (c : Char) : lineBlankSet.has c = (c == ' ' || c == '\t') := by
  simp [lineBlankSet, CharSet.has]

end Parts

section Matching

variable {α : Type} {rest : Rest α} {library : List Char}

-- What stands between the braces.
def IsList (list : List Char) : Prop := list ≠ [] ∧ ∀ c ∈ list, isListed c = true

theorem takes_list (rest : Rest α) :
    Takes (runAll listParts) (fun w => ∃ list, w = '\x7b' :: (list ++ ['\x7d']) ∧ IsList list)
      rest := by
  have hstop : Stops (runAll (literal ['\x7d']) rest) (listedSet.has · = true) := by
    intro behind c ahead captures hc
    refine (goesOnAt_literal '\x7d' [] rest).stops behind c ahead captures ?_
    rintro rfl
    exact absurd hc (by decide)
  have hlist := ((takes_literal ['\x7d'] rest).after (takes_group (takes_times 1 hstop))).after
    (takes_literal ['\x7b'] _)
  intro behind ahead captures r
  rw [listParts, runAll_append]
  refine (hlist behind ahead captures r).trans ?_
  simp only [has_listedSet]
  constructor
  · rintro ⟨_, ahead', rfl, ⟨_, _, rfl, rfl, list, _, rfl, ⟨hlen, hlisted⟩, rfl⟩, hgo⟩
    exact ⟨_, ahead', rfl, ⟨list, rfl, List.ne_nil_of_length_pos hlen, hlisted⟩, hgo⟩
  · rintro ⟨_, ahead', rfl, ⟨list, rfl, hne, hlisted⟩, hgo⟩
    exact ⟨_, ahead', rfl, ⟨['\x7b'], _, rfl, rfl, list, _, rfl,
      ⟨List.length_pos_of_ne_nil hne, hlisted⟩, rfl⟩, hgo⟩

-- A name in quotes, which need not be of one kind.
def IsQuoted (library w : List Char) : Prop :=
  ∃ opening closing, w = opening :: (library ++ [closing]) ∧ IsQuote opening ∧ IsQuote closing

theorem takes_quoted (library : List Char) (rest : Rest α) :
    Takes (runAll (quotedParts library)) (IsQuoted library) rest := by
  have hquoted := ((takes_set quoteSet rest).after (takes_literal library _)).after
    (takes_set quoteSet _)
  intro behind ahead captures r
  simp only [quotedParts, runAll, runAll_append]
  refine (hquoted behind ahead captures r).trans ?_
  simp only [has_quoteSet]
  constructor
  · rintro ⟨_, ahead', rfl, ⟨_, _, rfl, ⟨opening, rfl, hopening⟩, _, _, rfl, rfl, closing, rfl,
      hclosing⟩, hgo⟩
    exact ⟨_, ahead', rfl, ⟨opening, closing, rfl, hopening, hclosing⟩, hgo⟩
  · rintro ⟨_, ahead', rfl, ⟨opening, closing, rfl, hopening, hclosing⟩, hgo⟩
    exact ⟨_, ahead', rfl, ⟨[opening], _, rfl, ⟨opening, rfl, hopening⟩, library, _, rfl, rfl,
      closing, rfl, hclosing⟩, hgo⟩

theorem stops_quoted (library : List Char) (rest : Rest α) :
    Stops (runAll (quotedParts library) rest) (Unicode.isBlank · = true) := by
  refine (takes_quoted library rest).stops ?_ ?_
  · rintro c w hc ⟨opening, closing, heq, hopening, -⟩
    obtain ⟨rfl, -⟩ := List.cons.inj heq
    simp [hopening.not_blank] at hc
  · rintro ⟨opening, closing, heq, -⟩
    cases heq

def IsSource (library w : List Char) : Prop :=
  ∃ afterFrom quoted, w = "from".toList ++ (afterFrom ++ quoted) ∧ Blanks afterFrom ∧
    IsQuoted library quoted

theorem takes_source (library : List Char) (rest : Rest α) :
    Takes (runAll (sourceParts library)) (IsSource library) rest := by
  have hsource := ((takes_quoted library rest).after
    (takes_blanks 0 (stops_quoted library rest))).after (takes_literal "from".toList _)
  intro behind ahead captures r
  rw [sourceParts, runAll_append, runAll]
  refine (hsource behind ahead captures r).trans ?_
  constructor
  · rintro ⟨_, ahead', rfl, ⟨_, _, rfl, rfl, afterFrom, quoted, rfl, ⟨-, hblanks⟩, hquoted⟩, hgo⟩
    exact ⟨_, ahead', rfl, ⟨afterFrom, quoted, rfl, hblanks, hquoted⟩, hgo⟩
  · rintro ⟨_, ahead', rfl, ⟨afterFrom, quoted, rfl, hblanks, hquoted⟩, hgo⟩
    exact ⟨_, ahead', rfl, ⟨_, _, rfl, rfl, afterFrom, quoted, rfl, ⟨Nat.zero_le _, hblanks⟩,
      hquoted⟩, hgo⟩

-- What a statement is through its second quote.
def IsHead (library list w : List Char) : Prop :=
  ∃ afterImport afterList source, Blanks afterImport ∧ Blanks afterList ∧ IsSource library source ∧
    w = "import".toList ++ (afterImport ++ ('\x7b' :: (list ++ ['\x7d']) ++ (afterList ++ source)))

theorem takes_head (library : List Char) (rest : Rest α) :
    Takes (runAll (headParts library)) (fun w => ∃ list, IsList list ∧ IsHead library list w)
      rest := by
  have hfrom : Stops (runAll (sourceParts library) rest) (Unicode.isBlank · = true) := by
    rw [sourceParts, runAll_append]
    exact stops_blank_of_goesOnAt (goesOnAt_literal 'f' "rom".toList _) (by decide)
  have hlist := ((takes_source library rest).after (takes_blanks 0 hfrom)).after (takes_list _)
  have hopen : Stops (runAll listParts (run (blanks 0) (runAll (sourceParts library) rest)))
      (Unicode.isBlank · = true) := by
    rw [listParts, runAll_append]
    exact stops_blank_of_goesOnAt (goesOnAt_literal '\x7b' [] _) (by decide)
  have hhead := (hlist.after (takes_blanks 0 hopen)).after (takes_literal "import".toList _)
  intro behind ahead captures r
  simp only [headParts, runAll_append, runAll]
  refine (hhead behind ahead captures r).trans ?_
  constructor
  · rintro ⟨_, ahead', rfl, ⟨_, _, rfl, rfl, afterImport, _, rfl, ⟨-, hblanks⟩, _, _, rfl,
      ⟨list, rfl, hlist⟩, afterList, source, rfl, ⟨-, hblanks'⟩, hsource⟩, hgo⟩
    exact ⟨_, ahead', rfl, ⟨list, hlist, afterImport, afterList, source, hblanks, hblanks', hsource,
      rfl⟩, hgo⟩
  · rintro ⟨_, ahead', rfl, ⟨list, hlist, afterImport, afterList, source, hblanks, hblanks', hsource,
      rfl⟩, hgo⟩
    exact ⟨_, ahead', rfl, ⟨_, _, rfl, rfl, afterImport, _, rfl, ⟨Nat.zero_le _, hblanks⟩, _, _, rfl,
      ⟨list, rfl, hlist⟩, afterList, source, rfl, ⟨Nat.zero_le _, hblanks'⟩, hsource⟩, hgo⟩

-- Blanks on the line and a semicolon are taken where they are.
theorem runAll_trail (hrest : Total rest) (behind ahead : List Char) (captures : Captures) :
    ∃ w, ahead = w ++ afterTrail ahead ∧ runAll trailParts rest ⟨behind, ahead⟩ captures =
      rest ⟨w.reverse ++ behind, afterTrail ahead⟩ captures := by
  have hset : lineBlankSet.has = fun c => c == ' ' || c == '\t' := funext has_lineBlankSet
  have hparts : runAll trailParts rest ⟨behind, ahead⟩ captures = run (atMostOne ';') rest
      ⟨(ahead.takeWhile lineBlankSet.has).reverse ++ behind, ahead.dropWhile lineBlankSet.has⟩
        captures :=
    run_times_total (total_atMostOne ';' hrest) behind ahead captures
  have htext := (List.takeWhile_append_dropWhile (p := lineBlankSet.has) (l := ahead)).symm
  rw [hparts, run_atMostOne ';' hrest, afterTrail, ← hset]
  generalize ahead.takeWhile lineBlankSet.has = trail at htext ⊢
  generalize ahead.dropWhile lineBlankSet.has = more at htext ⊢
  subst htext
  by_cases hhead : more.head? = some ';'
  · obtain ⟨more, rfl⟩ := List.head?_eq_some_iff.mp hhead
    exact ⟨trail ++ [';'], by simp [after?_cons], by simp [after?_cons]⟩
  · have hnone : after? [';'] more = none := by
      rw [Option.eq_none_iff_forall_ne_some]
      intro behind' hafter
      exact hhead (by simp [after?_eq_some_iff.mp hafter])
    exact ⟨trail, by simp [hnone], by simp [hnone, hhead]⟩

-- A statement through its second quote.
def Layout.head (l : Layout) (library list : List Char) : List Char :=
  "import".toList ++ (l.afterImport ++ ('\x7b' :: (list ++ ['\x7d']) ++ (l.afterList ++
    ("from".toList ++ (l.afterFrom ++ l.opening :: (library ++ [l.closing]))))))

theorem Layout.isHead (l : Layout) (library list : List Char) :
    IsHead library list (l.head library list) :=
  ⟨l.afterImport, l.afterList, _, l.afterImport_blank, l.afterList_blank,
    ⟨l.afterFrom, _, rfl, l.afterFrom_blank, l.opening, l.closing, rfl, l.opening_quote,
      l.closing_quote⟩, rfl⟩

theorem Layout.text_eq (l : Layout) (library list : List Char) :
    l.text library list = l.head library list ++ (l.trail ++ l.mark) := by
  delta Layout.text Layout.head
  simp only [List.append_assoc, List.cons_append, List.nil_append]

theorem IsHead.exists_layout {library list head : List Char} (h : IsHead library list head)
    (ahead : List Char) :
    ∃ l : Layout, l.head library list = head ∧ ahead = l.trail ++ (l.mark ++ afterTrail ahead) ∧
      l.Ends (afterTrail ahead) := by
  obtain ⟨afterImport, afterList, _, hafterImport, hafterList, ⟨afterFrom, _, rfl, hafterFrom,
    opening, closing, rfl, hopening, hclosing⟩, rfl⟩ := h
  obtain ⟨trail, semicolon, htrail, htext, hend⟩ := exists_trail ahead
  exact ⟨⟨afterImport, afterList, afterFrom, opening, closing, trail, semicolon, hafterImport,
    hafterList, hafterFrom, hopening, hclosing, htrail⟩, rfl, htext, hend⟩

-- The pattern matches where a statement starts, and takes it whole.
theorem matchAt_statement (library behind text : List Char) (m : Match) :
    matchAt (statementPattern library) ⟨behind, text⟩ = some m ↔
      ∃ list w rest, statement? library text = some (list, rest) ∧ text = w ++ rest ∧
        m = .unnamed behind w rest := by
  have hmatch : matchAt (statementPattern library) ⟨behind, text⟩ =
      runAll (headParts library) (runAll trailParts (matched ⟨behind, text⟩)) ⟨behind, text⟩ [] := by
    rw [← runAll_append]
    rfl
  rw [hmatch, takes_head library _ behind text [] m]
  constructor
  · rintro ⟨head, ahead, rfl, ⟨list, ⟨hne, hlisted⟩, hhead⟩, hgo⟩
    obtain ⟨w, hw, hrun⟩ := runAll_trail (total_matched ⟨behind, head ++ ahead⟩)
      (head.reverse ++ behind) ahead []
    obtain ⟨l, rfl, htrail, hend⟩ := hhead.exists_layout ahead
    have htext : l.head library list ++ ahead = (l.head library list ++ w) ++ afterTrail ahead := by
      rw [List.append_assoc, ← hw]
    rw [hrun, htext, ← List.append_assoc, ← List.reverse_append, matched_append,
      Option.some.injEq] at hgo
    refine ⟨list, l.head library list ++ w, afterTrail ahead,
      statement?_eq_some_iff.mpr ⟨hne, hlisted, l, ?_, hend⟩, htext, hgo.symm⟩
    rw [l.text_eq, List.append_assoc, List.append_assoc, ← htrail]
  · rintro ⟨list, w, rest, hread, rfl, rfl⟩
    obtain ⟨hne, hlisted, l, htext, hend⟩ := statement?_eq_some_iff.mp hread
    obtain rfl := List.append_cancel_right htext
    have hsplit : l.text library list ++ rest =
        l.head library list ++ (l.trail ++ (l.mark ++ rest)) := by
      rw [l.text_eq, List.append_assoc, List.append_assoc]
    have hafter : afterTrail (l.trail ++ (l.mark ++ rest)) = rest :=
      afterTrail_append l.trail_blank hend
    obtain ⟨w, hw, hrun⟩ := runAll_trail (total_matched ⟨behind, l.text library list ++ rest⟩)
      ((l.head library list).reverse ++ behind) (l.trail ++ (l.mark ++ rest)) []
    rw [hafter, ← List.append_assoc] at hw
    obtain rfl := List.append_cancel_right hw
    refine ⟨_, _, hsplit, ⟨list, ⟨hne, hlisted⟩, l.isHead library list⟩, ?_⟩
    rw [hrun, hafter, ← List.append_assoc, ← List.reverse_append, ← l.text_eq, matched_append]

theorem eats_statementPattern (library : List Char) : Eats (statementPattern library) := by
  rintro ⟨behind, text⟩ m hm
  obtain ⟨list, w, rest, hread, htext, rfl⟩ := (matchAt_statement library behind text m).mp hm
  obtain ⟨-, -, l, htext', -⟩ := statement?_eq_some_iff.mp hread
  obtain ⟨tail, htail⟩ := l.text_eq_cons library list
  obtain rfl : w = l.text library list := List.append_cancel_right (htext.symm.trans htext')
  simp [Match.unnamed, htail]

end Matching

section Replacement

-- What a statement has between its braces.
def listOf (m : Match) : List Char :=
  ((m.text.dropWhile (· != '\x7b')).drop 1).takeWhile (· != '\x7d')

theorem matchAt_of_none {library text : List Char} (h : statement? library text = none)
    (behind : List Char) : matchAt (statementPattern library) ⟨behind, text⟩ = none := by
  rw [Option.eq_none_iff_forall_ne_some]
  intro m hm
  obtain ⟨list, w, rest, hread, -⟩ := (matchAt_statement library behind text m).mp hm
  simp [h] at hread

theorem listOf_text (l : Layout) {library list : List Char} (hlisted : ∀ c ∈ list, isListed c = true)
    (behind rest : List Char) : listOf (.unnamed behind (l.text library list) rest) = list := by
  have hlead : ∀ c ∈ "import".toList ++ l.afterImport, (c != '\x7b') = true := by
    intro c hc
    rcases List.mem_append.mp hc with hc | hc
    · have hword : ∀ c ∈ "import".toList, (c != '\x7b') = true := by decide
      exact hword c hc
    · refine bne_iff_ne.mpr ?_
      rintro rfl
      exact absurd (l.afterImport_blank _ hc) (by decide)
  have hlist : ∀ c ∈ list, (c != '\x7d') = true := by
    intro c hc
    refine bne_iff_ne.mpr ?_
    rintro rfl
    exact absurd (hlisted _ hc) (by decide)
  delta Layout.text
  rw [listOf, Match.unnamed, ← List.append_assoc, List.dropWhile_append_of_pos hlead]
  simp [List.takeWhile_append_of_pos hlist]

theorem matchAt_of_some {library text list rest : List Char}
    (h : statement? library text = some (list, rest)) (behind : List Char) :
    ∃ m, matchAt (statementPattern library) ⟨behind, text⟩ = some m ∧ listOf m = list ∧
      m.stop.ahead = rest := by
  obtain ⟨-, hlisted, l, rfl, hend⟩ := statement?_eq_some_iff.mp h
  exact ⟨_, (matchAt_statement library behind _ _).mpr ⟨list, _, rest, h, rfl, rfl⟩,
    listOf_text l hlisted behind rest, rfl⟩

-- The scan of a text writes what the matches are replaced by, and meets a statement where there is
-- a match.
theorem splitFrom_eq_replaced (library : List Char) (path : String) (text : List Char)
    (afterMatch : Bool) (fuel : Nat) (behind : List Char) (hfuel : text.length < fuel) :
    splitFrom library path 0 text =
      (piecesFrom (statementPattern library) afterMatch fuel ⟨behind, text⟩).replaced
        fun m => lines path (listOf m) := by
  have hp := eats_statementPattern library
  induction text using scan_induction library generalizing afterMatch fuel behind with
  | nil =>
    rw [piecesFrom_nil_of_none hp (matchAt_of_none rfl behind)]
    rfl
  | char c text hnone ih =>
    obtain ⟨fuel, rfl⟩ := Nat.exists_eq_add_one_of_ne_zero (Nat.ne_zero_of_lt hfuel)
    have hlen : text.length < fuel + 1 := by
      rw [List.length_cons] at hfuel
      omega
    rw [splitFrom_of_none hnone, piecesFrom_cons_of_none hp (matchAt_of_none hnone behind),
      Pieces.replaced_skip, ih afterMatch (fuel + 1) (c :: behind) hlen]
  | statement text list rest hread ih =>
    obtain ⟨fuel, rfl⟩ := Nat.exists_eq_add_one_of_ne_zero (Nat.ne_zero_of_lt hfuel)
    obtain ⟨m, hm, hlist, hstop⟩ := matchAt_of_some hread behind
    have hlen := length_lt_of_statement? hread
    rw [splitFrom_of_some hread, piecesFrom_of_some hp hm, ih true fuel m.stop.behind (by omega)]
    simp only [Pieces.replaced, List.flatMap_cons, List.nil_append, hlist, ← hstop, List.append_assoc]

theorem found_eq_nil_iff (library text : List Char) (afterMatch : Bool) (fuel : Nat)
    (behind : List Char) (hfuel : text.length < fuel) :
    (piecesFrom (statementPattern library) afterMatch fuel ⟨behind, text⟩).found = [] ↔
      occurs library text = false := by
  have hp := eats_statementPattern library
  induction text generalizing behind with
  | nil =>
    rw [piecesFrom_nil_of_none hp (matchAt_of_none rfl behind)]
    exact iff_of_true rfl rfl
  | cons c text ih =>
    obtain ⟨fuel, rfl⟩ := Nat.exists_eq_add_one_of_ne_zero (Nat.ne_zero_of_lt hfuel)
    rw [occurs]
    cases hread : statement? library (c :: text) with
    | some pair =>
      obtain ⟨m, hm, -, -⟩ := matchAt_of_some hread behind
      rw [piecesFrom_of_some hp hm]
      simp
    | none =>
      have hlen : text.length < fuel + 1 := by
        rw [List.length_cons] at hfuel
        omega
      rw [piecesFrom_cons_of_none hp (matchAt_of_none hread behind)]
      exact (Pieces.found_skip c _).trans (ih (c :: behind) hlen)

end Replacement

section Reading

-- The text of the pattern for the statements that import from a library.
def patternText (library : String) : String :=
  "import\\s*\\\x7b([\\w$,\\s]+)\\\x7d\\s*from\\s*['\"]" ++ String.ofList (escape library.toList) ++
    "['\"][ \\t]*;?"

section Tokens

variable {frames : List Frame} {choices parts : List Pattern} {canRepeat : Bool}
  {names : List String} {rest : List Char}

theorem leads_listedSet :
    Leads ⟨{}, frames, choices, parts, canRepeat, names⟩
      ('[' :: '\\' :: 'w' :: '$' :: ',' :: '\\' :: 's' :: ']' :: rest)
      ⟨{}, frames, choices, .set listedSet :: parts, true, names⟩ rest :=
  .step rfl rfl (by simp only [List.length_cons]; omega)

theorem leads_quoteSet :
    Leads ⟨{}, frames, choices, parts, canRepeat, names⟩ ('[' :: '\'' :: '"' :: ']' :: rest)
      ⟨{}, frames, choices, .set quoteSet :: parts, true, names⟩ rest :=
  .step rfl rfl (by simp only [List.length_cons]; omega)

theorem leads_lineBlankSet :
    Leads ⟨{}, frames, choices, parts, canRepeat, names⟩
      ('[' :: ' ' :: '\\' :: 't' :: ']' :: rest)
      ⟨{}, frames, choices, .set lineBlankSet :: parts, true, names⟩ rest :=
  .step rfl rfl (by simp only [List.length_cons]; omega)

end Tokens

-- The text of the pattern, cut into what is read in one step each.
theorem toList_patternText (library : String) :
    (patternText library).toList = "import".toList ++ '\\' :: 's' :: '*' :: '\\' :: '\x7b' :: '(' ::
      '[' :: '\\' :: 'w' :: '$' :: ',' :: '\\' :: 's' :: ']' :: '+' :: ')' :: '\\' :: '\x7d' ::
      '\\' :: 's' :: '*' :: ("from".toList ++ '\\' :: 's' :: '*' :: '[' :: '\'' :: '"' :: ']' ::
        (escape library.toList ++ '[' :: '\'' :: '"' :: ']' :: '[' :: ' ' :: '\\' :: 't' :: ']' ::
          '*' :: ';' :: ['?'])) := by
  have hfront : "import\\s*\\\x7b([\\w$,\\s]+)\\\x7d\\s*from\\s*['\"]".toList = "import".toList ++
      ['\\', 's', '*', '\\', '\x7b', '(', '[', '\\', 'w', '$', ',', '\\', 's', ']', '+', ')', '\\',
        '\x7d', '\\', 's', '*'] ++ "from".toList ++ ['\\', 's', '*', '[', '\'', '"', ']'] := by decide
  have hback : "['\"][ \\t]*;?".toList =
      ['[', '\'', '"', ']', '[', ' ', '\\', 't', ']', '*', ';', '?'] := by decide
  have hname : (String.ofList (escape library.toList)).toList = escape library.toList :=
    String.toList_ofList
  delta patternText
  rw [String.toList_append, String.toList_append, hfront, hback, hname]
  simp only [List.append_assoc, List.cons_append, List.nil_append]

theorem leads_patternText (library : String) :
    Leads .initial (patternText library).toList ⟨{}, [], [],
      (headParts library.toList ++ trailParts).reverse, true, []⟩ [] := by
  have hdone {parts : List Pattern}
      (hparts : atMostOne ';' :: parts = (headParts library.toList ++ trailParts).reverse) :
      Leads ⟨{}, [], [], .set (.only ';') :: parts, true, []⟩ ['?']
        ⟨{}, [], [], (headParts library.toList ++ trailParts).reverse, true, []⟩ [] := by
    rw [← hparts]
    exact @leads_repetition _ _ _ _ _ '?' ⟨0, some 1⟩ _ (fun _ _ => rfl) (by simp)
  rw [toList_patternText]
  refine (leads_word (by decide)).trans ?_
  refine leads_blank.trans ((leads_repetition (fun _ _ => rfl) (by simp)).trans ?_)
  refine (leads_escaped (by decide)).trans ((leads_open (by simp)).trans ?_)
  refine leads_listedSet.trans ((leads_repetition (fun _ _ => rfl) (by simp)).trans ?_)
  refine (leads_close rfl).trans ((leads_escaped (by decide)).trans ?_)
  refine leads_blank.trans ((leads_repetition (fun _ _ => rfl) (by simp)).trans ?_)
  refine (leads_word (by decide)).trans ?_
  refine leads_blank.trans ((leads_repetition (fun _ _ => rfl) (by simp)).trans ?_)
  refine leads_quoteSet.trans ((leads_escape _).trans (leads_quoteSet.trans ?_))
  refine leads_lineBlankSet.trans ((leads_repetition (fun _ _ => rfl) (by simp)).trans ?_)
  refine (leads_plain (by decide)).trans (hdone ?_)
  simp [headParts, listParts, sourceParts, quotedParts, trailParts, State.whole, Reader.sequence,
    literal, blanks]

theorem ofText?_patternText (library : String) :
    ofText? (patternText library) = some (statementPattern library.toList) := by
  have hdepth : depth (statementPattern library.toList) ≤ depthLimit := by
    simp only [statementPattern, headParts, listParts, sourceParts, quotedParts, trailParts, blanks,
      atMostOne, depth, depthAll, depthAll_append, depthAll_literal, depthLimit]
    omega
  have hwhole : State.whole ⟨{}, [], [], (headParts library.toList ++ trailParts).reverse, true, []⟩ =
      statementPattern library.toList := by
    have hlen : 2 ≤ (headParts library.toList ++ trailParts).reverse.length := by
      simp only [List.length_reverse, List.length_append, trailParts, List.length_cons]
      omega
    rw [State.whole, sequence_of_two_le hlen, List.reverse_reverse, statementPattern]
  rw [ofText?, (leads_patternText library).readFrom?_eq rfl rfl, hwhole]
  simpa using hdepth

-- For any name of a library there is a pattern, and the rewrite replaces its matches by the lines
-- for the names between their braces. Without a match there is no new text.
theorem split?_eq_replaced (library : String) :
    ∃ p, ofText? (patternText library) = some p ∧ ∀ path source : String,
      split? library path source = if (p.pieces source.toList).found = [] then none
        else some (String.ofList ((p.pieces source.toList).replaced fun m =>
          lines path (listOf m))) := by
  refine ⟨_, ofText?_patternText library, fun path source => ?_⟩
  have hfuel : source.toList.length < 2 * source.toList.length + 2 := by omega
  rw [split?, pieces, ← splitFrom_eq_replaced library.toList path source.toList _ _ _ hfuel]
  simp only [found_eq_nil_iff library.toList source.toList _ _ _ hfuel]
  cases occurs library.toList source.toList <;> rfl

end Reading

end Treeshake.Source.Import
