import Treeshake.Proofs.Pattern.Pieces
import Treeshake.Proofs.Pattern.Reading

namespace Treeshake.Source.Barrel

open Pattern Pattern.Reader

section Reading

-- A key and, where it has a value of its own, all through the colon.
def componentsText : String := "\\\x7b\\s*components\\b(\\s*:)?"

-- The key that comes next in what follows.
def directivesText : String := "^\\s*,\\s*directives\\b(\\s*:)?"

def valueMark : Pattern := .group none (.seq (blanks 0 :: literal [':']))

def keyParts (mark : Char) (word : List Char) : List Pattern :=
  .set (.only mark) :: blanks 0 ::
    (literal word ++ [.look (.wordEdge false), .times 0 (some 1) true valueMark])

def componentsPattern : Pattern := .seq (keyParts '\x7b' componentsKey.toList)

def directivesPattern : Pattern :=
  .seq (.look .textStart :: blanks 0 :: keyParts ',' directivesKey.toList)

theorem ofText?_componentsText : ofText? componentsText = some componentsPattern := by
  rfl

theorem ofText?_directivesText : ofText? directivesText = some directivesPattern := by
  rfl

end Reading

section Matching

variable {α : Type} {rest : Rest α}

-- What a match takes behind a key: the colon of a value, or nothing if there is no value.
inductive Marks : List Char → List Char → Prop
  | colon {blanks : List Char} (hblanks : Blanks blanks) (ahead : List Char) :
    Marks (blanks ++ [':']) ahead
  | nothing {ahead : List Char} (h : ¬Expanded ahead) : Marks [] ahead

theorem Marks.expanded_iff {value ahead : List Char} (h : Marks value ahead) :
    Expanded (value ++ ahead) ↔ value ≠ [] := by
  cases h with
  | colon hblanks => simpa using ⟨_, ahead, hblanks, rfl⟩
  | nothing h => simpa using h

theorem Marks.eq_nil {value ahead : List Char} (h : Marks value ahead)
    (hexpanded : isExpanded (value ++ ahead) = false) : value = [] := by
  have hnot : ¬Expanded (value ++ ahead) := by simp [← isExpanded_iff, hexpanded]
  simpa using mt h.expanded_iff.mpr hnot

theorem exists_marks (behind : List Char) :
    ∃ value ahead, behind = value ++ ahead ∧ Marks value ahead := by
  by_cases h : Expanded behind
  · obtain ⟨blanks, ahead, hblanks, rfl⟩ := h
    exact ⟨blanks ++ [':'], ahead, by simp, .colon hblanks ahead⟩
  · exact ⟨[], behind, rfl, .nothing h⟩

theorem takes_valueMark (rest : Rest α) :
    Takes (run valueMark) (fun w => ∃ blanks, w = blanks ++ [':'] ∧ Blanks blanks) rest := by
  have hblanks := (takes_literal [':'] rest).after
    (takes_blanks 0 (stops_blank_of_goesOnAt (goesOnAt_literal ':' [] rest) (by decide)))
  intro behind ahead captures r
  refine (takes_group (fun _ _ _ _ => ?_) behind ahead captures r)
  rw [run, runAll]
  refine (hblanks _ _ _ _).trans ?_
  constructor
  · rintro ⟨_, ahead', rfl, ⟨blanks, _, rfl, ⟨-, hb⟩, rfl⟩, hgo⟩
    exact ⟨_, ahead', rfl, ⟨blanks, rfl, hb⟩, hgo⟩
  · rintro ⟨_, ahead', rfl, ⟨blanks, rfl, hb⟩, hgo⟩
    exact ⟨_, ahead', rfl, ⟨blanks, _, rfl, ⟨Nat.zero_le _, hb⟩, rfl⟩, hgo⟩

-- The colon is taken where there is one.
theorem run_value (hrest : Total rest) (behind ahead : List Char) (captures : Captures) (r : α) :
    run (.times 0 (some 1) true valueMark) rest ⟨behind, ahead⟩ captures = some r ↔
      ∃ value ahead', ahead = value ++ ahead' ∧ Marks value ahead' ∧
        rest ⟨value.reverse ++ behind, ahead'⟩ captures = some r := by
  have hmark := takes_valueMark rest behind ahead captures
  have hnone : run valueMark rest ⟨behind, ahead⟩ captures = none ↔ ¬Expanded ahead := by
    rw [Option.eq_none_iff_forall_ne_some]
    constructor
    · rintro hnone ⟨blanks, ahead', hblanks, rfl⟩
      obtain ⟨r, hr⟩ := Option.isSome_iff_exists.mp
        (hrest ⟨(blanks ++ [':']).reverse ++ behind, ahead'⟩ captures)
      exact hnone r ((hmark r).mpr ⟨_, ahead', by simp, ⟨blanks, rfl, hblanks⟩, hr⟩)
    · intro hnot r hr
      obtain ⟨_, ahead', rfl, ⟨blanks, rfl, hblanks⟩, -⟩ := (hmark r).mp hr
      exact hnot ⟨blanks, ahead', hblanks, by simp⟩
  rw [run_optional, Option.or_eq_some_iff, hmark, hnone]
  constructor
  · rintro (⟨_, ahead', rfl, ⟨blanks, rfl, hblanks⟩, hgo⟩ | ⟨hnot, hgo⟩)
    · exact ⟨_, ahead', rfl, .colon hblanks ahead', hgo⟩
    · exact ⟨[], ahead, rfl, .nothing hnot, hgo⟩
  · rintro ⟨_, ahead', rfl, hvalue, hgo⟩
    cases hvalue with
    | colon hblanks => exact .inl ⟨_, ahead', rfl, ⟨_, rfl, hblanks⟩, hgo⟩
    | nothing hnot => exact .inr ⟨hnot, hgo⟩

-- A word that a key may have: it starts with no blank and ends in a character of words.
structure IsKeyWord (word : List Char) : Prop where
  head : word.head?.any Unicode.isBlank = false
  last : word.getLast?.any Unicode.isWord = true

theorem isKeyWord_components : IsKeyWord componentsKey.toList := ⟨by decide, by decide⟩

theorem isKeyWord_directives : IsKeyWord directivesKey.toList := ⟨by decide, by decide⟩

-- Behind a word, an edge is where the word ends.
theorem run_wordEdge {w : List Char} (hw : IsKeyWord w) (behind ahead : List Char)
    (captures : Captures) (r : α) :
    run (.look (.wordEdge false)) rest ⟨w.reverse ++ behind, ahead⟩ captures = some r ↔
      EndsWord ahead ∧ rest ⟨w.reverse ++ behind, ahead⟩ captures = some r := by
  obtain ⟨last, hlast, hword⟩ := (Option.any_eq_true _ _).mp hw.last
  have hholds : holdsAt (.wordEdge false) ⟨w.reverse ++ behind, ahead⟩ = true ↔ EndsWord ahead := by
    rw [← List.head?_reverse] at hlast
    simp [holdsAt, isWordChar, List.head?_append, hlast, hword, EndsWord, Option.any_eq_false]
  rw [run, Option.ite_none_right_eq_some, hholds]

theorem stops_word {w : List Char} (hw : IsKeyWord w) (rest : Rest α) :
    Stops (runAll (literal w) rest) (Unicode.isBlank · = true) := by
  cases w with
  | nil => exact absurd hw.last (by decide)
  | cons first w => exact stops_blank_of_goesOnAt (goesOnAt_literal first w rest) hw.head

theorem runAll_key (mark : Char) {word : List Char} (hword : IsKeyWord word) (hrest : Total rest)
    (behind ahead : List Char) (captures : Captures) (r : α) :
    runAll (keyParts mark word) rest ⟨behind, ahead⟩ captures = some r ↔
      ∃ key value ahead', ahead = key ++ (value ++ ahead') ∧ IsKey mark word key ∧
        EndsWord (value ++ ahead') ∧ Marks value ahead' ∧
        rest ⟨(key ++ value).reverse ++ behind, ahead'⟩ captures = some r := by
  let tail : Rest α := run (.look (.wordEdge false)) (run (.times 0 (some 1) true valueMark) rest)
  have hkey := ((takes_literal word tail).after (takes_blanks 0 (stops_word hword tail))).after
    (takes_set (.only mark) _)
  have hparts : runAll (keyParts mark word) rest =
      run (.set (.only mark)) (run (blanks 0) (runAll (literal word) tail)) := by
    simp only [keyParts, runAll, runAll_append, tail]
  rw [hparts]
  refine (hkey behind ahead captures r).trans ?_
  constructor
  · rintro ⟨_, ahead', rfl, ⟨_, _, rfl, ⟨c, rfl, hc⟩, blanks, w, rfl, ⟨-, hblanks⟩, hw⟩, hgo⟩
    obtain rfl : c = mark := by simpa [CharSet.has] using hc
    have hgo : tail ⟨word.reverse ++ ((c :: blanks).reverse ++ behind), ahead'⟩ captures = some r := by
      simpa [hw] using hgo
    obtain ⟨hend, hgo⟩ := (run_wordEdge hword _ _ _ _).mp hgo
    obtain ⟨value, ahead', rfl, hvalue, hgo⟩ := (run_value hrest _ _ _ _).mp hgo
    exact ⟨c :: (blanks ++ word), value, ahead', by simp [hw], ⟨blanks, hblanks, rfl⟩, hend, hvalue,
      by simpa using hgo⟩
  · rintro ⟨_, value, ahead', rfl, ⟨blanks, hblanks, rfl⟩, hend, hvalue, hgo⟩
    have hgo : tail ⟨word.reverse ++ ((mark :: blanks).reverse ++ behind), value ++ ahead'⟩ captures =
        some r := by
      refine (run_wordEdge hword _ _ _ _).mpr ⟨hend, ?_⟩
      exact (run_value hrest _ _ _ _).mpr ⟨value, ahead', rfl, hvalue, by simpa using hgo⟩
    exact ⟨mark :: (blanks ++ word), value ++ ahead', rfl,
      ⟨[mark], _, rfl, ⟨mark, rfl, by simp [CharSet.has]⟩, blanks, _, rfl,
        ⟨Nat.zero_le _, hblanks⟩, rfl⟩, by simpa using hgo⟩

-- A match takes a key, with what a pattern wants in front of it, and what marks its value.
def Covers (wanted : List Char → Prop) (behind text : List Char) (m : Match) : Prop :=
  ∃ through value ahead, text = through ++ (value ++ ahead) ∧ wanted through ∧
    EndsWord (value ++ ahead) ∧ Marks value ahead ∧ m = .unnamed behind (through ++ value) ahead

theorem matchAt_components (behind text : List Char) (m : Match) :
    matchAt componentsPattern ⟨behind, text⟩ = some m ↔
      Covers (IsKey '\x7b' componentsKey.toList) behind text m := by
  have hkey := runAll_key '\x7b' isKeyWord_components (total_matched ⟨behind, text⟩) behind text [] m
  refine hkey.trans ?_
  constructor
  · rintro ⟨key, value, ahead, rfl, hk, hend, hvalue, hgo⟩
    rw [← List.append_assoc, matched_append, Option.some.injEq] at hgo
    exact ⟨key, value, ahead, rfl, hk, hend, hvalue, hgo.symm⟩
  · rintro ⟨key, value, ahead, rfl, hk, hend, hvalue, rfl⟩
    refine ⟨key, value, ahead, rfl, hk, hend, hvalue, ?_⟩
    rw [← List.append_assoc, matched_append]

theorem goesOnAt_key (mark : Char) (word : List Char) (rest : Rest α) :
    GoesOnAt mark (runAll (keyParts mark word) rest) := by
  intro behind ahead captures r hr
  obtain ⟨_, ahead', rfl, ⟨c, rfl, hc⟩, -⟩ := (takes_set (.only mark) _ _ _ _ _).mp hr
  simpa [CharSet.has] using hc

theorem matchAt_directives (text : List Char) (m : Match) :
    matchAt directivesPattern ⟨[], text⟩ = some m ↔ Covers IsNextKey [] text m := by
  have hblanks := takes_blanks 0 (stops_blank_of_goesOnAt
    (goesOnAt_key ',' directivesKey.toList (matched ⟨[], text⟩)) (by decide)) [] text [] m
  have hkey (behind text' : List Char) :=
    runAll_key ',' isKeyWord_directives (total_matched ⟨[], text⟩) behind text' [] m
  have hmatch : matchAt directivesPattern ⟨[], text⟩ = some m ↔ run (blanks 0)
      (runAll (keyParts ',' directivesKey.toList) (matched ⟨[], text⟩)) ⟨[], text⟩ [] = some m := by
    rfl
  have hdone (blanks key value ahead : List Char) :
      matched ⟨[], blanks ++ (key ++ (value ++ ahead))⟩
        ⟨(key ++ value).reverse ++ (blanks.reverse ++ []), ahead⟩ [] =
      some (.unnamed [] (blanks ++ key ++ value) ahead) := by
    simpa using matched_append [] (blanks ++ key ++ value) ahead
  rw [hmatch, hblanks]
  constructor
  · rintro ⟨blanks, text', rfl, ⟨-, hb⟩, hgo⟩
    obtain ⟨key, value, ahead, rfl, hk, hend, hvalue, hgo⟩ := (hkey _ _).mp hgo
    rw [hdone, Option.some.injEq] at hgo
    exact ⟨blanks ++ key, value, ahead, by simp, ⟨blanks, key, hb, hk, rfl⟩, hend, hvalue, hgo.symm⟩
  · rintro ⟨_, value, ahead, htext, ⟨blanks, key, hb, hk, rfl⟩, hend, hvalue, rfl⟩
    rw [List.append_assoc] at htext
    subst htext
    refine ⟨blanks, key ++ (value ++ ahead), rfl, ⟨Nat.zero_le _, hb⟩, ?_⟩
    exact (hkey _ _).mpr ⟨key, value, ahead, rfl, hk, hend, hvalue, hdone blanks key value ahead⟩

-- Away from its start, nothing in a text is what comes next.
theorem searchFrom_directives (text : List Char) :
    searchFrom directivesPattern [] [] text =
      (matchAt directivesPattern ⟨[], text⟩).map fun m => ([], m) := by
  have hbehind (c : Char) (behind skipped text : List Char) :
      searchFrom directivesPattern (c :: behind) skipped text = none := by
    induction text generalizing c behind skipped with
    | nil => rfl
    | cons d text ih => exact ih d (c :: behind) (d :: skipped)
  cases text with
  | nil => rfl
  | cons c text =>
    rw [searchFrom, hbehind]
    cases matchAt directivesPattern ⟨[], c :: text⟩ <;> rfl

end Matching

section Expansion

-- The group for a value has no name, but only a match that takes it ends in a colon.
def hasValue (m : Match) : Bool := m.text.getLast? == some ':'

-- An expansion as the matches of patterns for the two keys say. The second key is sought in what
-- follows the first.
def expandDirectivesBy (directives : Pattern) (names : List String) (text : List Char) : List Char :=
  match searchFrom directives [] [] text with
  | none => text
  | some (before, m) =>
    if hasValue m then text
    else before ++ m.text ++ memberList directivesKey names ++ m.stop.ahead

def expandBy (components directives : Pattern) (source : String) (names names' : List String) :
    Outcome :=
  match searchFrom components [] [] source.toList with
  | none => .noKey
  | some (before, m) =>
    if hasValue m then .expandedBefore
    else .expanded (String.ofList (before ++ m.text ++ memberList componentsKey names ++
      expandDirectivesBy directives names' m.stop.ahead))

theorem hasValue_iff (behind : List Char) {through value ahead : List Char}
    (hthrough : through.getLast? = some 's') (h : Marks value ahead) :
    hasValue (.unnamed behind (through ++ value) ahead) = true ↔ Expanded (value ++ ahead) := by
  rw [h.expanded_iff]
  cases h with
  | colon hblanks => simp [hasValue, Match.unnamed]
  | nothing h => simp [hasValue, Match.unnamed, hthrough]

theorem getLast?_componentsKey {key : List Char} (h : IsKey '\x7b' componentsKey.toList key) :
    key.getLast? = some 's' := by
  obtain ⟨blanks, -, rfl⟩ := h
  rw [← List.cons_append, List.getLast?_append]
  rfl

theorem getLast?_nextKey {through : List Char} (h : IsNextKey through) :
    through.getLast? = some 's' := by
  obtain ⟨blanks, _, -, ⟨blanks', -, rfl⟩, rfl⟩ := h
  rw [← List.cons_append, ← List.append_assoc, List.getLast?_append]
  rfl

-- A match that a search has found goes through the key at which a text is split, and what marks a
-- value stands behind that key.
def Through (found : List Char × Match) (split : List Char × List Char) : Prop :=
  ∃ behind key value ahead, IsKey '\x7b' componentsKey.toList key ∧ Marks value ahead ∧
    found.2 = .unnamed behind (key ++ value) ahead ∧ split = (found.1 ++ key, value ++ ahead)

theorem searchFrom_components (behind text : List Char) :
    Option.Rel Through (searchFrom componentsPattern behind [] text)
      (splitAtComponents? text) := by
  induction text generalizing behind with
  | nil =>
    have hnone : matchAt componentsPattern ⟨behind, []⟩ = none := rfl
    rw [searchFrom, hnone]
    exact .none
  | cons c text ih =>
    rw [searchFrom, splitAtComponents?]
    cases hm : matchAt componentsPattern ⟨behind, c :: text⟩ with
    | some m =>
      obtain ⟨key, value, ahead, htext, hkey, hend, hvalue, rfl⟩ :=
        (matchAt_components behind (c :: text) m).mp hm
      have hafter : afterKey? '\x7b' componentsKey.toList (c :: text) = some (value ++ ahead) :=
        componentsKey_iff.mpr ⟨key, hkey, htext, hend⟩
      rw [hafter, htext]
      simp only [take_front]
      exact .some ⟨behind, key, value, ahead, hkey, hvalue, rfl, rfl⟩
    | none =>
      have hafter : afterKey? '\x7b' componentsKey.toList (c :: text) = none := by
        rw [Option.eq_none_iff_forall_ne_some]
        intro rest hrest
        obtain ⟨key, hkey, htext, hend⟩ := componentsKey_iff.mp hrest
        obtain ⟨value, ahead, rfl, hvalue⟩ := exists_marks rest
        have hmatch := (matchAt_components behind (c :: text) _).mpr
          ⟨key, value, ahead, htext, hkey, hend, hvalue, rfl⟩
        simp [hm] at hmatch
      have hrest := ih (c :: behind)
      rw [hafter, searchFrom_skipped]
      simp only
      generalize searchFrom componentsPattern (c :: behind) [] text = found at hrest
      generalize splitAtComponents? text = split at hrest
      cases hrest with
      | none => exact .none
      | some hthrough =>
        obtain ⟨behind', key, value, ahead, hkey, hvalue, hfound, rfl⟩ := hthrough
        exact .some ⟨behind', key, value, ahead, hkey, hvalue, hfound, rfl⟩

theorem expandDirectivesBy_eq (names : List String) (text : List Char) :
    expandDirectivesBy directivesPattern names text = expandDirectives names text := by
  rw [expandDirectivesBy, searchFrom_directives]
  cases hm : matchAt directivesPattern ⟨[], text⟩ with
  | none =>
    refine withDirectives_iff.mp (.plain ?_)
    rintro through behind ⟨blanks, key, hblanks, hkey, hend, hexpanded, rfl, htext⟩
    have hmatch := (matchAt_directives text _).mpr ⟨blanks ++ key, [], behind, htext,
      ⟨blanks, key, hblanks, hkey, rfl⟩, hend, .nothing hexpanded, rfl⟩
    simp [hm] at hmatch
  | some m =>
    obtain ⟨through, value, ahead, rfl, hthrough, hend, hvalue, rfl⟩ :=
      (matchAt_directives text m).mp hm
    have hmark := hasValue_iff [] (getLast?_nextKey hthrough) hvalue
    rw [expandDirectives, splitAtDirectives?_append hthrough hend]
    simp only [Option.map_some, Bool.eq_iff_iff.mpr (hmark.trans isExpanded_iff.symm)]
    cases hexpanded : isExpanded (value ++ ahead) with
    | true => rfl
    | false =>
      obtain rfl := hvalue.eq_nil hexpanded
      simp [Match.unnamed]

-- Expanding the barrel is what the patterns for its keys say, whatever its text.
theorem expand_eq_expandBy :
    ∃ components directives, ofText? componentsText = some components ∧
      ofText? directivesText = some directives ∧
      ∀ source names names',
        expand source names names' = expandBy components directives source names names' := by
  refine ⟨_, _, ofText?_componentsText, ofText?_directivesText, fun source names names' => ?_⟩
  have hsearch := searchFrom_components [] source.toList
  rw [expand, expandBy]
  generalize searchFrom componentsPattern [] [] source.toList = found at hsearch
  generalize splitAtComponents? source.toList = split at hsearch
  cases hsearch with
  | none => rfl
  | @some found split h =>
    obtain ⟨before, m⟩ := found
    obtain ⟨behind, key, value, ahead, hkey, hvalue, rfl, rfl⟩ := h
    have hmark := hasValue_iff behind (getLast?_componentsKey hkey) hvalue
    simp only [Bool.eq_iff_iff.mpr (hmark.trans isExpanded_iff.symm), expandDirectivesBy_eq]
    cases hexpanded : isExpanded (value ++ ahead) with
    | true => rfl
    | false =>
      obtain rfl := hvalue.eq_nil hexpanded
      simp [Match.unnamed]

end Expansion

end Treeshake.Source.Barrel
