import Treeshake.Pattern.Reader
import Treeshake.Proofs.Text.Trim

namespace Treeshake.Pattern

variable {α : Type} {once : Once α} {word : List Char → Prop} {rest : Rest α}

-- A part takes words of one kind and leaves the groups as they are. Each way to go on is one that
-- it finds, whatever way it prefers.
def Takes (once : Once α) (word : List Char → Prop) (rest : Rest α) : Prop :=
  ∀ behind ahead captures r, once rest ⟨behind, ahead⟩ captures = some r ↔
    ∃ w ahead', ahead = w ++ ahead' ∧ word w ∧
      rest ⟨w.reverse ++ behind, ahead'⟩ captures = some r

-- The rest does not go on in front of such a character.
def Stops (rest : Rest α) (bad : Char → Prop) : Prop :=
  ∀ behind c ahead captures, bad c → rest ⟨behind, c :: ahead⟩ captures = none

theorem Takes.stops (h : Takes once word rest) {bad : Char → Prop}
    (hword : ∀ c w, bad c → ¬word (c :: w)) (hrest : word [] → Stops rest bad) :
    Stops (once rest) bad := by
  intro behind c ahead captures hc
  rw [Option.eq_none_iff_forall_ne_some]
  intro r hr
  obtain ⟨w, ahead', heq, hw, hgo⟩ := (h _ _ _ _).mp hr
  cases w with
  | nil =>
    rw [List.nil_append] at heq
    simp [← heq, hrest hw behind c ahead captures hc] at hgo
  | cons d w =>
    obtain ⟨rfl, -⟩ := List.cons.inj heq
    exact hword c w hc hw

theorem Takes.after {once' : Once α} {word' : List Char → Prop} (h' : Takes once' word' rest)
    (h : Takes once word (once' rest)) :
    Takes (fun rest => once (once' rest)) (fun w => ∃ u v, w = u ++ v ∧ word u ∧ word' v) rest := by
  intro behind ahead captures r
  rw [h]
  constructor
  · rintro ⟨u, ahead', rfl, hu, hgo⟩
    obtain ⟨v, ahead'', rfl, hv, hgo⟩ := (h' _ _ _ _).mp hgo
    exact ⟨u ++ v, ahead'', by simp, ⟨u, v, rfl, hu, hv⟩, by simpa using hgo⟩
  · rintro ⟨_, ahead'', rfl, ⟨u, v, rfl, hu, hv⟩, hgo⟩
    refine ⟨u, v ++ ahead'', by simp, hu, (h' _ _ _ _).mpr ⟨v, ahead'', rfl, hv, ?_⟩⟩
    simpa using hgo

def literal (w : List Char) : List Pattern := w.map fun c => .set (.only c)

theorem runAll_append (parts parts' : List Pattern) (rest : Rest α) :
    runAll (parts ++ parts') rest = runAll parts (runAll parts' rest) := by
  induction parts with
  | nil => simp [runAll]
  | cons p parts ih => simp [runAll, ih]

theorem run_set_cons (s : CharSet) (behind : List Char) (c : Char) (ahead : List Char)
    (captures : Captures) :
    run (.set s) rest ⟨behind, c :: ahead⟩ captures =
      if s.has c then rest ⟨c :: behind, ahead⟩ captures else none := by
  simp [run, Place.next?]

theorem run_set_nil (s : CharSet) (behind : List Char) (captures : Captures) :
    run (.set s) rest ⟨behind, []⟩ captures = none := by
  simp [run, Place.next?]

theorem takes_set (s : CharSet) (rest : Rest α) :
    Takes (run (.set s)) (fun w => ∃ c, w = [c] ∧ s.has c = true) rest := by
  intro behind ahead captures r
  cases ahead with
  | nil =>
    rw [run_set_nil]
    simp
  | cons c ahead =>
    rw [run_set_cons]
    constructor
    · intro hr
      split at hr
      · next hc => exact ⟨[c], ahead, rfl, ⟨c, rfl, hc⟩, by simpa using hr⟩
      · cases hr
    · rintro ⟨_, ahead', heq, ⟨d, rfl, hd⟩, hgo⟩
      obtain ⟨rfl, rfl⟩ := List.cons.inj heq
      rw [if_pos hd]
      simpa using hgo

theorem takes_literal (w : List Char) (rest : Rest α) :
    Takes (runAll (literal w)) (· = w) rest := by
  intro behind ahead captures r
  induction w generalizing behind ahead with
  | nil =>
    constructor
    · intro hgo
      exact ⟨[], ahead, rfl, rfl, hgo⟩
    · rintro ⟨_, ahead', rfl, rfl, hgo⟩
      exact hgo
  | cons c w ih =>
    refine (takes_set (.only c) (runAll (literal w) rest) behind ahead captures r).trans ?_
    constructor
    · rintro ⟨_, ahead', rfl, ⟨d, rfl, hd⟩, hgo⟩
      obtain rfl : d = c := by simpa [CharSet.has] using hd
      obtain ⟨_, ahead'', rfl, rfl, hend⟩ := (ih _ _).mp hgo
      exact ⟨_, ahead'', rfl, rfl, by simpa using hend⟩
    · rintro ⟨_, ahead', rfl, rfl, hgo⟩
      refine ⟨[c], w ++ ahead', rfl, ⟨c, rfl, by simp [CharSet.has]⟩, ?_⟩
      exact (ih _ _).mpr ⟨w, ahead', rfl, rfl, by simpa using hgo⟩

-- A name to look for stands in front of a mark that it does not hold.
def GoesOnAt (mark : Char) (rest : Rest α) : Prop :=
  ∀ behind ahead captures r, rest ⟨behind, ahead⟩ captures = some r → ahead.head? = some mark

theorem goesOnAt_literal (mark : Char) (w : List Char) (rest : Rest α) :
    GoesOnAt mark (runAll (literal (mark :: w)) rest) := by
  intro behind ahead captures r hr
  obtain ⟨_, ahead', rfl, rfl, -⟩ := (takes_literal (mark :: w) rest _ _ _ _).mp hr
  rfl

theorem GoesOnAt.stops {mark : Char} (h : GoesOnAt mark rest) : Stops rest (· ≠ mark) := by
  intro behind c ahead captures hc
  rw [Option.eq_none_iff_forall_ne_some]
  intro r hr
  exact hc (by simpa using h _ _ _ _ hr)

section Repetition

variable {s : CharSet}

-- The rest fails in front of the repeated characters, so only the longest way is left.
theorem upTo_set (hstop : Stops rest (s.has · = true)) {fuel : Nat} {ahead : List Char}
    (hfuel : ahead.length < fuel) (behind : List Char) (captures : Captures) (r : α) :
    upTo (run (.set s)) true fuel rest ⟨behind, ahead⟩ captures = some r ↔
      ∃ w ahead', ahead = w ++ ahead' ∧ (∀ c ∈ w, s.has c = true) ∧
        rest ⟨w.reverse ++ behind, ahead'⟩ captures = some r := by
  induction fuel generalizing ahead behind with
  | zero => omega
  | succ fuel ih =>
    cases ahead with
    | nil =>
      simp only [upTo, run_set_nil, if_true, Option.orElse_eq_orElse, Option.orElse_eq_or,
        Option.none_or]
      constructor
      · intro hgo
        exact ⟨[], [], rfl, by simp, hgo⟩
      · rintro ⟨w, ahead', heq, -, hgo⟩
        obtain ⟨rfl, rfl⟩ := List.append_eq_nil_iff.mp heq.symm
        exact hgo
    | cons c ahead =>
      simp only [upTo, run_set_cons]
      by_cases hc : s.has c = true
      · have hlen : ahead.length < fuel := by simpa using hfuel
        simp only [hc, if_true, List.length_cons, Nat.lt_succ_self, hstop _ _ _ _ hc,
          Option.orElse_eq_orElse, Option.orElse_eq_or, Option.or_none]
        rw [ih hlen]
        constructor
        · rintro ⟨w, ahead', rfl, hw, hgo⟩
          exact ⟨c :: w, ahead', rfl, by simpa [hc] using hw, by simpa using hgo⟩
        · rintro ⟨w, ahead', heq, hw, hgo⟩
          cases w with
          | nil =>
            rw [List.nil_append] at heq
            simp [← heq, hstop _ _ _ _ hc] at hgo
          | cons d w =>
            obtain ⟨rfl, rfl⟩ := List.cons.inj heq
            exact ⟨w, ahead', rfl, fun x hx => hw x (by simp [hx]), by simpa using hgo⟩
      · simp only [hc, if_false, if_true, Option.orElse_eq_orElse, Option.orElse_eq_or,
          Option.none_or, Bool.false_eq_true]
        constructor
        · intro hgo
          exact ⟨[], c :: ahead, rfl, by simp, by simpa using hgo⟩
        · rintro ⟨w, ahead', heq, hw, hgo⟩
          cases w with
          | nil =>
            rw [List.nil_append] at heq
            simpa [← heq] using hgo
          | cons d w =>
            obtain ⟨rfl, -⟩ := List.cons.inj heq
            exact absurd (hw c (by simp)) hc

theorem takes_exactly (s : CharSet) (least : Nat) {more : List Char → Prop}
    (h : Takes once more rest) :
    Takes (fun rest => exactly (run (.set s)) least (once rest))
      (fun w => ∃ u v, w = u ++ v ∧ u.length = least ∧ (∀ c ∈ u, s.has c = true) ∧ more v)
      rest := by
  induction least with
  | zero =>
    intro behind ahead captures r
    refine (h behind ahead captures r).trans ?_
    constructor
    · rintro ⟨w, ahead', rfl, hw, hgo⟩
      exact ⟨w, ahead', rfl, ⟨[], w, rfl, rfl, by simp, hw⟩, hgo⟩
    · rintro ⟨_, ahead', rfl, ⟨u, v, rfl, hlen, -, hv⟩, hgo⟩
      obtain rfl := List.length_eq_zero_iff.mp hlen
      exact ⟨v, ahead', rfl, hv, hgo⟩
  | succ least ih =>
    intro behind ahead captures r
    refine (ih.after (takes_set s _) behind ahead captures r).trans ?_
    constructor
    · rintro ⟨_, ahead', rfl, ⟨_, _, rfl, ⟨c, rfl, hc⟩, u, v, rfl, hlen, hu, hv⟩, hgo⟩
      exact ⟨_, ahead', rfl, ⟨c :: u, v, by simp, by simp [hlen], by simpa [hc] using hu, hv⟩, hgo⟩
    · rintro ⟨_, ahead', rfl, ⟨u, v, rfl, hlen, hu, hv⟩, hgo⟩
      cases u with
      | nil => cases hlen
      | cons c u =>
        have hlen : u.length = least := by simpa using hlen
        exact ⟨_, ahead', rfl, ⟨[c], u ++ v, by simp, ⟨c, rfl, hu c (by simp)⟩, u, v, rfl, hlen,
          fun x hx => hu x (by simp [hx]), hv⟩, hgo⟩

-- A repetition that is followed by none of its characters takes all that there are.
theorem takes_times (least : Nat) (hstop : Stops rest (s.has · = true)) :
    Takes (run (.times least none true (.set s)))
      (fun w => least ≤ w.length ∧ ∀ c ∈ w, s.has c = true) rest := by
  intro behind ahead captures r
  have hmore : Takes
      (fun rest place => upTo (run (.set s)) true (place.ahead.length + 1) rest place)
      (fun w => ∀ c ∈ w, s.has c = true) rest :=
    fun behind ahead captures r => upTo_set hstop (Nat.lt_succ_self _) behind captures r
  have hrun := takes_exactly s least hmore behind ahead captures r
  rw [run]
  refine hrun.trans ?_
  constructor
  · rintro ⟨_, ahead', rfl, ⟨u, v, rfl, hlen, hu, hv⟩, hgo⟩
    refine ⟨_, ahead', rfl, ⟨by simp [← hlen], fun c hc => ?_⟩, hgo⟩
    rcases List.mem_append.mp hc with hc | hc
    · exact hu c hc
    · exact hv c hc
  · rintro ⟨w, ahead', rfl, ⟨hlen, hw⟩, hgo⟩
    refine ⟨w, ahead', rfl, ⟨w.take least, w.drop least, by simp,
      List.length_take_of_le hlen, ?_, ?_⟩, hgo⟩
    · exact fun c hc => hw c (List.mem_of_mem_take hc)
    · exact fun c hc => hw c (List.mem_of_mem_drop hc)

end Repetition

section Blanks

open Source.Barrel (Blanks)

def blanks (least : Nat) : Pattern := .times least none true (.set (.property .blank))

theorem takes_blanks (least : Nat) (h : Stops rest (Unicode.isBlank · = true)) :
    Takes (run (blanks least)) (fun w => least ≤ w.length ∧ Blanks w) rest :=
  takes_times least h

theorem stops_blank_of_goesOnAt {mark : Char} (h : GoesOnAt mark rest)
    (hmark : Unicode.isBlank mark = false) : Stops rest (Unicode.isBlank · = true) := by
  intro behind c ahead captures hc
  refine h.stops behind c ahead captures ?_
  rintro rfl
  simp [hc] at hmark

end Blanks

-- A rest that goes on wherever it is tried, so that nothing is tried twice.
def Total (rest : Rest α) : Prop := ∀ place captures, (rest place captures).isSome

theorem between_append (behind behind' w ahead : List Char) :
    between ⟨behind, w ++ ahead⟩ ⟨behind', ahead⟩ = w := by
  simp [between]

-- What is left at the end of a pattern: to keep what has been matched.
def matched (start : Place) : Rest Match :=
  fun stop captures => some ⟨between start stop, captures, stop⟩

theorem total_matched (start : Place) : Total (matched start) := fun _ _ => rfl

-- A match by a pattern that names no groups.
def Match.unnamed (behind w ahead : List Char) : Match := ⟨w, [], ⟨w.reverse ++ behind, ahead⟩⟩

theorem matched_append (behind w ahead : List Char) :
    matched ⟨behind, w ++ ahead⟩ ⟨w.reverse ++ behind, ahead⟩ [] = some (.unnamed behind w ahead) := by
  rw [matched, between_append]
  rfl

-- A repetition takes all characters of its set that there are.
theorem upTo_total {s : CharSet} (hrest : Total rest) {fuel : Nat} {ahead : List Char}
    (hfuel : ahead.length < fuel) (behind : List Char) (captures : Captures) :
    upTo (run (.set s)) true fuel rest ⟨behind, ahead⟩ captures =
      rest ⟨(ahead.takeWhile s.has).reverse ++ behind, ahead.dropWhile s.has⟩ captures := by
  induction fuel generalizing ahead behind with
  | zero => omega
  | succ fuel ih =>
    cases ahead with
    | nil => simp [upTo, run_set_nil]
    | cons c ahead =>
      have hlen : ahead.length < fuel := by simpa using hfuel
      cases hc : s.has c with
      | false => simp [upTo, run_set_cons, hc]
      | true =>
        obtain ⟨r, hr⟩ := Option.isSome_iff_exists.mp
          (hrest ⟨(ahead.takeWhile s.has).reverse ++ c :: behind, ahead.dropWhile s.has⟩ captures)
        simp [upTo, run_set_cons, hc, ih hlen, hr]

theorem run_times_total {s : CharSet} (hrest : Total rest) (behind ahead : List Char)
    (captures : Captures) :
    run (.times 0 none true (.set s)) rest ⟨behind, ahead⟩ captures =
      rest ⟨(ahead.takeWhile s.has).reverse ++ behind, ahead.dropWhile s.has⟩ captures := by
  rw [run]
  exact upTo_total hrest (Nat.lt_succ_self _) behind captures

-- A part that may be left out is tried first.
theorem run_optional (p : Pattern) (rest : Rest α) (place : Place) (captures : Captures) :
    run (.times 0 (some 1) true p) rest place captures =
      (run p rest place captures).or (rest place captures) := by
  simp [run, exactly, upTo]

-- A mark that may be there or not.
def atMostOne (mark : Char) : Pattern := .times 0 (some 1) true (.set (.only mark))

def marked (mark : Char) (present : Bool) : List Char := if present then [mark] else []

theorem run_atMostOne (mark : Char) (hrest : Total rest) (behind ahead : List Char)
    (captures : Captures) :
    run (atMostOne mark) rest ⟨behind, ahead⟩ captures =
      if ahead.head? = some mark then rest ⟨mark :: behind, ahead.tail⟩ captures
      else rest ⟨behind, ahead⟩ captures := by
  rw [atMostOne, run_optional]
  cases ahead with
  | nil => simp [run_set_nil]
  | cons c ahead =>
    by_cases hc : c = mark
    · subst hc
      obtain ⟨r, hr⟩ := Option.isSome_iff_exists.mp (hrest ⟨c :: behind, ahead⟩ captures)
      simp [run_set_cons, CharSet.has, hr]
    · simp [run_set_cons, CharSet.has, hc]

theorem total_atMostOne (mark : Char) (hrest : Total rest) : Total (run (atMostOne mark) rest) := by
  rintro ⟨behind, ahead⟩ captures
  rw [run_atMostOne mark hrest]
  split
  · exact hrest _ _
  · exact hrest _ _

-- A mark that is there is taken.
theorem run_atMostOne_eq_some_iff (mark : Char) (hrest : Total rest) (behind ahead : List Char)
    (captures : Captures) (r : α) :
    run (atMostOne mark) rest ⟨behind, ahead⟩ captures = some r ↔
      ∃ present ahead', ahead = marked mark present ++ ahead' ∧
        (present = false → ahead'.head? ≠ some mark) ∧
        rest ⟨(marked mark present).reverse ++ behind, ahead'⟩ captures = some r := by
  rw [run_atMostOne mark hrest]
  constructor
  · intro hr
    split at hr
    · next hhead =>
      obtain ⟨tail, rfl⟩ : ∃ tail, ahead = mark :: tail := List.head?_eq_some_iff.mp hhead
      exact ⟨true, tail, rfl, by simp, by simpa [marked] using hr⟩
    · next hhead => exact ⟨false, ahead, rfl, fun _ => hhead, by simpa [marked] using hr⟩
  · rintro ⟨present, ahead', rfl, hhead, hgo⟩
    cases present with
    | true => simpa [marked] using hgo
    | false => simpa [marked, hhead rfl] using hgo

section Groups

variable {inner : Pattern}

-- A group keeps what the pattern inside it has taken.
theorem run_group_eq_some_iff (name : String)
    (h : ∀ start, Takes (run inner) word
      (fun stop captures => rest stop ((name, between start stop) :: captures)))
    (behind ahead : List Char) (captures : Captures) (r : α) :
    run (.group (some name) inner) rest ⟨behind, ahead⟩ captures = some r ↔
      ∃ w ahead', ahead = w ++ ahead' ∧ word w ∧
        rest ⟨w.reverse ++ behind, ahead'⟩ ((name, w) :: captures) = some r := by
  rw [run]
  refine (h ⟨behind, ahead⟩ behind ahead captures r).trans ?_
  constructor
  · rintro ⟨w, ahead', rfl, hw, hgo⟩
    simp only [between_append] at hgo
    exact ⟨w, ahead', rfl, hw, hgo⟩
  · rintro ⟨w, ahead', rfl, hw, hgo⟩
    refine ⟨w, ahead', rfl, hw, ?_⟩
    simp only [between_append]
    exact hgo

theorem takes_group (h : Takes (run inner) word rest) :
    Takes (run (.group none inner)) word rest := by
  intro behind ahead captures r
  rw [run]
  exact h behind ahead captures r

end Groups

section Alternation

theorem sequence_of_two_le {parts : List Pattern} (h : 2 ≤ parts.length) :
    Reader.sequence parts = .seq parts.reverse := by
  match parts with
  | _ :: _ :: _ => rfl

theorem run_sequence (parts : List Pattern) (rest : Rest α) :
    run (Reader.sequence parts) rest = runAll parts.reverse rest := by
  match parts with
  | [] => simp [Reader.sequence, run]
  | [p] => simp [Reader.sequence, runAll]
  | p :: p' :: parts => simp [Reader.sequence, run]

def wordPattern (w : List Char) : Pattern := Reader.sequence (literal w).reverse

theorem takes_wordPattern (w : List Char) (rest : Rest α) :
    Takes (run (wordPattern w)) (· = w) rest := by
  have hrun : run (α := α) (wordPattern w) = runAll (literal w) := by
    funext rest
    rw [wordPattern, run_sequence, List.reverse_reverse]
  rw [hrun]
  exact takes_literal w rest

-- Two words without the mark that stand in front of it, at the start of one text.
theorem word_unique {mark : Char} {w w' ahead ahead' : List Char} (h : w ++ ahead = w' ++ ahead')
    (hw : mark ∉ w) (hw' : mark ∉ w') (hahead : ahead.head? = some mark)
    (hahead' : ahead'.head? = some mark) : w = w' ∧ ahead = ahead' := by
  have hother {v : List Char} (hv : mark ∉ v) : ∀ c ∈ v, (c != mark) = true :=
    fun c hc => bne_iff_ne.mpr fun heq => hv (heq ▸ hc)
  exact Text.span_unique h (hother hw) (hother hw') (by simp [hahead]) (by simp [hahead'])

-- At most one of the words stands in front of the mark, so their order does not matter, nor does
-- it when one of them begins another.
theorem runAny_words {mark : Char} (hrest : GoesOnAt mark rest) {words : List (List Char)}
    (hwords : ∀ w ∈ words, mark ∉ w) (behind ahead : List Char) (captures : Captures) (r : α) :
    runAny (words.map wordPattern) rest ⟨behind, ahead⟩ captures = some r ↔
      ∃ w ahead', ahead = w ++ ahead' ∧ w ∈ words ∧
        rest ⟨w.reverse ++ behind, ahead'⟩ captures = some r := by
  induction words with
  | nil => simp [runAny]
  | cons v words ih =>
    have hfirst := takes_wordPattern v rest behind ahead captures
    have hmore := ih fun w hw => hwords w (by simp [hw])
    simp only [List.map_cons, runAny, Option.orElse_eq_orElse, Option.orElse_eq_or,
      Option.or_eq_some_iff]
    constructor
    · rintro (hr | ⟨-, hr⟩)
      · obtain ⟨w, ahead', rfl, rfl, hgo⟩ := (hfirst r).mp hr
        exact ⟨w, ahead', rfl, by simp, hgo⟩
      · obtain ⟨w, ahead', rfl, hw, hgo⟩ := hmore.mp hr
        exact ⟨w, ahead', rfl, by simp [hw], hgo⟩
    · rintro ⟨w, ahead', rfl, hw, hgo⟩
      cases hv : run (wordPattern v) rest ⟨behind, w ++ ahead'⟩ captures with
      | none =>
        refine .inr ⟨rfl, hmore.mpr ⟨w, ahead', rfl, ?_, hgo⟩⟩
        rcases List.mem_cons.mp hw with rfl | hw
        · simp [(hfirst r).mpr ⟨w, ahead', rfl, rfl, hgo⟩] at hv
        · exact hw
      | some r' =>
        obtain ⟨_, ahead'', heq, rfl, hgo'⟩ := (hfirst r').mp hv
        obtain ⟨rfl, rfl⟩ := word_unique heq (hwords w hw) (hwords _ (by simp))
          (hrest _ _ _ _ hgo) (hrest _ _ _ _ hgo')
        rw [hgo] at hgo'
        exact .inl hgo'.symm

-- The words in their order, as they are read between bars.
def wordsPattern (words : List (List Char)) : Pattern :=
  match words with
  | [w] => wordPattern w
  | words => .alt (words.map wordPattern)

theorem takes_wordsPattern {mark : Char} (hrest : GoesOnAt mark rest) {words : List (List Char)}
    (hwords : ∀ w ∈ words, mark ∉ w) : Takes (run (wordsPattern words)) (· ∈ words) rest := by
  intro behind ahead captures r
  match words with
  | [] => simp [wordsPattern, run, runAny]
  | [w] =>
    refine (takes_wordPattern w rest behind ahead captures r).trans ?_
    simp
  | v :: w :: words =>
    rw [wordsPattern, run]
    · exact runAny_words hrest hwords behind ahead captures r
    · simp

end Alternation

end Treeshake.Pattern
