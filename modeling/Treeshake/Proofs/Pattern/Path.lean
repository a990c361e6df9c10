import Treeshake.Proofs.Pattern.Matching

namespace Treeshake.Pattern

-- The ways that a pattern can take through a text, whatever it prefers.
inductive Path : Pattern → Place → Place → Prop
  | set {s : CharSet} {c : Char} {place place' : Place} (hnext : place.next? = some (c, place'))
      (hc : s.has c = true) : Path (.set s) place place'
  | look {l : Look} {place : Place} (h : holdsAt l place = true) : Path (.look l) place place
  | nil {place : Place} : Path (.seq []) place place
  | cons {p : Pattern} {parts : List Pattern} {place mid place' : Place}
      (first : Path p place mid) (more : Path (.seq parts) mid place') :
      Path (.seq (p :: parts)) place place'
  | choice {p : Pattern} {choices : List Pattern} {place place' : Place} (hp : p ∈ choices)
      (h : Path p place place') : Path (.alt choices) place place'
  | group {name : Option String} {inner : Pattern} {place place' : Place}
      (h : Path inner place place') : Path (.group name inner) place place'
  | must {least : Nat} {most : Option Nat} {greedy : Bool} {inner : Pattern}
      {place mid place' : Place} (once : Path inner place mid)
      (more : Path (.times least (most.map Nat.pred) greedy inner) mid place') :
      Path (.times (least + 1) most greedy inner) place place'
  | stop {most : Option Nat} {greedy : Bool} {inner : Pattern} {place : Place} :
      Path (.times 0 most greedy inner) place place
  | again {most : Option Nat} {greedy : Bool} {inner : Pattern} {place mid place' : Place}
      (hmost : most ≠ some 0) (once : Path inner place mid)
      (hlen : mid.ahead.length < place.ahead.length)
      (more : Path (.times 0 (most.map Nat.pred) greedy inner) mid place') :
      Path (.times 0 most greedy inner) place place'

theorem Place.next?_eq_some_iff {place place' : Place} {c : Char} :
    place.next? = some (c, place') ↔
      place.ahead = c :: place'.ahead ∧ place'.behind = c :: place.behind := by
  obtain ⟨behind, ahead⟩ := place
  obtain ⟨behind', ahead'⟩ := place'
  cases ahead with
  | nil => simp [next?]
  | cons d ahead =>
    simp only [next?, Option.some.injEq, Prod.mk.injEq, mk.injEq, List.cons.injEq]
    constructor
    · rintro ⟨rfl, rfl, rfl⟩
      exact ⟨⟨rfl, rfl⟩, rfl⟩
    · rintro ⟨⟨rfl, rfl⟩, rfl⟩
      exact ⟨rfl, rfl, rfl⟩

-- A way takes a stretch of the text ahead.
theorem Path.exists_taken {p : Pattern} {place place' : Place} (h : Path p place place') :
    ∃ w, place.ahead = w ++ place'.ahead ∧ place'.behind = w.reverse ++ place.behind := by
  have hjoin {place mid place' : Place}
      (first : ∃ w, place.ahead = w ++ mid.ahead ∧ mid.behind = w.reverse ++ place.behind)
      (more : ∃ w, mid.ahead = w ++ place'.ahead ∧ place'.behind = w.reverse ++ mid.behind) :
      ∃ w, place.ahead = w ++ place'.ahead ∧ place'.behind = w.reverse ++ place.behind := by
    obtain ⟨v, hv, hv'⟩ := first
    obtain ⟨w, hw, hw'⟩ := more
    exact ⟨v ++ w, by simp [hv, hw], by simp [hw', hv']⟩
  induction h with
  | set hnext _ =>
    obtain ⟨hahead, hbehind⟩ := Place.next?_eq_some_iff.mp hnext
    exact ⟨[_], hahead, hbehind⟩
  | look _ => exact ⟨[], rfl, rfl⟩
  | nil => exact ⟨[], rfl, rfl⟩
  | cons _ _ first more => exact hjoin first more
  | choice _ _ ih => exact ih
  | group _ ih => exact ih
  | must _ _ once more => exact hjoin once more
  | stop => exact ⟨[], rfl, rfl⟩
  | again _ _ _ _ once more => exact hjoin once more

-- A way that takes nothing ends where it starts.
theorem Path.eq_of_length_le {p : Pattern} {place place' : Place} (h : Path p place place')
    (hlen : place.ahead.length ≤ place'.ahead.length) : place' = place := by
  obtain ⟨w, hahead, hbehind⟩ := h.exists_taken
  obtain rfl : w = [] := by
    rw [hahead, List.length_append] at hlen
    exact List.eq_nil_of_length_eq_zero (by omega)
  obtain ⟨behind, ahead⟩ := place
  obtain ⟨behind', ahead'⟩ := place'
  simp_all

section Matches

variable {α : Type} {inner : Pattern} {greedy : Bool} {rest : Rest α} {r : α}

-- Every match takes one of the ways, and goes on from its end.
def Follows (p : Pattern) (α : Type) : Prop :=
  ∀ (rest : Rest α) (place : Place) (captures : Captures) (r : α),
    run p rest place captures = some r →
      ∃ place' captures', Path p place place' ∧ rest place' captures' = some r

theorem exists_path_upTo (hinner : Follows inner α) {most : Option Nat} {fuel : Nat}
    (hfuel : ∀ n ∈ most, fuel ≤ n) {place : Place} {captures : Captures}
    (h : upTo (run inner) greedy fuel rest place captures = some r) :
    ∃ place' captures', Path (.times 0 most greedy inner) place place' ∧
      rest place' captures' = some r := by
  induction fuel generalizing most place captures with
  | zero => exact ⟨place, captures, .stop, h⟩
  | succ fuel ih =>
    have hmost : most ≠ some 0 := by
      rintro rfl
      exact absurd (hfuel 0 rfl) (by omega)
    have hfuel' : ∀ n ∈ most.map Nat.pred, fuel ≤ n := by
      intro n hn
      obtain ⟨m, hm, rfl⟩ := Option.map_eq_some_iff.mp hn
      exact Nat.le_sub_of_add_le (hfuel m hm)
    have hagain (hrun : run inner
        (fun place' captures' =>
          if place'.ahead.length < place.ahead.length then
            upTo (run inner) greedy fuel rest place' captures'
          else rest place' captures') place captures = some r) :
        ∃ place' captures', Path (.times 0 most greedy inner) place place' ∧
          rest place' captures' = some r := by
      obtain ⟨mid, captures', hmid, hgo⟩ := hinner _ _ _ _ hrun
      split at hgo
      · next hlen =>
        obtain ⟨place', captures', hmore, hgo⟩ := ih hfuel' hgo
        exact ⟨place', captures', .again hmost hmid hlen hmore, hgo⟩
      · next hlen =>
        obtain rfl := hmid.eq_of_length_le (Nat.le_of_not_lt hlen)
        exact ⟨mid, captures', .stop, hgo⟩
    rw [upTo] at h
    simp only [Option.orElse_eq_orElse, Option.orElse_eq_or] at h
    split at h
    · rcases Option.or_eq_some_iff.mp h with hrun | ⟨-, hrest⟩
      · exact hagain hrun
      · exact ⟨place, captures, .stop, hrest⟩
    · rcases Option.or_eq_some_iff.mp h with hrest | ⟨-, hrun⟩
      · exact ⟨place, captures, .stop, hrest⟩
      · exact hagain hrun

theorem run_times_succ (least : Nat) (most : Option Nat) (greedy : Bool) (inner : Pattern)
    (rest : Rest α) :
    run (.times (least + 1) most greedy inner) rest =
      run inner (run (.times least (most.map Nat.pred) greedy inner) rest) := by
  cases most with
  | none => simp [run, exactly]
  | some most =>
    have hmore : most - (least + 1) = most.pred - least := by simp only [Nat.pred_eq_sub_one]; omega
    simp [run, exactly, hmore]

theorem exists_path_times (hinner : Follows inner α) (least : Nat) (most : Option Nat)
    (greedy : Bool) : Follows (.times least most greedy inner) α := by
  intro rest place captures r h
  induction least generalizing most place captures with
  | zero =>
    rw [run, exactly] at h
    refine exists_path_upTo hinner ?_ h
    rintro n rfl
    simp
  | succ least ih =>
    rw [run_times_succ] at h
    obtain ⟨mid, captures', hmid, hgo⟩ := hinner _ _ _ _ h
    obtain ⟨place', captures', hmore, hgo⟩ := ih _ _ _ hgo
    exact ⟨place', captures', .must hmid hmore, hgo⟩

mutual

theorem exists_path (α : Type) (p : Pattern) : Follows p α := by
  intro rest place captures r h
  match p with
  | .set s =>
    simp only [run] at h
    split at h
    · next c place' hnext =>
      split at h
      · next hc => exact ⟨place', captures, .set hnext hc, h⟩
      · cases h
    · cases h
  | .look l =>
    simp only [run] at h
    split at h
    · next hl => exact ⟨place, captures, .look hl, h⟩
    · cases h
  | .seq parts =>
    rw [run] at h
    exact exists_path_seq α parts rest place captures r h
  | .alt choices =>
    rw [run] at h
    obtain ⟨p, hp, place', captures', hpath, hgo⟩ :=
      exists_path_alt α choices rest place captures r h
    exact ⟨place', captures', .choice hp hpath, hgo⟩
  | .group name inner =>
    rw [run] at h
    obtain ⟨place', captures', hpath, hgo⟩ := exists_path α inner _ _ _ _ h
    cases name with
    | none => exact ⟨place', _, .group hpath, hgo⟩
    | some name => exact ⟨place', _, .group hpath, hgo⟩
  | .times least most greedy inner =>
    exact exists_path_times (exists_path α inner) least most greedy rest place captures r h

theorem exists_path_seq (α : Type) (parts : List Pattern) : Follows (.seq parts) α := by
  intro rest place captures r h
  rw [run] at h
  match parts with
  | [] => exact ⟨place, captures, .nil, h⟩
  | p :: parts =>
    rw [runAll] at h
    obtain ⟨mid, captures', hmid, hgo⟩ := exists_path α p _ _ _ _ h
    obtain ⟨place', captures', hmore, hgo⟩ :=
      exists_path_seq α parts rest mid captures' r (by rwa [run])
    exact ⟨place', captures', .cons hmid hmore, hgo⟩

theorem exists_path_alt (α : Type) (choices : List Pattern) (rest : Rest α) (place : Place)
    (captures : Captures) (r : α) (h : runAny choices rest place captures = some r) :
    ∃ p ∈ choices, ∃ place' captures', Path p place place' ∧
      rest place' captures' = some r := by
  match choices with
  | [] => cases h
  | p :: choices =>
    rw [runAny] at h
    simp only [Option.orElse_eq_orElse, Option.orElse_eq_or] at h
    rcases Option.or_eq_some_iff.mp h with hp | ⟨-, hmore⟩
    · exact ⟨p, by simp, exists_path α p _ _ _ _ hp⟩
    · obtain ⟨q, hq, hpath⟩ := exists_path_alt α choices rest place captures r hmore
      exact ⟨q, by simp [hq], hpath⟩

end

-- The rest goes on from a place, whatever the groups have matched.
def Accepts (rest : Rest α) (place : Place) : Prop := ∀ captures, (rest place captures).isSome

theorem isSome_or {a b : Option α} : (a <|> b).isSome = true ↔ a.isSome = true ∨ b.isSome = true := by
  cases a <;> simp

theorem runAny_isSome {choices : List Pattern} {p : Pattern} (hp : p ∈ choices) {place : Place}
    {captures : Captures} (h : (run p rest place captures).isSome) :
    (runAny choices rest place captures).isSome := by
  induction choices with
  | nil => cases hp
  | cons q choices ih =>
    rw [runAny, isSome_or]
    rcases List.mem_cons.mp hp with rfl | hp
    · exact .inl h
    · exact .inr (ih hp)

theorem upTo_isSome_of_rest {fuel : Nat} {place : Place} (h : Accepts rest place) :
    Accepts (upTo (run inner) greedy fuel rest) place := by
  intro captures
  cases fuel with
  | zero => exact h captures
  | succ fuel =>
    simp only [upTo]
    split
    · exact isSome_or.mpr (.inr (h captures))
    · exact isSome_or.mpr (.inl (h captures))

-- A pass that takes something, with the way on from its end.
theorem upTo_isSome_of_again {fuel : Nat} {place mid : Place}
    (honce : ∀ rest : Rest α, Accepts rest mid → Accepts (run inner rest) place)
    (hlen : mid.ahead.length < place.ahead.length)
    (hmore : Accepts (upTo (run inner) greedy fuel rest) mid) :
    Accepts (upTo (run inner) greedy (fuel + 1) rest) place := by
  intro captures
  have hagain := honce
    (fun place' captures' =>
      if place'.ahead.length < place.ahead.length then
        upTo (run inner) greedy fuel rest place' captures'
      else rest place' captures')
    (fun captures' => by simpa only [hlen, if_true] using hmore captures') captures
  simp only [upTo]
  split
  · exact isSome_or.mpr (.inl hagain)
  · exact isSome_or.mpr (.inr hagain)

-- The rest can be reached through the pattern. An unbounded repetition may be run with any number
-- of passes that is large enough.
structure Arrives (p : Pattern) (rest : Rest α) (place : Place) : Prop where
  accepts : Accepts (run p rest) place
  passes : ∀ greedy inner, p = .times 0 none greedy inner → ∀ fuel, place.ahead.length < fuel →
    Accepts (upTo (run inner) greedy fuel rest) place

theorem Arrives.of_accepts {p : Pattern} {place : Place} (h : Accepts (run p rest) place)
    (hp : ∀ greedy inner, p ≠ .times 0 none greedy inner) : Arrives p rest place :=
  ⟨h, fun greedy inner heq => absurd heq (hp greedy inner)⟩

theorem Arrives.stop (most : Option Nat) {place : Place} (h : Accepts rest place) :
    Arrives (.times 0 most greedy inner) rest place := by
  refine ⟨fun captures => ?_, fun greedy inner heq fuel _ => upTo_isSome_of_rest h⟩
  simp only [run, exactly]
  exact upTo_isSome_of_rest h captures

theorem Arrives.again {most : Option Nat} {place mid : Place} (hmost : most ≠ some 0)
    (honce : ∀ rest : Rest α, Accepts rest mid → Accepts (run inner rest) place)
    (hlen : mid.ahead.length < place.ahead.length)
    (hmore : Arrives (.times 0 (most.map Nat.pred) greedy inner) rest mid) :
    Arrives (.times 0 most greedy inner) rest place := by
  have hunbounded (hnone : most = none) (fuel : Nat) (hlt : place.ahead.length < fuel) :
      Accepts (upTo (run inner) greedy fuel rest) place := by
    obtain ⟨fuel, rfl⟩ := Nat.exists_eq_succ_of_ne_zero (Nat.ne_zero_of_lt hlt)
    exact upTo_isSome_of_again honce hlen
      (hmore.passes greedy inner (by simp [hnone]) fuel (by omega))
  refine ⟨fun captures => ?_, fun greedy' inner' heq fuel hlt => ?_⟩
  · simp only [run, exactly]
    cases most with
    | none => exact hunbounded rfl _ (Nat.lt_succ_self _) captures
    | some most =>
      cases most with
      | zero => exact absurd rfl hmost
      | succ most =>
        refine upTo_isSome_of_again honce hlen (fun captures => ?_) captures
        simpa [run, exactly] using hmore.accepts captures
  · simp only [times.injEq] at heq
    obtain ⟨-, rfl, rfl, rfl⟩ := heq
    exact hunbounded rfl fuel hlt

theorem Path.arrives {p : Pattern} {place place' : Place} (h : Path p place place')
    {rest : Rest α} (hrest : Accepts rest place') : Arrives p rest place := by
  induction h generalizing rest with
  | set hnext hc =>
    refine .of_accepts (fun captures => ?_) (by nofun)
    simpa [run, hnext, hc] using hrest captures
  | look hl =>
    refine .of_accepts (fun captures => ?_) (by nofun)
    simpa [run, hl] using hrest captures
  | nil =>
    refine .of_accepts (fun captures => ?_) (by nofun)
    simpa [run, runAll] using hrest captures
  | cons _ _ first more =>
    refine .of_accepts (fun captures => ?_) (by nofun)
    rw [run, runAll]
    have hmore := (more hrest).accepts
    simp only [run] at hmore
    exact (first hmore).accepts captures
  | choice hp _ ih =>
    refine .of_accepts (fun captures => ?_) (by nofun)
    rw [run]
    exact runAny_isSome hp ((ih hrest).accepts captures)
  | @group name _ _ _ _ ih =>
    refine .of_accepts (fun captures => ?_) (by nofun)
    cases name with
    | none => exact (ih hrest).accepts captures
    | some name =>
      have hgroup (place' : Place) : Accepts (fun place'' captures' =>
          rest place'' ((name, between place' place'') :: captures')) _ := fun captures => hrest _
      simp only [run]
      exact (ih (hgroup _)).accepts captures
  | must _ _ once more =>
    refine .of_accepts (fun captures => ?_) (by nofun)
    rw [run_times_succ]
    exact (once (more hrest).accepts).accepts captures
  | stop => exact .stop _ hrest
  | again hmost _ hlen _ once more =>
    exact .again hmost (fun rest hrest => (once hrest).accepts) hlen (more hrest)

-- Every way is one that a match can take.
theorem Path.isSome {p : Pattern} {place place' : Place} (h : Path p place place')
    {rest : Rest α} (hrest : Accepts rest place') : Accepts (run p rest) place :=
  (h.arrives hrest).accepts

end Matches

section Alone

variable {mark mark' : Char} {behind ahead : List Char}

-- A mark that no condition on a place tells from the end of a text.
def Bounds (mark : Char) : Prop :=
  (∀ ascii, isWordChar ascii mark = false) ∧ mark ≠ '\n' ∧ mark ≠ '\r'

theorem holdsAt_alone (hmark : Bounds mark) (hmark' : Bounds mark') (l : Look) (x y : List Char)
    (h : holdsAt l ⟨x.reverse ++ mark :: behind, y ++ mark' :: ahead⟩ = true) :
    holdsAt l ⟨x.reverse, y⟩ = true := by
  obtain ⟨hword, hline, hreturn⟩ := hmark
  obtain ⟨hword', hline', hreturn'⟩ := hmark'
  have hbefore (ascii : Bool) : (x.reverse ++ mark :: behind).head?.any (isWordChar ascii) =
      x.reverse.head?.any (isWordChar ascii) := by
    cases x.reverse <;> simp [hword]
  have hafter (ascii : Bool) : (y ++ mark' :: ahead).head?.any (isWordChar ascii) =
      y.head?.any (isWordChar ascii) := by
    cases y <;> simp [hword']
  cases l with
  | textStart => simp [holdsAt] at h
  | textEnd => simp [holdsAt] at h
  | lineStart => cases hx : x.reverse <;> simp_all [holdsAt]
  | lineEnd => cases y <;> simp_all [holdsAt]
  | anyLineStart => cases hx : x.reverse <;> cases y <;> simp_all [holdsAt]
  | anyLineEnd => cases hx : x.reverse <;> cases y <;> simp_all [holdsAt]
  | wordEdge a => simpa only [holdsAt, hbefore, hafter] using h
  | noWordEdge a => simpa only [holdsAt, hbefore, hafter] using h
  | wordStart a => simpa only [holdsAt, hbefore, hafter] using h
  | wordEnd a => simpa only [holdsAt, hbefore, hafter] using h
  | wordStartHalf a => simpa only [holdsAt, hbefore] using h
  | wordEndHalf a => simpa only [holdsAt, hafter] using h

theorem Place.between_marks_inj {x y x' y' : List Char}
    (h : (⟨x.reverse ++ mark :: behind, y ++ mark' :: ahead⟩ : Place) =
      ⟨x'.reverse ++ mark :: behind, y' ++ mark' :: ahead⟩) : x' = x ∧ y' = y := by
  rw [Place.mk.injEq, List.append_cancel_right_eq, List.append_cancel_right_eq,
    List.reverse_inj] at h
  exact ⟨h.1.symm, h.2.symm⟩

-- What lies on a way between two marks lies between the marks as well.
theorem Path.exists_between_marks {p q : Pattern} {mid : Place} {x y x' y' : List Char}
    (first : Path p ⟨x.reverse ++ mark :: behind, y ++ mark' :: ahead⟩ mid)
    (more : Path q mid ⟨x'.reverse ++ mark :: behind, y' ++ mark' :: ahead⟩) :
    ∃ u v : List Char, mid = ⟨u.reverse ++ mark :: behind, v ++ mark' :: ahead⟩ := by
  obtain ⟨w, -, hbehind⟩ := first.exists_taken
  obtain ⟨w', hahead, -⟩ := more.exists_taken
  obtain ⟨behind', ahead'⟩ := mid
  simp only at hbehind hahead
  subst hbehind hahead
  exact ⟨x ++ w, w' ++ y', by simp⟩

-- A way between two marks is one through the text between them.
theorem Path.alone (hmark : Bounds mark) (hmark' : Bounds mark') {p : Pattern}
    {place place' : Place} (h : Path p place place') {x y x' y' : List Char}
    (hplace : place = ⟨x.reverse ++ mark :: behind, y ++ mark' :: ahead⟩)
    (hplace' : place' = ⟨x'.reverse ++ mark :: behind, y' ++ mark' :: ahead⟩) :
    Path p ⟨x.reverse, y⟩ ⟨x'.reverse, y'⟩ := by
  induction h generalizing x y x' y' with
  | @set s c place place' hnext hc =>
    obtain ⟨hahead, hbehind⟩ := Place.next?_eq_some_iff.mp hnext
    subst hplace hplace'
    cases y with
    | nil =>
      have hlen := congrArg List.length hahead
      simp at hlen
      omega
    | cons d y =>
      simp only [List.cons_append, List.cons.injEq, List.append_cancel_right_eq] at hahead
      obtain ⟨rfl, rfl⟩ := hahead
      simp only [← List.cons_append, List.append_cancel_right_eq] at hbehind
      exact .set (Place.next?_eq_some_iff.mpr ⟨rfl, hbehind⟩) hc
  | @look l place hl =>
    obtain ⟨rfl, rfl⟩ := Place.between_marks_inj (hplace.symm.trans hplace')
    subst hplace
    exact .look (holdsAt_alone hmark hmark' l _ _ hl)
  | nil =>
    obtain ⟨rfl, rfl⟩ := Place.between_marks_inj (hplace.symm.trans hplace')
    exact .nil
  | cons first more ihfirst ihmore =>
    obtain ⟨u, v, hu⟩ := (hplace ▸ first).exists_between_marks (hplace' ▸ more)
    exact .cons (ihfirst hplace hu) (ihmore hu hplace')
  | choice hp _ ih => exact .choice hp (ih hplace hplace')
  | group _ ih => exact .group (ih hplace hplace')
  | must once more ihonce ihmore =>
    obtain ⟨u, v, hu⟩ := (hplace ▸ once).exists_between_marks (hplace' ▸ more)
    exact .must (ihonce hplace hu) (ihmore hu hplace')
  | stop =>
    obtain ⟨rfl, rfl⟩ := Place.between_marks_inj (hplace.symm.trans hplace')
    exact .stop
  | again hmost once hlen more ihonce ihmore =>
    obtain ⟨u, v, hu⟩ := (hplace ▸ once).exists_between_marks (hplace' ▸ more)
    refine .again hmost (ihonce hplace hu) ?_ (ihmore hu hplace')
    subst hplace hu
    simpa using hlen

end Alone

-- A text holds a match if there is a way from its start.
theorem Path.isMatch {p : Pattern} {text : String} {place : Place}
    (h : Path p ⟨[], text.toList⟩ place) : p.isMatch text = true := by
  have hmatch : (matchAt p ⟨[], text.toList⟩).isSome = true :=
    h.isSome (fun _ => rfl) []
  obtain ⟨m, hm⟩ := Option.isSome_iff_exists.mp hmatch
  rw [Pattern.isMatch]
  cases htext : text.toList with
  | nil =>
    rw [htext] at hm
    simp [searchFrom, hm]
  | cons c rest =>
    rw [htext] at hm
    simp [searchFrom, hm]

end Treeshake.Pattern
