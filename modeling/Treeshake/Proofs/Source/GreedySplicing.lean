import Treeshake.Proofs.Source.Splicing

namespace Treeshake.Source.Edit

-- Edits by where they start; those that start at one place stand as they did.
structure InOrder (edits walked : List Edit) : Prop where
  perm : walked.Perm edits
  ordered : walked.Pairwise fun a b => a.span.start ≤ b.span.start
  stable : ∀ place, walked.filter (·.span.start = place) = edits.filter (·.span.start = place)

-- A stretch from some place on that can be cut out of a text.
structure Applicable (source : List Char) (place : Nat) (span : Text.Span) : Prop where
  behind : place ≤ span.start
  ordered : span.start ≤ span.stop
  inside : span.stop ≤ Text.byteLength source
  start : Text.Boundary source span.start
  stop : Text.Boundary source span.stop

-- A walk over edits from some place on. It goes on at the end of an edit that it takes, and passes
-- over one that it leaves.
inductive Walk (source : List Char) : Nat → List Edit → List Edit → List Edit → Prop
  | done (place : Nat) : Walk source place [] [] []
  | take {place : Nat} {edit : Edit} {edits taken left : List Edit}
    (h : Applicable source place edit.span) (hrest : Walk source edit.span.stop edits taken left) :
    Walk source place (edit :: edits) (edit :: taken) left
  | leave {place : Nat} {edit : Edit} {edits taken left : List Edit}
    (h : ¬Applicable source place edit.span) (hrest : Walk source place edits taken left) :
    Walk source place (edit :: edits) taken (edit :: left)

-- The text of a source from some place on, with replacements in place of the stretches of edits.
-- Each gap is a slice of the source.
inductive Interleaved (source : List Char) : Nat → List Edit → List Char → Prop
  | done {place : Nat} {gap : List Char}
    (hgap : Text.Slice source place (Text.byteLength source) gap) :
    Interleaved source place [] gap
  | edit {place : Nat} {edit : Edit} {edits : List Edit} {gap text : List Char}
    (hgap : Text.Slice source place edit.span.start gap)
    (hrest : Interleaved source edit.span.stop edits text) :
    Interleaved source place (edit :: edits) (gap ++ (edit.replacement.toList ++ text))

-- What is said about an edit that is left out.
def warning (edit : Edit) : Entry :=
  ⟨.warn, "Skipping " ++ edit.label ++ " replacement at " ++ toString edit.span.start ++ ".." ++
    toString edit.span.stop ++ ": span is out of range"⟩

theorem inOrder_sorted (edits : List Edit) : InOrder edits (sorted edits) := by
  let before (a b : Edit) : Bool := a.span.start ≤ b.span.start
  have htrans (a b c : Edit) (hab : before a b) (hbc : before b c) : before a c := by
    simp only [before, decide_eq_true_eq] at hab hbc ⊢
    omega
  have htotal (a b : Edit) : before a b || before b a := by
    simp only [before, Bool.or_eq_true, decide_eq_true_eq]
    omega
  have hperm : (sorted edits).Perm edits := List.mergeSort_perm edits before
  refine ⟨hperm, ?_, fun place => ?_⟩
  · have hordered := List.pairwise_mergeSort htrans htotal edits
    exact hordered.imp fun h => of_decide_eq_true h
  -- Edits that start together are in order as they stand, so that sorting keeps them so.
  · let here (edit : Edit) : Bool := edit.span.start = place
    have htied : (edits.filter here).Pairwise (before · ·) := by
      refine List.pairwise_of_forall_mem_list fun a ha b hb => ?_
      have hstart := of_decide_eq_true (List.mem_filter.mp ha).2
      have hstart' := of_decide_eq_true (List.mem_filter.mp hb).2
      simp only [before, decide_eq_true_eq]
      omega
    have hkept : (edits.filter here).Sublist (sorted edits) :=
      List.sublist_mergeSort htrans htotal htied List.filter_sublist
    have hfiltered : (edits.filter here).Sublist ((sorted edits).filter here) := by
      simpa using hkept.filter here
    exact (hfiltered.eq_of_length (hperm.filter here).length_eq.symm).symm

section Cursor

variable {source front rest before behind : List Char} {place : Nat} {edit : Edit}

theorem eq_append_of_locate? (h : locate? rest place edit.span = some (before, behind)) :
    place + Text.byteLength before = edit.span.start ∧
      ∃ middle, rest = before ++ (middle ++ behind) ∧
        edit.span.start + Text.byteLength middle = edit.span.stop := by
  simp only [locate?, Option.bind_eq_bind] at h
  split at h
  · simp at h
  next hinside =>
    simp only [Bool.or_eq_true, decide_eq_true_eq, not_or, Nat.not_lt] at hinside
    obtain ⟨⟨before', atStart⟩, hbefore, h⟩ := Option.bind_eq_some_iff.mp h
    obtain ⟨⟨middle, behind'⟩, hmiddle, h⟩ := Option.bind_eq_some_iff.mp h
    obtain ⟨rfl, rfl⟩ : before' = before ∧ behind' = behind := by simpa using h
    obtain ⟨rfl, hstart⟩ := Text.eq_append_of_cut? hbefore
    obtain ⟨rfl, hstop⟩ := Text.eq_append_of_cut? hmiddle
    exact ⟨by omega, middle, rfl, by omega⟩

-- With the text cut at the cursor, an edit is found ahead if and only if it can be applied there.
theorem applicable_iff (hsource : source = front ++ rest)
    (hfront : Text.byteLength front = place) :
    Applicable source place edit.span ↔
      ∃ before behind, locate? rest place edit.span = some (before, behind) := by
  constructor
  · intro h
    obtain ⟨upToStart, fromStart, hstart, hlength⟩ := h.start
    obtain ⟨upToStop, behind, hstop, hlength'⟩ := h.stop
    have hbehind := h.behind
    have hordered := h.ordered
    obtain ⟨gap, rfl, rfl⟩ := Text.exists_between (hsource ▸ hstart) (by omega)
    obtain ⟨middle, rfl, rfl⟩ := Text.exists_between (hstart ▸ hstop) (by omega)
    simp only [Text.byteLength_append] at hlength hlength'
    have hgap : place + Text.byteLength gap = edit.span.start := by omega
    have hmiddle : edit.span.start + Text.byteLength middle = edit.span.stop := by omega
    exact ⟨gap, behind, Applied.locate?_eq hgap hmiddle⟩
  · rintro ⟨before, behind, h⟩
    obtain ⟨hstart, middle, rfl, hstop⟩ := eq_append_of_locate? h
    have hlength : Text.byteLength (front ++ before) = edit.span.start := by
      rw [Text.byteLength_append]
      omega
    have hlength' : Text.byteLength (front ++ before ++ middle) = edit.span.stop := by
      rw [Text.byteLength_append]
      omega
    have hbefore : Text.Boundary source edit.span.start :=
      ⟨front ++ before, middle ++ behind, by simp [hsource], hlength⟩
    have hbehind : Text.Boundary source edit.span.stop :=
      ⟨front ++ before ++ middle, behind, by simp [hsource], hlength'⟩
    exact ⟨by omega, by omega, hbehind.le, hbefore, hbehind⟩

end Cursor

-- The cursor cuts the source between two characters, and never moves back.
theorem exists_walk {source front rest : List Char} {place : Nat} (edits : List Edit)
    (hsource : source = front ++ rest) (hfront : Text.byteLength front = place) :
    ∃ taken left text, Walk source place edits taken left ∧ Interleaved source place taken text ∧
      spliceFrom rest place edits = (text, left.map warning) := by
  induction edits generalizing front rest place with
  | nil =>
    have hlength : place + Text.byteLength rest = Text.byteLength source := by
      rw [hsource, Text.byteLength_append, hfront]
    have hgap : Text.Slice source place (Text.byteLength source) rest :=
      ⟨front, [], by simpa using hsource, hfront, hlength⟩
    exact ⟨[], [], rest, .done place, .done hgap, rfl⟩
  | cons edit edits ih =>
    have happlicable := @applicable_iff source front rest place edit hsource hfront
    cases hlocate : locate? rest place edit.span with
    | none =>
      obtain ⟨taken, left, text, hwalk, htext, hsplice⟩ := ih hsource hfront
      have hnot : ¬Applicable source place edit.span := by
        rw [happlicable, hlocate]
        simp
      refine ⟨taken, edit :: left, text, .leave hnot hwalk, htext, ?_⟩
      rw [spliceFrom, hlocate, hsplice]
      rfl
    | some found =>
      obtain ⟨before, behind⟩ := found
      obtain ⟨hstart, middle, hrest, hstop⟩ := eq_append_of_locate? hlocate
      have hsource' : source = front ++ before ++ middle ++ behind := by
        simp [hsource, hrest]
      have hfront' : Text.byteLength (front ++ before ++ middle) = edit.span.stop := by
        simp only [Text.byteLength_append]
        omega
      have hgap : Text.Slice source place edit.span.start before :=
        ⟨front, middle ++ behind, by simp [hsource'], hfront, hstart⟩
      obtain ⟨taken, left, text, hwalk, htext, hsplice⟩ := ih hsource' hfront'
      have htake := happlicable.mpr ⟨before, behind, hlocate⟩
      refine ⟨edit :: taken, left, _, .take htake hwalk, .edit hgap htext, ?_⟩
      rw [spliceFrom, hlocate]
      simp [hsplice]

-- Whatever edits are given, each is applied or warned about, and the text between those that are
-- applied stays.
theorem splice_walks (edits : List Edit) (source : String) :
    ∃ walked taken left text, InOrder edits walked ∧ Walk source.toList 0 walked taken left ∧
      Interleaved source.toList 0 taken text ∧
      splice edits source = (String.ofList text, left.map warning) ∧
      (taken = [] → String.ofList text = source) := by
  have hstart : Text.byteLength [] = 0 := rfl
  obtain ⟨taken, left, text, hwalk, htext, hsplice⟩ :=
    exists_walk (sorted edits) (List.nil_append source.toList).symm hstart
  refine ⟨sorted edits, taken, left, text, inOrder_sorted edits, hwalk, htext, ?_, ?_⟩
  · rw [splice, hsplice]
  · rintro rfl
    cases htext with
    | done hgap => rw [hgap.eq_self, String.ofList_toList]

end Treeshake.Source.Edit
