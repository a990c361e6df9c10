import Treeshake.Proofs.Text.Offset
import Treeshake.Source.Edit

namespace Treeshake.Source.Edit

-- A text from some place on, and what edits make of it: both have the same gaps, with the stretches
-- of the edits between them in the one and the replacements in the other.
inductive Applied : Nat → List Edit → List Char → List Char → Prop
  | done (place : Nat) (rest : List Char) : Applied place [] rest rest
  | edit {place : Nat} {edit : Edit} {edits : List Edit} {gap middle behind text : List Char}
    (hstart : place + Text.byteLength gap = edit.span.start) (hmiddle : middle ≠ [])
    (hstop : edit.span.start + Text.byteLength middle = edit.span.stop)
    (h : Applied edit.span.stop edits behind text) :
    Applied place (edit :: edits) (gap ++ (middle ++ behind))
      (gap ++ (edit.replacement.toList ++ text))

-- Edits with the stretches that their replacements take in the text that they make, from two places
-- on that correspond.
def landings (place place' : Nat) : List Edit → List (Edit × Text.Span)
  | [] => []
  | edit :: edits =>
    let start := place' + (edit.span.start - place)
    let stop := start + Text.byteLength edit.replacement.toList
    (edit, ⟨start, stop⟩) :: landings edit.span.stop stop edits

namespace Applied

variable {place : Nat} {edits : List Edit} {rest text : List Char}

theorem le_start (h : Applied place edits rest text) :
    ∀ edit ∈ edits, place ≤ edit.span.start := by
  induction h with
  | done => simp
  | edit hstart _ hstop _ ih =>
    rw [List.forall_mem_cons]
    refine ⟨by omega, fun edit hmem => ?_⟩
    have hbehind := ih edit hmem
    omega

theorem start_lt_stop (h : Applied place edits rest text) :
    ∀ edit ∈ edits, edit.span.start < edit.span.stop := by
  induction h with
  | done => simp
  | edit _ hmiddle hstop _ ih =>
    have hpos := Nat.pos_of_ne_zero (mt Text.eq_nil_of_byteLength_eq_zero hmiddle)
    exact List.forall_mem_cons.mpr ⟨by omega, ih⟩

-- No two stretches overlap.
theorem pairwise (h : Applied place edits rest text) :
    edits.Pairwise fun a b => a.span.stop ≤ b.span.start := by
  induction h with
  | done => exact .nil
  | edit _ _ _ h ih => exact .cons h.le_start ih

theorem cutsFrom (h : Applied place edits rest text) (front : List Char)
    (hfront : Text.byteLength front = place) :
    ∀ edit ∈ edits, edit.span.CutsFrom (front ++ rest) := by
  induction h generalizing front with
  | done => simp
  | @edit place edit edits gap middle behind text hstart hmiddle hstop _ ih =>
    have hgap : Text.byteLength (front ++ gap) = edit.span.start := by
      rw [Text.byteLength_append, hfront, hstart]
    have hbehind : Text.byteLength (front ++ gap ++ middle) = edit.span.stop := by
      rw [Text.byteLength_append, hgap, hstop]
    rw [List.forall_mem_cons]
    refine ⟨⟨front ++ gap, middle, behind, by simp, hmiddle, hgap, by omega⟩, ?_⟩
    simpa using ih (front ++ gap ++ middle) hbehind

-- A replacement stands in the text where it lands.
theorem landed (h : Applied place edits rest text) (place' : Nat) :
    ∀ landing ∈ landings place place' edits, landing.1 ∈ edits ∧ ∃ front back,
      text = front ++ (landing.1.replacement.toList ++ back) ∧
      place' + Text.byteLength front = landing.2.start ∧
      landing.2.start + Text.byteLength landing.1.replacement.toList = landing.2.stop := by
  induction h generalizing place' with
  | done => simp [landings]
  | @edit place edit edits gap middle behind text hstart hmiddle hstop _ ih =>
    have hgap : edit.span.start - place = Text.byteLength gap := by omega
    rw [landings, List.forall_mem_cons, hgap]
    refine ⟨⟨List.mem_cons_self, gap, text, rfl, rfl, rfl⟩, fun landing hmem => ?_⟩
    obtain ⟨hedit, front, back, rfl, hfront, hlanded⟩ := ih _ landing hmem
    refine ⟨List.mem_cons_of_mem edit hedit, gap ++ (edit.replacement.toList ++ front), back,
      by simp only [List.append_assoc], ?_, hlanded⟩
    rw [← hfront, Text.byteLength_append, Text.byteLength_append]
    omega

theorem locate?_eq {edit : Edit} {gap middle behind : List Char}
    (hstart : place + Text.byteLength gap = edit.span.start)
    (hstop : edit.span.start + Text.byteLength middle = edit.span.stop) :
    locate? (gap ++ (middle ++ behind)) place edit.span = some (gap, behind) := by
  have hgap : edit.span.start - place = Text.byteLength gap := by omega
  have hmiddle : edit.span.stop - edit.span.start = Text.byteLength middle := by omega
  have hinside : ¬(edit.span.start < place || edit.span.stop < edit.span.start) = true := by
    simp only [Bool.or_eq_true, decide_eq_true_eq]
    omega
  simp [locate?, hinside, hgap, hmiddle, Text.cut?_append]

theorem spliceFrom_eq (h : Applied place edits rest text) :
    spliceFrom rest place edits = (text, []) := by
  induction h with
  | done => rfl
  | edit hstart _ hstop _ ih =>
    rw [spliceFrom, locate?_eq hstart hstop]
    simp [ih]

theorem pairwise_start (h : Applied place edits rest text) :
    edits.Pairwise fun a b => a.span.start ≤ b.span.start := by
  refine h.pairwise.imp_of_mem fun ha _ hbehind => ?_
  have hlt := h.start_lt_stop _ ha
  omega

theorem sorted_eq (h : Applied place edits rest text) : sorted edits = edits := by
  refine List.mergeSort_of_pairwise (h.pairwise_start.imp fun hle => ?_)
  simpa only [decide_eq_true_eq] using hle

-- Nothing is skipped.
theorem splice_eq {source : String} (h : Applied 0 edits source.toList text) :
    splice edits source = (String.ofList text, []) := by
  rw [splice, h.sorted_eq, h.spliceFrom_eq]

end Applied

-- Stretches that follow each other in a source can all be applied, from any cut in front of them.
theorem exists_applied {source front rest : List Char} {place : Nat} {edits : List Edit}
    (hsource : source = front ++ rest) (hfront : Text.byteLength front = place)
    (hplace : ∀ edit ∈ edits, place ≤ edit.span.start)
    (hcuts : ∀ edit ∈ edits, edit.span.CutsFrom source)
    (hordered : edits.Pairwise fun a b => a.span.stop ≤ b.span.start) :
    ∃ text, Applied place edits rest text := by
  induction edits generalizing front rest place with
  | nil => exact ⟨rest, .done place rest⟩
  | cons edit edits ih =>
    rw [List.forall_mem_cons] at hplace hcuts
    obtain ⟨hbehind, hrest⟩ := List.pairwise_cons.mp hordered
    obtain ⟨before, middle, behind, hcut, hmiddle, hstart, hstop⟩ := hcuts.1
    have hle : Text.byteLength front ≤ Text.byteLength before := by
      have hstart' := hplace.1
      omega
    obtain ⟨gap, rfl, rfl⟩ := Text.exists_between (hsource.symm.trans hcut) hle
    have hsource' : source = front ++ gap ++ middle ++ behind := by
      rw [hcut, List.append_assoc (front ++ gap)]
    rw [Text.byteLength_append] at hstart hstop
    have hfront' : Text.byteLength (front ++ gap ++ middle) = edit.span.stop := by
      rw [Text.byteLength_append, Text.byteLength_append, hstop]
    obtain ⟨text, htext⟩ := ih hsource' hfront' hbehind hcuts.2 hrest
    have hgap : place + Text.byteLength gap = edit.span.start := by omega
    have hstop' : edit.span.start + Text.byteLength middle = edit.span.stop := by omega
    exact ⟨_, .edit hgap hmiddle hstop' htext⟩

end Treeshake.Source.Edit
