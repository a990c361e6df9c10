import Mathlib.Algebra.Ring.Nat
import Treeshake.Proofs.Source.GreedySplicing

namespace Treeshake.Source.Edit

-- Stretches of a source, none of them empty and no two with a byte in common.
structure Separate (source : List Char) (edits : List Edit) : Prop where
  cuts : ∀ edit ∈ edits, edit.span.CutsFrom source
  apart : edits.Pairwise fun a b => a.span.Apart b.span

-- The bytes that edits take out of a source, and those that they put in.
def bytesOut (edits : List Edit) : Nat := (edits.map fun e => e.span.stop - e.span.start).sum

def bytesIn (edits : List Edit) : Nat :=
  (edits.map fun e => Text.byteLength e.replacement.toList).sum

-- An edit as it is seen in the text from some place on.
def seenFrom (place : Nat) (edit : Edit) : Edit :=
  { edit with span := ⟨edit.span.start - place, edit.span.stop - place⟩ }

namespace Applied

variable {place : Nat} {edits : List Edit} {rest text : List Char}

theorem bytesOut_le (h : Applied place edits rest text) :
    bytesOut edits ≤ Text.byteLength rest := by
  induction h with
  | done => exact Nat.zero_le _
  | edit _ _ hstop _ ih =>
    simp only [Text.byteLength_append, bytesOut, List.map_cons, List.sum_cons] at ih ⊢
    omega

-- What is not taken out is kept.
theorem byteLength_eq (h : Applied place edits rest text) :
    Text.byteLength text = Text.byteLength rest - bytesOut edits + bytesIn edits := by
  induction h with
  | done => rfl
  | edit _ _ hstop h ih =>
    have hle := h.bytesOut_le
    simp only [Text.byteLength_append, bytesOut, bytesIn, List.map_cons, List.sum_cons]
      at hle ih ⊢
    omega

-- Edits in the order of the text are what sorting makes of them in any other order.
theorem sorted_eq_of_perm {others : List Edit} (h : Applied place edits rest text)
    (hperm : edits.Perm others) : sorted others = edits := by
  obtain ⟨hsorted, hordered, -⟩ := inOrder_sorted others
  refine List.Perm.eq_of_pairwise (fun a b ha hb hab hba => ?_) hordered h.pairwise_start
    (hsorted.trans hperm.symm)
  -- Two edits that start at one place overlap, so they are one.
  by_contra hne
  have hmem : a ∈ edits := hperm.symm.subset (hsorted.subset ha)
  have hlta := h.start_lt_stop a hmem
  have hltb := h.start_lt_stop b hb
  rcases Text.Span.apart_of_pairwise h.pairwise hmem hb hne with hbefore | hbehind
  · omega
  · omega

theorem splice_eq_of_perm {source : String} {others : List Edit}
    (h : Applied 0 edits source.toList text) (hperm : edits.Perm others) :
    splice others source = (String.ofList text, []) := by
  rw [splice, h.sorted_eq_of_perm hperm, h.spliceFrom_eq]

-- Of a text that is cut in two, the front is kept if all edits are for the back.
theorem exists_behind {front back : List Char} (h : Applied place edits (front ++ back) text)
    (hedits : ∀ edit ∈ edits, place + Text.byteLength front ≤ edit.span.start) :
    ∃ behind, text = front ++ behind ∧
      Applied (place + Text.byteLength front) edits back behind := by
  generalize hrest : front ++ back = rest at h
  cases h with
  | done => exact ⟨back, hrest.symm, .done _ back⟩
  | @edit _ edit edits gap middle behind text hstart hmiddle hstop h =>
    have hle := hedits edit List.mem_cons_self
    obtain ⟨gap, rfl, rfl⟩ := Text.exists_between hrest (by omega)
    rw [Text.byteLength_append] at hstart
    refine ⟨gap ++ (edit.replacement.toList ++ text), List.append_assoc front gap _, ?_⟩
    exact .edit (by omega) hmiddle hstop h

-- Edits before the cut are for the front, and those behind it for the back.
theorem exists_halves {first second : List Edit} {front back : List Char}
    (h : Applied place (first ++ second) (front ++ back) text)
    (hfirst : ∀ edit ∈ first, edit.span.stop ≤ place + Text.byteLength front)
    (hsecond : ∀ edit ∈ second, place + Text.byteLength front ≤ edit.span.start) :
    ∃ before behind, text = before ++ behind ∧ Applied place first front before ∧
      Applied (place + Text.byteLength front) second back behind := by
  induction first generalizing place front text with
  | nil =>
    obtain ⟨behind, rfl, hbehind⟩ := h.exists_behind hsecond
    exact ⟨front, behind, rfl, .done place front, hbehind⟩
  | cons edit first ih =>
    generalize hrest : front ++ back = rest at h
    obtain ⟨hstopped, hfirst⟩ := List.forall_mem_cons.mp hfirst
    cases h with
    | @edit _ _ _ gap middle rest text hstart hmiddle hstop h =>
      have hlength : Text.byteLength (gap ++ middle) ≤ Text.byteLength front := by
        rw [Text.byteLength_append]
        omega
      have hcut : (gap ++ middle) ++ rest = front ++ back := by
        rw [hrest, List.append_assoc]
      obtain ⟨front, rfl, rfl⟩ := Text.exists_between hcut hlength
      have hplace : place + Text.byteLength (gap ++ middle ++ front) =
          edit.span.stop + Text.byteLength front := by
        simp only [Text.byteLength_append]
        omega
      rw [hplace] at hfirst hsecond ⊢
      obtain ⟨before, behind, rfl, hbefore, hbehind⟩ := ih h hfirst hsecond
      refine ⟨gap ++ (edit.replacement.toList ++ before), behind, ?_, ?_, hbehind⟩
      · simp only [List.append_assoc]
      · rw [List.append_assoc]
        exact .edit hstart hmiddle hstop hbefore

theorem seenFrom {start : Nat} (h : Applied place edits rest text) (hle : start ≤ place) :
    Applied (place - start) (edits.map (Edit.seenFrom start)) rest text := by
  induction h with
  | done place rest => exact .done _ rest
  | edit hstart hmiddle hstop _ ih =>
    refine .edit ?_ hmiddle ?_ (ih (by omega))
    · simp only [Edit.seenFrom]
      omega
    · simp only [Edit.seenFrom]
      omega

end Applied

namespace Separate

variable {source : List Char} {edits : List Edit}

theorem of_perm {others : List Edit} (h : Separate source edits) (hperm : others.Perm edits) :
    Separate source others :=
  ⟨fun edit hmem => h.cuts edit (hperm.subset hmem), (hperm.pairwise_iff Or.symm).mpr h.apart⟩

theorem pairwise_sorted (h : Separate source edits) :
    (sorted edits).Pairwise fun a b => a.span.stop ≤ b.span.start := by
  obtain ⟨hperm, hordered, -⟩ := inOrder_sorted edits
  have hsorted := h.of_perm hperm
  refine (hordered.and hsorted.apart).imp_of_mem fun ha hb hboth => ?_
  obtain ⟨hle, hbefore | hbehind⟩ := hboth
  · exact hbefore
  · have hlta := (hsorted.cuts _ ha).start_lt_stop
    have hltb := (hsorted.cuts _ hb).start_lt_stop
    omega

theorem left {first second : List Edit} (h : Separate source (first ++ second)) :
    Separate source first :=
  ⟨fun edit hmem => h.cuts edit (List.mem_append_left second hmem),
    (List.pairwise_append.mp h.apart).1⟩

theorem right {first second : List Edit} (h : Separate source (first ++ second)) :
    Separate source second :=
  ⟨fun edit hmem => h.cuts edit (List.mem_append_right first hmem),
    (List.pairwise_append.mp h.apart).2.1⟩

-- Ordered in whatever way, all edits are applied.
theorem exists_applied {walked : List Edit} (h : Separate source edits)
    (hperm : walked.Perm edits)
    (hordered : walked.Pairwise fun a b => a.span.stop ≤ b.span.start) :
    ∃ text, Applied 0 walked source text :=
  Edit.exists_applied (List.nil_append source).symm rfl (fun _ _ => Nat.zero_le _)
    (h.of_perm hperm).cuts hordered

-- Edits on the two sides of a cut are applied side by side.
theorem splice_append {first second : List Edit} {front back : String}
    (h : Separate (front ++ back).toList (first ++ second))
    (hfirst : ∀ edit ∈ first, edit.span.stop ≤ Text.byteLength front.toList)
    (hsecond : ∀ edit ∈ second, Text.byteLength front.toList ≤ edit.span.start) :
    ∃ before behind, splice first front = (before, []) ∧
      splice (second.map (seenFrom (Text.byteLength front.toList))) back = (behind, []) ∧
      splice (first ++ second) (front ++ back) = (before ++ behind, []) := by
  let place := Text.byteLength front.toList
  have hpermFirst : (sorted first).Perm first := (inOrder_sorted first).perm
  have hpermSecond : (sorted second).Perm second := (inOrder_sorted second).perm
  have hperm : (sorted first ++ sorted second).Perm (first ++ second) :=
    hpermFirst.append hpermSecond
  have hfirst' : ∀ edit ∈ sorted first, edit.span.stop ≤ 0 + place := by
    intro edit hmem
    rw [Nat.zero_add]
    exact hfirst edit (hpermFirst.subset hmem)
  have hsecond' : ∀ edit ∈ sorted second, 0 + place ≤ edit.span.start := by
    intro edit hmem
    rw [Nat.zero_add]
    exact hsecond edit (hpermSecond.subset hmem)
  have hordered : (sorted first ++ sorted second).Pairwise fun a b =>
      a.span.stop ≤ b.span.start := by
    refine List.pairwise_append.mpr ⟨h.left.pairwise_sorted, h.right.pairwise_sorted, ?_⟩
    intro a ha b hb
    exact Nat.le_trans (hfirst' a ha) (hsecond' b hb)
  obtain ⟨text, htext⟩ := h.exists_applied hperm hordered
  have hwhole := htext.splice_eq_of_perm hperm
  rw [String.toList_append] at htext
  obtain ⟨before, behind, rfl, hbefore, hbehind⟩ := htext.exists_halves hfirst' hsecond'
  have hseen := hbehind.seenFrom (Nat.le_refl _)
  rw [Nat.sub_self, Nat.zero_add] at hseen
  refine ⟨String.ofList before, String.ofList behind, hbefore.splice_eq_of_perm hpermFirst,
    hseen.splice_eq_of_perm (hpermSecond.map _), ?_⟩
  rw [hwhole, String.ofList_append]

end Separate

-- Edits whose stretches have nothing in common are all applied, and their order does not show. The
-- bytes of the result are those of the source less what is taken out, and what is put in. If the
-- source is cut where no edit reaches across, the two parts may be edited apart from each other.
theorem splice_separate_edits (source : String) (edits : List Edit)
    (h : Separate source.toList edits) :
    ∃ text, (∀ others, others.Perm edits → splice others source = (text, [])) ∧
      (∃ walked, walked.Perm edits ∧ Applied 0 walked source.toList text.toList) ∧
      bytesOut edits ≤ Text.byteLength source.toList ∧
      Text.byteLength text.toList =
        Text.byteLength source.toList - bytesOut edits + bytesIn edits ∧
      ∀ (front back : String) (first second : List Edit), source = front ++ back →
        (first ++ second).Perm edits →
        (∀ edit ∈ first, edit.span.stop ≤ Text.byteLength front.toList) →
        (∀ edit ∈ second, Text.byteLength front.toList ≤ edit.span.start) →
        ∃ before behind, splice first front = (before, []) ∧
          splice (second.map (seenFrom (Text.byteLength front.toList))) back = (behind, []) ∧
          text = before ++ behind := by
  have hperm : (sorted edits).Perm edits := (inOrder_sorted edits).perm
  obtain ⟨text, htext⟩ := h.exists_applied hperm h.pairwise_sorted
  have hsplice (others : List Edit) (hothers : others.Perm edits) :
      splice others source = (String.ofList text, []) :=
    htext.splice_eq_of_perm (hperm.trans hothers.symm)
  have hout : bytesOut (sorted edits) = bytesOut edits := (hperm.map _).sum_nat
  have hin : bytesIn (sorted edits) = bytesIn edits := (hperm.map _).sum_nat
  have hle := htext.bytesOut_le
  have hlength := htext.byteLength_eq
  rw [hout] at hle
  rw [hout, hin] at hlength
  refine ⟨String.ofList text, hsplice, ⟨sorted edits, hperm, ?_⟩, hle, ?_, ?_⟩
  · rw [String.toList_ofList]
    exact htext
  · rw [String.toList_ofList]
    exact hlength
  · rintro front back first second rfl hhalves hfirst hsecond
    obtain ⟨before, behind, hbefore, hbehind, hwhole⟩ :=
      (h.of_perm hhalves).splice_append hfirst hsecond
    have hsame := (hsplice _ hhalves).symm.trans hwhole
    exact ⟨before, behind, hbefore, hbehind, congrArg Prod.fst hsame⟩

-- Two edits given from the back, around a cut behind a character of two bytes.
theorem splice_separate_edits_two :
    let a : Edit := ⟨"A", "'ü'", ⟨3, 4⟩⟩
    let b : Edit := ⟨"B", "2", ⟨6, 7⟩⟩
    Separate "é(A, B)".toList [b, a] ∧ [a, b].Perm [b, a] ∧
    "é(A, B)" = "é(A, " ++ "B)" ∧ a.span.stop ≤ Text.byteLength "é(A, ".toList ∧
    Text.byteLength "é(A, ".toList ≤ b.span.start ∧
    splice [a, b] "é(A, B)" = splice [b, a] "é(A, B)" ∧
    ∃ before behind, splice [a] "é(A, " = (before, []) ∧
      splice [seenFrom 6 b] "B)" = (behind, []) ∧
      splice [b, a] "é(A, B)" = (before ++ behind, []) := by
  intro a b
  have hcuts : ∀ edit ∈ [b, a], edit.span.CutsFrom "é(A, B)".toList := by
    rw [List.forall_mem_cons, List.forall_mem_singleton]
    exact ⟨⟨"é(A, ".toList, ['B'], [')'], by decide, by decide, by decide, by decide⟩,
      ⟨"é(".toList, ['A'], ", B)".toList, by decide, by decide, by decide, by decide⟩⟩
  have happart : [b, a].Pairwise fun a b => a.span.Apart b.span :=
    List.pairwise_pair.mpr (.inr (by decide))
  have hperm : [a, b].Perm [b, a] := .swap b a []
  have hcut : "é(A, B)" = "é(A, " ++ "B)" := by decide
  have hfirst : a.span.stop ≤ Text.byteLength "é(A, ".toList := by decide
  have hsecond : Text.byteLength "é(A, ".toList ≤ b.span.start := by decide
  obtain ⟨text, hsplice, -, -, -, hhalves⟩ :=
    splice_separate_edits "é(A, B)" [b, a] ⟨hcuts, happart⟩
  have hgiven := hsplice [b, a] (.refl _)
  obtain ⟨before, behind, hbefore, hbehind, rfl⟩ := hhalves "é(A, " "B)" [a] [b] hcut hperm
    (List.forall_mem_singleton.mpr hfirst) (List.forall_mem_singleton.mpr hsecond)
  exact ⟨⟨hcuts, happart⟩, hperm, hcut, hfirst, hsecond, (hsplice _ hperm).trans hgiven.symm,
    before, behind, hbefore, hbehind, hgiven⟩

end Treeshake.Source.Edit
