import Mathlib.Data.List.Pairwise
import Treeshake.Text.Offset

namespace Treeshake.Text

theorem cut?_append (front back : List Char) :
    cut? (front ++ back) (byteLength front) = some (front, back) := by
  induction front with
  | nil => simp [byteLength, cut?]
  | cons c front ih =>
    have hpos := c.utf8Size_pos
    obtain ⟨n, hn⟩ : ∃ n, byteLength (c :: front) = n + 1 :=
      ⟨c.utf8Size - 1 + byteLength front, by rw [byteLength_cons]; omega⟩
    have hrest : n + 1 - c.utf8Size = byteLength front := by
      rw [← hn, byteLength_cons]
      omega
    have hfits : c.utf8Size ≤ n + 1 := by
      rw [← hn, byteLength_cons]
      omega
    rw [hn, List.cons_append, cut?.eq_3 _ _ _ (by omega), if_pos hfits, hrest, ih]
    rfl

theorem eq_nil_of_byteLength_eq_zero {cs : List Char} (h : byteLength cs = 0) : cs = [] := by
  cases cs with
  | nil => rfl
  | cons c cs =>
    have hpos := c.utf8Size_pos
    rw [byteLength_cons] at h
    omega

-- Of two cuts through a text, the later one goes through what is behind the earlier one.
theorem exists_between {front rest before behind : List Char}
    (h : front ++ rest = before ++ behind) (hle : byteLength front ≤ byteLength before) :
    ∃ gap, before = front ++ gap ∧ rest = gap ++ behind := by
  rcases List.append_eq_append_iff.mp h with ⟨gap, hbefore, hrest⟩ | ⟨gap, hfront, hbehind⟩
  · exact ⟨gap, hbefore, hrest⟩
  · have hgap : gap = [] := by
      rw [hfront, byteLength_append] at hle
      exact eq_nil_of_byteLength_eq_zero (by omega)
    subst hgap
    exact ⟨[], by simpa using hfront.symm, by simpa using hbehind.symm⟩

-- A place between two characters of a text, or at one of its ends.
def Boundary (cs : List Char) (place : Nat) : Prop :=
  ∃ front back, cs = front ++ back ∧ byteLength front = place

-- What stands in a text between two places.
def Slice (cs : List Char) (start stop : Nat) (piece : List Char) : Prop :=
  ∃ front back, cs = front ++ (piece ++ back) ∧ byteLength front = start ∧
    start + byteLength piece = stop

theorem Boundary.le {cs : List Char} {place : Nat} (h : Boundary cs place) :
    place ≤ byteLength cs := by
  obtain ⟨front, back, rfl, rfl⟩ := h
  rw [byteLength_append]
  omega

-- A slice that covers the text has nothing before it and nothing behind.
theorem Slice.eq_self {cs piece : List Char} (h : Slice cs 0 (byteLength cs) piece) :
    piece = cs := by
  obtain ⟨front, back, hcs, hfront, hpiece⟩ := h
  have hlength := congrArg byteLength hcs
  simp only [byteLength_append] at hlength
  have hnothing : front = [] := eq_nil_of_byteLength_eq_zero hfront
  have hback : back = [] := eq_nil_of_byteLength_eq_zero (by omega)
  simpa [hnothing, hback] using hcs.symm

-- A stretch of a text that holds whole characters, and at least one.
def Span.CutsFrom (span : Span) (source : List Char) : Prop :=
  ∃ before middle behind, source = before ++ (middle ++ behind) ∧ middle ≠ [] ∧
    byteLength before = span.start ∧ byteLength before + byteLength middle = span.stop

theorem Span.CutsFrom.start_lt_stop {span : Span} {source : List Char}
    (h : span.CutsFrom source) : span.start < span.stop := by
  obtain ⟨before, middle, behind, -, hmiddle, hstart, hstop⟩ := h
  have hpos := Nat.pos_of_ne_zero (mt eq_nil_of_byteLength_eq_zero hmiddle)
  omega

-- Two stretches that have nothing in common.
def Span.Apart (a b : Span) : Prop := a.stop ≤ b.start ∨ b.stop ≤ a.start

-- Of things that stand one behind the other, any two stand apart.
theorem Span.apart_of_pairwise {α : Type} {span : α → Span} {xs : List α}
    (h : xs.Pairwise fun a b => (span a).stop ≤ (span b).start) {a b : α} (ha : a ∈ xs)
    (hb : b ∈ xs) (hne : a ≠ b) : (span a).Apart (span b) := by
  have happart : xs.Pairwise fun a b => (span a).Apart (span b) := h.imp Or.inl
  have hsymm : Std.Symm fun a b : α => (span a).Apart (span b) := ⟨fun _ _ => Or.symm⟩
  exact happart.forall ha hb hne

-- A stretch that reaches neither end of another one.
def Span.Inside (a b : Span) : Prop := b.start < a.start ∧ a.stop < b.stop

-- Around a character that it does not have, a stretch lies before or behind.
theorem exists_beside {x : Char} {front rest before middle behind : List Char} (hx : x ∉ middle)
    (h : front ++ x :: rest = before ++ (middle ++ behind)) :
    (∃ gap, front = before ++ (middle ++ gap) ∧ behind = gap ++ x :: rest) ∨
    ∃ gap, before = front ++ x :: gap ∧ rest = gap ++ (middle ++ behind) := by
  have hmem (gap : List Char) {rest : List Char} : middle ≠ gap ++ x :: rest := by
    rintro rfl
    exact hx (List.mem_append_right gap List.mem_cons_self)
  rw [← List.append_assoc] at h
  rcases List.append_eq_append_iff.mp h with ⟨passed, hfront, hrest⟩ | ⟨gap, hfront, hbehind⟩
  · rcases List.cons_eq_append_iff.mp hrest with ⟨rfl, hbehind⟩ | ⟨passed, rfl, rfl⟩
    · exact .inl ⟨[], by simpa using hfront.symm, hbehind⟩
    rcases List.append_eq_append_iff.mp hfront with ⟨gap, -, hmiddle⟩ | ⟨gap, hbefore, hpassed⟩
    · exact absurd hmiddle (hmem gap)
    rcases List.cons_eq_append_iff.mp hpassed with ⟨-, hmiddle⟩ | ⟨gap, rfl, rfl⟩
    · exact absurd hmiddle (hmem [])
    · exact .inr ⟨gap, hbefore, List.append_assoc _ _ _⟩
  · exact .inl ⟨gap, by rw [hfront, List.append_assoc], hbehind⟩

end Treeshake.Text
