import Mathlib.Data.List.TakeWhile
import Treeshake.Proofs.Ecma.Lexing

namespace Treeshake.Ecma

-- A backslash stands in a stretch of a source.
def Escaped (source : List Char) (span : Text.Span) : Prop :=
  ∃ before middle behind, source = before ++ (middle ++ behind) ∧
    Text.byteLength before = span.start ∧
    Text.byteLength before + Text.byteLength middle = span.stop ∧ '\\' ∈ middle

-- What stands behind the backslash of an escape.
def IsEscapeMark (x : Char) : Prop := x = 'u' ∨ x = '\x7b' ∨ x = '\x7d' ∨ Text.isHexDigit x = true

instance (x : Char) : Decidable (IsEscapeMark x) :=
  inferInstanceAs (Decidable (_ ∨ _ ∨ _ ∨ _))

-- Ways to spell a text. A faulty escape stands for nothing.
inductive Spelling : List Char → List Char → Prop
  | nil : Spelling [] []
  | char {text spelled : List Char} (x : Char) (h : Spelling text spelled) :
    Spelling (x :: text) (x :: spelled)
  | escape {text spelled : List Char} (decoded : List Char) {marks : List Char}
    (hmarks : ∀ x ∈ marks, IsEscapeMark x) (h : Spelling text spelled) :
    Spelling (decoded ++ text) ('\\' :: (marks ++ spelled))

namespace Spelling

variable {text more spelled behind : List Char}

theorem append (h : Spelling text spelled) (h' : Spelling more behind) :
    Spelling (text ++ more) (spelled ++ behind) := by
  induction h with
  | nil => exact h'
  | char x _ ih => exact .char x ih
  | escape decoded hmarks _ ih =>
    rw [List.append_assoc, List.cons_append, List.append_assoc]
    exact .escape decoded hmarks ih

theorem escape_mem_or_eq (h : Spelling text spelled) : '\\' ∈ spelled ∨ spelled = text := by
  induction h with
  | nil => exact .inr rfl
  | char x _ ih => exact ih.imp (List.mem_cons_of_mem x) (congrArg (x :: ·))
  | escape => exact .inl List.mem_cons_self

theorem mem (h : Spelling text spelled) {x : Char} (hx : x ∈ spelled) :
    x ∈ text ∨ x = '\\' ∨ IsEscapeMark x := by
  induction h with
  | nil => cases hx
  | char y _ ih =>
    rcases List.mem_cons.mp hx with rfl | hx
    · exact .inl List.mem_cons_self
    · exact (ih hx).imp_left (List.mem_cons_of_mem y)
  | escape decoded hmarks _ ih =>
    rcases List.mem_cons.mp hx with rfl | hx
    · exact .inr (.inl rfl)
    rcases List.mem_append.mp hx with hx | hx
    · exact .inr (.inr (hmarks x hx))
    · exact (ih hx).imp_left (List.mem_append_right decoded)

theorem head {x : Char} (h : Spelling text (x :: spelled)) : x = '\\' ∨ x ∈ text := by
  cases h with
  | char => exact .inr List.mem_cons_self
  | escape => exact .inl rfl

end Spelling

namespace Literal

open Cursor

-- What lies between two places spells a text.
def Spells (text : List Char) (c after : Cursor) : Prop :=
  ∃ passed, c.rest = passed ++ after.rest ∧ after.offset = c.offset + Text.byteLength passed ∧
    Spelling text passed

variable {c after after' : Cursor} {text more : List Char}

theorem spells_nothing (c : Cursor) : Spells [] c c := ⟨[], rfl, rfl, .nil⟩

theorem Spells.append (h : Spells text c after) (h' : Spells more after after') :
    Spells (text ++ more) c after' := by
  obtain ⟨front, hfront, hoffset, hspelled⟩ := h
  obtain ⟨back, hback, hoffset', hspelled'⟩ := h'
  refine ⟨front ++ back, by rw [hfront, hback, List.append_assoc], ?_, hspelled.append hspelled'⟩
  rw [hoffset', hoffset, Text.byteLength_append, Nat.add_assoc]

-- What lies between two places is the marks of an escape.
def Marks (c after : Cursor) : Prop :=
  ∃ marks, c.rest = marks ++ after.rest ∧ after.offset = c.offset + Text.byteLength marks ∧
    ∀ x ∈ marks, IsEscapeMark x

theorem Marks.of_skip (marks : List Char) {rest : List Char} (h : c.rest = marks ++ rest)
    (hmarks : ∀ x ∈ marks, IsEscapeMark x) : Marks c (c.skip marks.length) := by
  obtain ⟨hrest, hoffset⟩ := skip_of_append h
  exact ⟨marks, by rw [hrest, h], hoffset, hmarks⟩

theorem Marks.trans (h : Marks c after) (h' : Marks after after') : Marks c after' := by
  obtain ⟨front, hfront, hoffset, hmarks⟩ := h
  obtain ⟨back, hback, hoffset', hmarks'⟩ := h'
  refine ⟨front ++ back, by rw [hfront, hback, List.append_assoc], ?_, ?_⟩
  · rw [hoffset', hoffset, Text.byteLength_append, Nat.add_assoc]
  · exact fun x hx => (List.mem_append.mp hx).elim (hmarks x) (hmarks' x)

theorem marks_codePoint {value : Nat} (h : codePoint c = some (value, after)) : Marks c after := by
  unfold codePoint at h
  split at h
  · next rest hrest =>
    obtain ⟨hclosed, heq⟩ := Option.ite_none_right_eq_some.mp h
    obtain ⟨-, rfl⟩ := Prod.mk.inj (Option.some.inj heq)
    simp only [Bool.and_eq_true, beq_iff_eq] at hclosed
    have hopen : Marks c c.next :=
      Marks.of_skip ['\x7b'] hrest (List.forall_mem_singleton.mpr (by decide))
    have hdigits : Marks c.next (c.next.skip (c.next.rest.takeWhile Text.isHexDigit).length) :=
      .of_skip _ List.takeWhile_append_dropWhile.symm fun x hx =>
        .inr (.inr (.inr (List.mem_takeWhile_imp hx)))
    obtain ⟨rest', hrest'⟩ := List.head?_eq_some_iff.mp hclosed.1.1
    exact (hopen.trans hdigits).trans
      (Marks.of_skip ['\x7d'] hrest' (List.forall_mem_singleton.mpr (by decide)))
  · next a b d e rest _ hrest =>
    obtain ⟨hdigits, heq⟩ := Option.ite_none_right_eq_some.mp h
    obtain ⟨-, rfl⟩ := Prod.mk.inj (Option.some.inj heq)
    exact Marks.of_skip [a, b, d, e] hrest fun x hx =>
      .inr (.inr (.inr (List.all_eq_true.mp hdigits x hx)))
  · cases h

-- An escape may stand for anything.
theorem Marks.spells {rest : List Char} (hrest : c.rest = '\\' :: rest) (h : Marks c.next after)
    (text : List Char) : Spells text c after := by
  obtain ⟨ahead, offset⟩ := c
  obtain rfl : ahead = '\\' :: rest := hrest
  obtain ⟨marks, hmarks, hoffset, hall⟩ := h
  have hspelling := Spelling.escape text hall .nil
  simp only [List.append_nil] at hspelling
  refine ⟨'\\' :: marks, congrArg ('\\' :: ·) hmarks, ?_, hspelling⟩
  rw [hoffset, Text.byteLength_cons, ← Nat.add_assoc]
  rfl

-- A part of a name stands for its character, and a faulty one for none.
theorem spells_namePart {allowed : Char → Bool} {c : Cursor} :
    (∀ x e after, namePart allowed c = .char x e after → Spells [x] c after) ∧
    ∀ after, namePart allowed c = .fault after → Spells [] c after := by
  unfold namePart
  split
  · simp
  · next rest hrest =>
    have hletter : Marks c.next (c.skip 2) := by
      obtain ⟨ahead, offset⟩ := c
      obtain rfl : ahead = '\\' :: 'u' :: rest := hrest
      exact Marks.of_skip ['u'] rfl (List.forall_mem_singleton.mpr (by decide))
    split
    · next value after hcode =>
      have hspells (text : List Char) : Spells text c after :=
        (hletter.trans (marks_codePoint hcode)).spells hrest text
      split <;> simp +contextual [hspells]
    · simp only [NamePart.fault.injEq, reduceCtorEq, false_implies, implies_true, true_and]
      rintro after rfl
      exact hletter.spells hrest []
  · next rest _ hrest =>
    simp only [NamePart.fault.injEq, reduceCtorEq, false_implies, implies_true, true_and]
    rintro after rfl
    exact Marks.spells hrest ⟨[], rfl, rfl, by simp⟩ []
  · next x rest _ _ hrest =>
    split
    · simp only [NamePart.char.injEq, reduceCtorEq, false_implies, implies_true, and_true]
      rintro x e after ⟨rfl, -, rfl⟩
      obtain ⟨ahead, offset⟩ := c
      obtain rfl : ahead = x :: rest := hrest
      exact ⟨[x], rfl, rfl, .char x .nil⟩
    · simp

theorem spells_nameFrom (done : List Char) (escaped sound : Bool) (c : Cursor) (fuel : Nat) :
    ∃ text, (nameFrom done escaped sound c fuel).text = done.reverse ++ text ∧
      Spells text c (nameFrom done escaped sound c fuel).after := by
  induction fuel generalizing done escaped sound c with
  | zero => exact ⟨[], (List.append_nil _).symm, spells_nothing c⟩
  | succ fuel ih =>
    rw [nameFrom]
    split
    · next x e after hpart =>
      obtain ⟨text, htext, hspells⟩ := ih (x :: done) (escaped || e) sound after
      refine ⟨x :: text, ?_, (spells_namePart.1 _ _ _ hpart).append hspells⟩
      rw [htext, List.reverse_cons, List.append_assoc, List.singleton_append]
    · next after hpart =>
      obtain ⟨text, htext, hspells⟩ := ih done escaped false after
      exact ⟨text, htext, (spells_namePart.2 _ hpart).append hspells⟩
    · exact ⟨[], (List.append_nil _).symm, spells_nothing c⟩

theorem spells_name? {c : Cursor} {n : Name} (h : name? c = some n) : Spells n.text c n.after := by
  unfold name? at h
  split at h
  · next x e after hpart =>
    obtain rfl := Option.some.inj h
    obtain ⟨text, htext, hspells⟩ := spells_nameFrom [x] e true after after.rest.length
    rw [htext]
    exact (spells_namePart.1 _ _ _ hpart).append hspells
  · next after hpart =>
    obtain rfl := Option.some.inj h
    obtain ⟨text, htext, hspells⟩ := spells_nameFrom [] true false after after.rest.length
    rw [htext]
    exact (spells_namePart.2 _ hpart).append hspells
  · cases h

section End

-- No character that may continue a name stands ahead.
def Ends (c : Cursor) : Prop := ∀ x rest, c.rest = x :: rest → continuesName x = false

theorem ends_of_stop (h : namePart continuesName c = .stop) : Ends c := by
  intro x rest hrest
  unfold namePart at h
  split at h
  · next hnil => cases hnil.symm.trans hrest
  · split at h
    · split at h <;> cases h
    · cases h
  · cases h
  · next y rest' _ _ hrest' =>
    obtain ⟨rfl, -⟩ := List.cons.inj (hrest'.symm.trans hrest)
    simpa using h

theorem rest_length_lt (h : c.Reaches after) (hlt : c.offset < after.offset) :
    after.rest.length < c.rest.length := by
  obtain ⟨passed, hrest, hoffset⟩ := h
  have hne : passed ≠ [] := by
    rintro rfl
    rw [hoffset, Text.byteLength] at hlt
    exact Nat.lt_irrefl _ hlt
  have hpos := List.length_pos_iff.mpr hne
  rw [hrest, List.length_append]
  omega

-- The rest of the text bounds a name, so that it is read to its end.
theorem ends_nameFrom {done : List Char} {escaped sound : Bool} {c : Cursor} {fuel : Nat}
    (hfuel : c.rest.length ≤ fuel) : Ends (nameFrom done escaped sound c fuel).after := by
  induction fuel generalizing done escaped sound c with
  | zero =>
    intro x rest hrest
    have hnil := List.eq_nil_of_length_eq_zero (Nat.le_zero.mp hfuel)
    cases hnil.symm.trans hrest
  | succ fuel ih =>
    have hless {after : Cursor} (h : c.Reaches after ∧ c.offset < after.offset) :
        after.rest.length ≤ fuel := by
      have hlt := rest_length_lt h.1 h.2
      omega
    rw [nameFrom]
    split
    · next hpart => exact ih (hless (reaches_namePart.1 _ _ _ hpart))
    · next hpart => exact ih (hless (reaches_namePart.2 _ hpart))
    · next hpart => exact ends_of_stop hpart

theorem ends_name? {c : Cursor} {n : Name} (h : name? c = some n) : Ends n.after := by
  unfold name? at h
  split at h
  · obtain rfl := Option.some.inj h
    exact ends_nameFrom (Nat.le_refl _)
  · obtain rfl := Option.some.inj h
    exact ends_nameFrom (Nat.le_refl _)
  · cases h

end End

end Literal

namespace Spelled

variable {source : List Char} {name : String} {span : Text.Span}

-- The stretch of a name, and the text around it.
theorem cut (h : Spelled source name span) :
    ∃ before spelled behind, source = before ++ (spelled ++ behind) ∧
      Text.byteLength before = span.start ∧
      Text.byteLength before + Text.byteLength spelled = span.stop ∧
      Spelling name.toList spelled ∧ ∀ x rest, behind = x :: rest → continuesName x = false := by
  obtain ⟨c, n, ⟨before, hsource, hoffset⟩, hstart, hname, rfl, hstop⟩ := h
  obtain ⟨spelled, hrest, hoffset', hspelling⟩ := Literal.spells_name? hname
  have hbefore : Text.byteLength before = span.start := by rw [← hstart, hoffset, Nat.zero_add]
  refine ⟨before, spelled, n.after.rest, by rw [← hrest]; exact hsource, hbefore, ?_, ?_,
    Literal.ends_name? hname⟩
  · rw [← hstop, hoffset', hstart, hbefore]
  · rwa [String.toList_ofList]

-- A name that is spelled somewhere stands there as it is, or has an escape.
theorem infix_or_escaped (h : Spelled source name span) :
    name.toList <:+: source ∨ Escaped source span := by
  obtain ⟨before, spelled, behind, hcut, hstart, hstop, hspelling, -⟩ := h.cut
  rcases hspelling.escape_mem_or_eq with hescape | rfl
  · exact .inr ⟨before, spelled, behind, hcut, hstart, hstop, hescape⟩
  · exact .inl ⟨before, behind, by rw [hcut, List.append_assoc]⟩

end Spelled

end Treeshake.Ecma
