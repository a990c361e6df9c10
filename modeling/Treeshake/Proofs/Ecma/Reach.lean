import Treeshake.Ecma.Lexer

namespace Treeshake.Ecma

namespace Cursor

-- The second place lies in the same text, so many characters behind the first one.
def Reaches (c c' : Cursor) : Prop :=
  ∃ passed, c.rest = passed ++ c'.rest ∧ c'.offset = c.offset + Text.byteLength passed

variable {c c' c'' : Cursor}

theorem Reaches.refl (c : Cursor) : c.Reaches c := ⟨[], rfl, rfl⟩

theorem Reaches.trans (h : c.Reaches c') (h' : c'.Reaches c'') : c.Reaches c'' := by
  obtain ⟨front, hfront, hoffset⟩ := h
  obtain ⟨back, hback, hoffset'⟩ := h'
  refine ⟨front ++ back, by rw [hfront, hback, List.append_assoc], ?_⟩
  rw [hoffset', hoffset, Text.byteLength_append, Nat.add_assoc]

theorem Reaches.offset_le (h : c.Reaches c') : c.offset ≤ c'.offset := by
  obtain ⟨passed, -, hoffset⟩ := h
  omega

theorem reaches_next (c : Cursor) : c.Reaches c.next := by
  obtain ⟨rest, offset⟩ := c
  cases rest with
  | nil => exact .refl _
  | cons x rest => exact ⟨[x], rfl, rfl⟩

theorem reaches_skip (c : Cursor) (n : Nat) : c.Reaches (c.skip n) := by
  induction n generalizing c with
  | zero => exact .refl c
  | succ n ih => exact (reaches_next c).trans (ih c.next)

theorem reaches_dropFrom (p : Char → Bool) (rest : List Char) (offset : Nat) :
    (⟨rest, offset⟩ : Cursor).Reaches (dropFrom p rest offset) := by
  induction rest generalizing offset with
  | nil => exact .refl _
  | cons x rest ih =>
    rw [dropFrom]
    split
    · exact (reaches_next ⟨x :: rest, offset⟩).trans (ih _)
    · exact .refl _

theorem reaches_dropWhile (p : Char → Bool) (c : Cursor) : c.Reaches (c.dropWhile p) :=
  reaches_dropFrom p c.rest c.offset

-- Skipping a text that stands ahead.
theorem skip_of_append {text rest : List Char} (h : c.rest = text ++ rest) :
    (c.skip text.length).rest = rest ∧
      (c.skip text.length).offset = c.offset + Text.byteLength text := by
  induction text generalizing c with
  | nil => exact ⟨h, rfl⟩
  | cons x text ih =>
    obtain ⟨ahead, offset⟩ := c
    obtain rfl : ahead = x :: (text ++ rest) := h
    obtain ⟨hrest, hoffset⟩ := ih (c := ⟨text ++ rest, offset + x.utf8Size⟩) rfl
    refine ⟨hrest, ?_⟩
    rw [List.length_cons, skip, next, hoffset, Text.byteLength_cons, Nat.add_assoc]

end Cursor

namespace Literal

open Cursor

theorem reaches_codePoint {c after : Cursor} {value : Nat}
    (h : codePoint c = some (value, after)) : c.Reaches after := by
  unfold codePoint at h
  split at h
  · obtain ⟨-, heq⟩ := Option.ite_none_right_eq_some.mp h
    obtain ⟨-, rfl⟩ := Prod.mk.inj (Option.some.inj heq)
    exact ((reaches_next c).trans (reaches_skip _ _)).trans (reaches_next _)
  · obtain ⟨-, heq⟩ := Option.ite_none_right_eq_some.mp h
    obtain ⟨-, rfl⟩ := Prod.mk.inj (Option.some.inj heq)
    exact reaches_skip c 4
  · cases h

-- A part of a name takes a character at least.
theorem reaches_namePart {allowed : Char → Bool} {c : Cursor} :
    (∀ x e after, namePart allowed c = .char x e after →
      c.Reaches after ∧ c.offset < after.offset) ∧
    ∀ after, namePart allowed c = .fault after → c.Reaches after ∧ c.offset < after.offset := by
  have hnext {x : Char} {rest : List Char} (hrest : c.rest = x :: rest) :
      c.offset < c.next.offset := by
    obtain ⟨ahead, offset⟩ := c
    obtain rfl : ahead = x :: rest := hrest
    exact Nat.lt_add_of_pos_right x.utf8Size_pos
  have hpassed {x : Char} {rest : List Char} {c' : Cursor} (hrest : c.rest = x :: rest)
      (h : c.next.Reaches c') : c.Reaches c' ∧ c.offset < c'.offset :=
    ⟨(reaches_next c).trans h, Nat.lt_of_lt_of_le (hnext hrest) h.offset_le⟩
  unfold namePart
  split
  · simp
  · next hrest =>
    split
    · next value after hcode =>
      have hreach : c.Reaches after ∧ c.offset < after.offset :=
        hpassed hrest ((reaches_next c.next).trans (reaches_codePoint hcode))
      split <;> simp [hreach]
    · have hreach := hpassed hrest (reaches_next c.next)
      simp only [NamePart.fault.injEq, reduceCtorEq, false_implies, implies_true, true_and]
      rintro after rfl
      exact hreach
  · next hrest =>
    have hreach := hpassed hrest (.refl c.next)
    simp only [NamePart.fault.injEq, reduceCtorEq, false_implies, implies_true, true_and]
    rintro after rfl
    exact hreach
  · next x rest hrest =>
    have hreach := hpassed hrest (.refl c.next)
    split <;> simp [hreach]

theorem reaches_nameFrom (done : List Char) (escaped sound : Bool) (c : Cursor) (fuel : Nat) :
    c.Reaches (nameFrom done escaped sound c fuel).after := by
  induction fuel generalizing done escaped sound c with
  | zero => exact .refl c
  | succ fuel ih =>
    rw [nameFrom]
    split
    · next hpart => exact (reaches_namePart.1 _ _ _ hpart).1.trans (ih _ _ _ _)
    · next hpart => exact (reaches_namePart.2 _ hpart).1.trans (ih _ _ _ _)
    · exact .refl c

theorem reaches_name? {c : Cursor} {n : Name} (h : name? c = some n) :
    c.Reaches n.after ∧ c.offset < n.after.offset := by
  have hrest {after : Cursor} (hpart : c.Reaches after ∧ c.offset < after.offset)
      (done : List Char) (escaped sound : Bool) (fuel : Nat) :
      c.Reaches (nameFrom done escaped sound after fuel).after ∧
        c.offset < (nameFrom done escaped sound after fuel).after.offset := by
    have hmore := reaches_nameFrom done escaped sound after fuel
    exact ⟨hpart.1.trans hmore, Nat.lt_of_lt_of_le hpart.2 hmore.offset_le⟩
  unfold name? at h
  split at h
  · next hpart =>
    obtain rfl := Option.some.inj h
    exact hrest (reaches_namePart.1 _ _ _ hpart) _ _ _ _
  · next hpart =>
    obtain rfl := Option.some.inj h
    exact hrest (reaches_namePart.2 _ hpart) _ _ _ _
  · cases h

section Numerals

variable {isDigit : Char → Bool}

theorem reaches_digitsFrom (sound : Bool) (c : Cursor) (fuel : Nat) :
    c.Reaches (digitsFrom isDigit sound c fuel).1 := by
  induction fuel generalizing sound c with
  | zero => exact .refl c
  | succ fuel ih =>
    rw [digitsFrom]
    split
    · split
      · exact (reaches_skip c 2).trans (ih _ _)
      · exact (reaches_next c).trans (ih _ _)
    · exact reaches_next c
    · split
      · exact (reaches_next c).trans (ih _ _)
      · exact .refl c
    · exact .refl c

theorem reaches_digits (c : Cursor) : c.Reaches (digits isDigit c).1 := by
  rw [digits]
  split
  · exact (reaches_next c).trans (reaches_digitsFrom _ _ _)
  · exact .refl c

theorem reaches_separate (c : Cursor) (sound : Bool) : c.Reaches (separate c sound).1 := by
  rw [separate]
  split
  · next hname => exact (reaches_name? hname).1
  · split
    · exact reaches_next c
    · exact .refl c

theorem reaches_based (c : Cursor) : c.Reaches (based isDigit c).2.1 := by
  have hdigits : c.Reaches (digits isDigit c).1 := reaches_digits c
  unfold based
  dsimp only
  split
  · exact hdigits.trans ((reaches_next _).trans (reaches_separate _ _))
  · exact hdigits.trans (reaches_separate _ _)

theorem reaches_exponent (c : Cursor) (sound : Bool) : c.Reaches (exponent c sound).1 := by
  unfold exponent
  dsimp only
  split
  · exact (reaches_next c).trans ((reaches_digits _).trans (reaches_separate _ _))
  · exact (reaches_digits c).trans (reaches_separate _ _)

theorem reaches_maybeExponent (c : Cursor) (sound : Bool) :
    c.Reaches (maybeExponent c sound).1 := by
  rw [maybeExponent]
  split
  · exact (reaches_next c).trans (reaches_exponent _ _)
  · exact reaches_separate c sound

theorem reaches_fraction (c : Cursor) (sound : Bool) : c.Reaches (fraction c sound).1 := by
  rw [fraction]
  split
  · exact (reaches_digits c).trans (reaches_maybeExponent _ _)
  · exact reaches_maybeExponent c sound

theorem reaches_zeroLed (c : Cursor) : c.Reaches (zeroLed c).1 := by
  have hdigits := reaches_dropWhile Char.isDigit c
  rw [zeroLed]
  split
  · exact hdigits.trans ((reaches_next _).trans (reaches_fraction _ _))
  · split
    · exact hdigits.trans ((reaches_next _).trans (reaches_exponent _ _))
    · exact hdigits.trans (reaches_separate _ _)

theorem reaches_numeral (c : Cursor) : c.Reaches (numeral c).2.1 := by
  unfold numeral
  split
  · exact (reaches_next c).trans (reaches_fraction _ _)
  · split
    · exact (reaches_skip c 2).trans (reaches_based _)
    split
    · exact (reaches_skip c 2).trans (reaches_based _)
    split
    · exact (reaches_skip c 2).trans (reaches_based _)
    split
    · exact (reaches_next c).trans (reaches_zeroLed _)
    split
    · exact (reaches_skip c 2).trans (reaches_separate _ _)
    split
    · exact (reaches_skip c 2).trans (reaches_fraction _ _)
    · exact (reaches_next c).trans (reaches_maybeExponent _ _)
  · have hdigits : c.Reaches (digits Char.isDigit c).1 := reaches_digits c
    dsimp only
    split
    · exact hdigits.trans ((reaches_next _).trans (reaches_separate _ _))
    · exact hdigits.trans ((reaches_next _).trans (reaches_fraction _ _))
    · exact hdigits.trans (reaches_maybeExponent _ _)

end Numerals

section Texts

theorem reaches_escape (template : Bool) (c : Cursor) : c.Reaches (escape template c).after := by
  unfold escape
  split
  · exact .refl c
  · split
    · exact reaches_skip c 3
    · exact reaches_next c
  · exact reaches_next c
  · split
    · next hcode => exact (reaches_next c).trans (reaches_codePoint hcode)
    · exact reaches_next c
  · exact reaches_skip c 2
  · exact reaches_next c
  · exact reaches_next c
  · exact reaches_next c
  · exact reaches_next c
  · exact reaches_next c
  · exact reaches_next c
  · repeat' split
    all_goals exact reaches_next c

theorem reaches_stringFrom (quote : Char) (done : List Char) (sound : Bool) (c : Cursor)
    (fuel : Nat) : c.Reaches (stringFrom quote done sound c fuel).after := by
  induction fuel generalizing done sound c with
  | zero => exact .refl c
  | succ fuel ih =>
    rw [stringFrom]
    split
    · exact .refl c
    · exact (reaches_next c).trans ((reaches_escape _ _).trans (ih _ _ _))
    · split
      · exact reaches_next c
      split
      · exact .refl c
      · exact (reaches_next c).trans (ih _ _ _)

theorem reaches_templateFrom (valid : Bool) (c : Cursor) (fuel : Nat) :
    c.Reaches (templateFrom valid c fuel).after := by
  induction fuel generalizing valid c with
  | zero => exact .refl c
  | succ fuel ih =>
    rw [templateFrom]
    split
    · exact .refl c
    · exact reaches_next c
    · exact reaches_skip c 2
    · exact (reaches_next c).trans ((reaches_escape _ _).trans (ih _ _))
    · exact (reaches_next c).trans (ih _ _)

theorem reaches_patternBody (inClass : Bool) (c : Cursor) (fuel : Nat) :
    c.Reaches (patternBody inClass c fuel).1 := by
  induction fuel generalizing inClass c with
  | zero => exact .refl c
  | succ fuel ih =>
    rw [patternBody]
    split
    · exact .refl c
    · split
      · exact reaches_next c
      · exact (reaches_skip c 2).trans (ih _ _)
    · split
      · exact .refl c
      split
      · exact reaches_next c
      · exact (reaches_next c).trans (ih _ _)

theorem reaches_pattern (c : Cursor) : c.Reaches (pattern c).1 :=
  ((reaches_next c).trans (reaches_patternBody _ _ _)).trans (reaches_dropWhile _ _)

end Texts

end Literal

end Treeshake.Ecma
