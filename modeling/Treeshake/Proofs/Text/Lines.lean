import Treeshake.Proofs.Text.Pieces

namespace Treeshake.Text

def firstLine (text : List Char) : List Char := text.takeWhile (· != '\n')

def AllLines (p : List Char → Prop) (text : List Char) : Prop := ∀ line ∈ pieces ['\n'] text, p line

def LaterLines (p : List Char → Prop) (text : List Char) : Prop :=
  ∀ line ∈ (pieces ['\n'] text).tail, p line

variable {p : List Char → Prop} {text : List Char}

theorem pieces_break (text : List Char) : pieces ['\n'] ('\n' :: text) = [] :: pieces ['\n'] text :=
  pieces_separator_append (by simp) text

theorem pieces_char {c : Char} (hc : c ≠ '\n') (text : List Char) :
    pieces ['\n'] (c :: text) = (pieces ['\n'] text).modifyHead (c :: ·) :=
  pieces_cons (by simpa using hc.symm)

theorem pieces_eq_firstLine (text : List Char) :
    pieces ['\n'] text = firstLine text :: (pieces ['\n'] text).tail := by
  induction text with
  | nil => rfl
  | cons c text ih =>
    by_cases hc : c = '\n'
    · subst hc
      rw [pieces_break]
      rfl
    · have hfirst : firstLine (c :: text) = c :: firstLine text := by simp [firstLine, hc]
      rw [pieces_char hc, ih, hfirst]
      rfl

theorem firstLine_append {line : List Char} (hline : '\n' ∉ line) (text : List Char) :
    firstLine (line ++ text) = line ++ firstLine text := by
  have hother : ∀ c ∈ line, (c != '\n') = true := by
    intro c hc
    rw [bne_iff_ne]
    exact fun heq => hline (heq ▸ hc)
  exact List.takeWhile_append_of_pos hother

theorem allLines_iff : AllLines p text ↔ p (firstLine text) ∧ LaterLines p text := by
  rw [AllLines, pieces_eq_firstLine, List.forall_mem_cons]
  exact Iff.rfl

theorem laterLines_cons {c : Char} (hc : c ≠ '\n') :
    LaterLines p (c :: text) ↔ LaterLines p text := by
  rw [LaterLines, pieces_char hc, pieces_eq_firstLine, List.modifyHead_cons, List.tail_cons]
  exact Iff.rfl

theorem laterLines_break : LaterLines p ('\n' :: text) ↔ AllLines p text := by
  rw [LaterLines, pieces_break, List.tail_cons]
  exact Iff.rfl

theorem laterLines_append {line : List Char} (hline : '\n' ∉ line) :
    LaterLines p (line ++ text) ↔ LaterLines p text := by
  induction line with
  | nil => exact Iff.rfl
  | cons c line ih =>
    rw [List.mem_cons, not_or] at hline
    rw [List.cons_append, laterLines_cons (Ne.symm hline.1), ih hline.2]

theorem pieces_append_break (front text : List Char) :
    pieces ['\n'] (front ++ '\n' :: text) = pieces ['\n'] front ++ pieces ['\n'] text := by
  induction front with
  | nil => exact pieces_break text
  | cons c front ih =>
    by_cases hc : c = '\n'
    · subst hc
      rw [List.cons_append, pieces_break, pieces_break, ih, List.cons_append]
    · rw [List.cons_append, pieces_char hc, pieces_char hc, ih, pieces_eq_firstLine front]
      rfl

-- A text of whole lines has them and an empty rest.
theorem pieces_whole_lines {lines : List (List Char)} (h : ∀ line ∈ lines, '\n' ∉ line) :
    pieces ['\n'] (lines.flatMap (· ++ ['\n'])) = lines ++ [[]] := by
  induction lines with
  | nil => rfl
  | cons line lines ih =>
    rw [List.forall_mem_cons] at h
    rw [List.flatMap_cons, List.append_assoc,
      pieces_of_cutFirst (by simp) (cutFirst_of_not_mem h.1 _), ih h.2, List.cons_append]

theorem laterLines_append_break {front : List Char} :
    LaterLines p (front ++ '\n' :: text) ↔ LaterLines p front ∧ AllLines p text := by
  have htail : (pieces ['\n'] (front ++ '\n' :: text)).tail =
      (pieces ['\n'] front).tail ++ pieces ['\n'] text := by
    rw [pieces_append_break, pieces_eq_firstLine front]
    rfl
  rw [LaterLines, htail, List.forall_mem_append]
  exact Iff.rfl

theorem LaterLines.of_append {front : List Char} (h : LaterLines p (front ++ text)) :
    LaterLines p text := by
  induction front with
  | nil => exact h
  | cons c front ih =>
    by_cases hc : c = '\n'
    · subst hc
      rw [List.cons_append, laterLines_break, allLines_iff] at h
      exact ih h.2
    · rw [List.cons_append, laterLines_cons hc] at h
      exact ih h

end Treeshake.Text
