import Treeshake.Proofs.Text.Pieces
import Treeshake.Text.Search

namespace Treeshake.Text

variable {needle : List Char}

theorem mem_of_mem_eraseFrom {c : Char} {skip : Nat} {text : List Char}
    (h : c ∈ eraseFrom needle skip text) : c ∈ text := by
  induction text generalizing skip with
  | nil => cases skip <;> simp [eraseFrom] at h
  | cons d text ih =>
    cases skip with
    | succ skip => exact List.mem_cons_of_mem _ (ih h)
    | zero =>
      rw [eraseFrom] at h
      split at h
      · exact List.mem_cons_of_mem _ (ih h)
      · rcases List.mem_cons.mp h with rfl | h
        · exact List.mem_cons_self
        · exact List.mem_cons_of_mem _ (ih h)

theorem mem_of_mem_erase {c : Char} {text : List Char} (h : c ∈ erase needle text) : c ∈ text :=
  mem_of_mem_eraseFrom h

theorem eraseFrom_eq_erase_drop (skip : Nat) (text : List Char) :
    eraseFrom needle skip text = erase needle (text.drop skip) := by
  induction text generalizing skip with
  | nil => cases skip <;> rfl
  | cons c text ih =>
    cases skip with
    | zero => rfl
    | succ skip => exact ih skip

theorem erase_append (hne : needle ≠ []) (behind : List Char) :
    erase needle (needle ++ behind) = erase needle behind := by
  cases needle with
  | nil => exact absurd rfl hne
  | cons d rest =>
    have hfront : (d :: rest).isPrefixOf (d :: (rest ++ behind)) = true := by simp
    rw [List.cons_append, erase, eraseFrom, if_pos hfront, eraseFrom_eq_erase_drop]
    simp

theorem erase_of_absent {text : List Char} (h : ¬needle <:+: text) : erase needle text = text := by
  induction text with
  | nil => rfl
  | cons c text ih =>
    rw [List.infix_cons_iff, not_or] at h
    rw [erase, eraseFrom, if_neg (by simpa using h.1)]
    exact congrArg (c :: ·) (ih h.2)

section Foreign

variable {mark : Char}

-- A needle does not reach over a character that it does not hold.
theorem prefix_append_cons_iff (hmark : mark ∉ needle) (front behind : List Char) :
    needle <+: front ++ mark :: behind ↔ needle <+: front := by
  constructor
  · rintro ⟨more, hmore⟩
    rcases List.append_eq_append_iff.mp hmore with ⟨gap, hfront, -⟩ | ⟨gap, hneedle, hgap⟩
    · exact ⟨gap, hfront.symm⟩
    · cases gap with
      | nil => exact ⟨[], by simpa using hneedle⟩
      | cons c gap =>
        obtain ⟨rfl, -⟩ := List.cons.inj hgap
        simp [hneedle] at hmark
  · exact fun h => h.trans (List.prefix_append _ _)

theorem eraseFrom_append_cons (hne : needle ≠ []) (hmark : mark ∉ needle) {skip : Nat}
    {front : List Char} (hskip : skip ≤ front.length) (behind : List Char) :
    eraseFrom needle skip (front ++ mark :: behind) =
      eraseFrom needle skip front ++ mark :: erase needle behind := by
  induction front generalizing skip with
  | nil =>
    obtain rfl := Nat.le_zero.mp hskip
    have hno : ¬needle <+: mark :: behind := by
      intro h
      exact hne (List.prefix_nil.mp ((prefix_append_cons_iff hmark [] behind).mp h))
    simp [eraseFrom, erase, hno]
  | cons c front ih =>
    cases skip with
    | succ skip => exact ih (by simpa using hskip)
    | zero =>
      have hiff := prefix_append_cons_iff hmark (c :: front) behind
      simp only [List.cons_append] at hiff
      simp only [List.cons_append, eraseFrom, List.isPrefixOf_iff_prefix, hiff]
      split
      · next hneedle =>
        have hlen := hneedle.length_le
        rw [List.length_cons] at hlen
        exact ih (by omega)
      · rw [ih (Nat.zero_le _), List.cons_append]

theorem erase_append_cons (hne : needle ≠ []) (hmark : mark ∉ needle) (front behind : List Char) :
    erase needle (front ++ mark :: behind) = erase needle front ++ mark :: erase needle behind :=
  eraseFrom_append_cons hne hmark (Nat.zero_le _) behind

theorem erase_cons (hne : needle ≠ []) (hmark : mark ∉ needle) (behind : List Char) :
    erase needle (mark :: behind) = mark :: erase needle behind :=
  erase_append_cons hne hmark [] behind

theorem erase_intercalate (hne : needle ≠ []) (hmark : mark ∉ needle) (parts : List (List Char)) :
    erase needle ([mark].intercalate parts) = [mark].intercalate (parts.map (erase needle)) := by
  induction parts with
  | nil => simp [erase, eraseFrom]
  | cons part parts ih =>
    cases parts with
    | nil => simp
    | cons next parts =>
      rw [List.intercalate_cons_cons, List.append_assoc, List.singleton_append,
        erase_append_cons hne hmark, ih]
      simp

end Foreign

end Treeshake.Text
