import Mathlib.Data.List.Infix
import Mathlib.Data.List.TakeWhile
import Treeshake.Text.Search

namespace Treeshake.Text

-- No separator begins in the front part of a text that goes on with one.
def CutFirst (separator front behind : List Char) : Prop :=
  ∀ before after, front = before ++ after → after ≠ [] →
    ¬separator <+: after ++ (separator ++ behind)

variable {separator : List Char}

theorem piecesFrom_eq_pieces_drop (skip : Nat) (text : List Char) :
    piecesFrom separator skip text = pieces separator (text.drop skip) := by
  induction text generalizing skip with
  | nil => cases skip <;> rfl
  | cons c text ih =>
    cases skip with
    | zero => rfl
    | succ skip => exact ih skip

theorem pieces_separator_append (hsep : separator ≠ []) (behind : List Char) :
    pieces separator (separator ++ behind) = [] :: pieces separator behind := by
  cases separator with
  | nil => exact absurd rfl hsep
  | cons d rest =>
    have hfront : (d :: rest).isPrefixOf (d :: (rest ++ behind)) = true := by simp
    rw [List.cons_append, pieces, piecesFrom, if_pos hfront, piecesFrom_eq_pieces_drop]
    simp

theorem pieces_cons {c : Char} {text : List Char} (h : ¬separator <+: c :: text) :
    pieces separator (c :: text) = (pieces separator text).modifyHead (c :: ·) := by
  rw [pieces, piecesFrom, if_neg (by simpa using h), pieces]

theorem CutFirst.of_cons {c : Char} {front behind : List Char}
    (h : CutFirst separator (c :: front) behind) : CutFirst separator front behind := by
  intro before after hfront hafter
  exact h (c :: before) after (by rw [hfront, List.cons_append]) hafter

theorem cutFirst_cons {c : Char} {front behind : List Char}
    (hc : ¬separator <+: c :: (front ++ (separator ++ behind)))
    (h : CutFirst separator front behind) : CutFirst separator (c :: front) behind := by
  intro before after hfront hafter
  cases before with
  | nil =>
    rw [List.nil_append] at hfront
    subst hfront
    exact hc
  | cons d before => exact h before after (List.cons.inj hfront).2 hafter

theorem pieces_of_cutFirst (hsep : separator ≠ []) {front behind : List Char}
    (h : CutFirst separator front behind) :
    pieces separator (front ++ (separator ++ behind)) = front :: pieces separator behind := by
  induction front with
  | nil => exact pieces_separator_append hsep behind
  | cons c front ih =>
    have hc : ¬separator <+: c :: (front ++ (separator ++ behind)) := h [] _ rfl (by simp)
    rw [List.cons_append, pieces_cons hc, ih h.of_cons]
    rfl

theorem pieces_of_absent {text : List Char} (h : ¬separator <:+: text) :
    pieces separator text = [text] := by
  induction text with
  | nil => rfl
  | cons c text ih =>
    rw [List.infix_cons_iff, not_or] at h
    rw [pieces_cons h.1, ih h.2]
    rfl

-- A text with a separator somewhere has a first one.
theorem exists_cutFirst_of_present (hsep : separator ≠ []) {text : List Char}
    (h : separator <:+: text) :
    ∃ front behind, text = front ++ (separator ++ behind) ∧ CutFirst separator front behind := by
  induction text with
  | nil => exact absurd (List.infix_nil.mp h) hsep
  | cons c text ih =>
    by_cases hc : separator <+: c :: text
    · obtain ⟨behind, hbehind⟩ := hc
      refine ⟨[], behind, hbehind.symm, fun before after hfront hafter => ?_⟩
      exact absurd (List.append_eq_nil_iff.mp hfront.symm).2 hafter
    · rcases List.infix_cons_iff.mp h with hfront | hin
      · exact absurd hfront hc
      · obtain ⟨front, behind, rfl, hcut⟩ := ih hin
        exact ⟨c :: front, behind, rfl, cutFirst_cons hc hcut⟩

theorem cutFirst_of_not_mem {c : Char} {front : List Char} (h : c ∉ front)
    (behind : List Char) : CutFirst [c] front behind := by
  rintro before after rfl hafter hfront
  cases after with
  | nil => exact hafter rfl
  | cons d after =>
    have hd : c = d := by simpa using hfront
    simp [hd] at h

theorem mem_of_mem_piecesFrom {c : Char} {skip : Nat} {text part : List Char}
    (hpart : part ∈ piecesFrom separator skip text) (hc : c ∈ part) : c ∈ text := by
  induction text generalizing skip part with
  | nil =>
    have hnone : part = [] := by cases skip <;> simpa [piecesFrom] using hpart
    simp [hnone] at hc
  | cons d text ih =>
    cases skip with
    | succ skip => exact List.mem_cons_of_mem d (ih hpart hc)
    | zero =>
      rw [piecesFrom] at hpart
      split at hpart
      · rcases List.mem_cons.mp hpart with hnone | hpart
        · simp [hnone] at hc
        · exact List.mem_cons_of_mem d (ih hpart hc)
      · cases hmore : piecesFrom separator 0 text with
        | nil => simp [hmore] at hpart
        | cons first others =>
          rw [hmore, List.modifyHead_cons] at hpart
          have hmem {part : List Char} (hpart : part ∈ first :: others) (hc : c ∈ part) :
              c ∈ text := ih (hmore ▸ hpart) hc
          rcases List.mem_cons.mp hpart with rfl | hpart
          · rcases List.mem_cons.mp hc with rfl | hc
            · exact List.mem_cons_self
            · exact List.mem_cons_of_mem d (hmem List.mem_cons_self hc)
          · exact List.mem_cons_of_mem d (hmem (List.mem_cons_of_mem first hpart) hc)

theorem mem_of_mem_pieces {c : Char} {text part : List Char} (hpart : part ∈ pieces separator text)
    (hc : c ∈ part) : c ∈ text :=
  mem_of_mem_piecesFrom hpart hc

theorem intercalate_cons (mark part : List Char) (parts : List (List Char)) :
    mark.intercalate (part :: parts) = part ++ parts.flatMap (mark ++ ·) := by
  induction parts generalizing part with
  | nil => simp [List.intercalate]
  | cons next parts ih =>
    rw [List.intercalate_cons_cons, ih next, List.flatMap_cons, List.append_assoc,
      List.append_assoc]

theorem length_le_flatMap {α β : Type} (write : α → List β) (hne : ∀ a, write a ≠ [])
    (items : List α) : items.length ≤ (items.flatMap write).length := by
  induction items with
  | nil => exact Nat.le_refl 0
  | cons item items ih =>
    have hitem := List.length_pos_iff.mpr (hne item)
    rw [List.flatMap_cons, List.length_append, List.length_cons]
    omega

theorem mem_intercalate {c d : Char} {parts : List (List Char)} (h : d ∈ [c].intercalate parts) :
    d = c ∨ ∃ part ∈ parts, d ∈ part := by
  induction parts with
  | nil => simp [List.intercalate] at h
  | cons part parts ih =>
    cases parts with
    | nil => exact .inr ⟨part, by simp, by simpa [List.intercalate] using h⟩
    | cons next parts =>
      rw [List.intercalate_cons_cons, List.append_assoc, List.mem_append, List.mem_append,
        List.mem_singleton] at h
      rcases h with hpart | rfl | hrest
      · exact .inr ⟨part, by simp, hpart⟩
      · exact .inl rfl
      · rcases ih hrest with hc | ⟨p, hp, hd⟩
        · exact .inl hc
        · exact .inr ⟨p, List.mem_cons_of_mem _ hp, hd⟩

theorem pieces_intercalate {c : Char} {parts : List (List Char)} (hne : parts ≠ [])
    (h : ∀ part ∈ parts, c ∉ part) : pieces [c] ([c].intercalate parts) = parts := by
  induction parts with
  | nil => exact absurd rfl hne
  | cons part parts ih =>
    have hpart := h part (by simp)
    cases parts with
    | nil =>
      have hin : ¬[c] <:+: part := fun hin => hpart (hin.subset (by simp))
      simpa [List.intercalate] using pieces_of_absent hin
    | cons next parts =>
      rw [List.intercalate_cons_cons, List.append_assoc,
        pieces_of_cutFirst (by simp) (cutFirst_of_not_mem hpart _),
        ih (by simp) fun p hp => h p (List.mem_cons_of_mem _ hp)]

-- A property holds wherever one stands in a word, with the rest behind it.
def Throughout (p : List Char → Prop) (word rest : List Char) : Prop :=
  ∀ before after, word = before ++ after → after ≠ [] → p (after ++ rest)

theorem throughout_append {p : List Char → Prop} {front back rest : List Char}
    (hfront : Throughout p front (back ++ rest)) (hback : Throughout p back rest) :
    Throughout p (front ++ back) rest := by
  intro before after hsplit hafter
  rcases List.append_eq_append_iff.mp hsplit with ⟨gap, -, hgap⟩ | ⟨gap, hgap, hrest⟩
  · exact hback gap after hgap hafter
  · by_cases hnone : gap = []
    · subst hnone
      exact hback [] after (by simpa using hrest.symm) hafter
    · rw [hrest, List.append_assoc]
      exact hfront before gap hgap hnone

section AfterLast

variable {mark : Char} {text back : List Char}

theorem not_mem_afterLast (mark : Char) (text : List Char) : mark ∉ afterLast mark text := by
  intro hmem
  have hother := List.mem_takeWhile_imp (List.mem_reverse.mp hmem)
  simp at hother

theorem eq_append_afterLast (mark : Char) (text : List Char) :
    text = afterLast mark text ∨ ∃ front, text = front ++ mark :: afterLast mark text := by
  have hsplit : text = (text.reverse.dropWhile (· != mark)).reverse ++ afterLast mark text := by
    calc text
      _ = (text.reverse.takeWhile (· != mark) ++ text.reverse.dropWhile (· != mark)).reverse := by
        rw [List.takeWhile_append_dropWhile, List.reverse_reverse]
      _ = (text.reverse.dropWhile (· != mark)).reverse ++ afterLast mark text := by
        rw [List.reverse_append, afterLast]
  have hhead := List.head?_dropWhile_not (· != mark) text.reverse
  cases hdrop : text.reverse.dropWhile (· != mark) with
  | nil =>
    rw [hdrop, List.reverse_nil, List.nil_append] at hsplit
    exact .inl hsplit
  | cons c rest =>
    rw [hdrop] at hhead
    obtain rfl : c = mark := by simpa using hhead
    rw [hdrop, List.reverse_cons, List.append_assoc] at hsplit
    exact .inr ⟨rest.reverse, hsplit⟩

theorem takeWhile_reverse_of_not_mem (h : mark ∉ back) (rest : List Char) :
    (back.reverse ++ rest).takeWhile (· != mark) =
      back.reverse ++ rest.takeWhile (· != mark) := by
  refine List.takeWhile_append_of_pos fun c hc => ?_
  rw [bne_iff_ne]
  rintro rfl
  exact h (List.mem_reverse.mp hc)

theorem afterLast_of_not_mem (h : mark ∉ back) : afterLast mark back = back := by
  have htaken := takeWhile_reverse_of_not_mem h []
  rw [List.append_nil, List.takeWhile_nil, List.append_nil] at htaken
  rw [afterLast, htaken, List.reverse_reverse]

theorem afterLast_append (front : List Char) (h : mark ∉ back) :
    afterLast mark (front ++ mark :: back) = back := by
  have hreverse : (front ++ mark :: back).reverse = back.reverse ++ mark :: front.reverse := by
    simp
  rw [afterLast, hreverse, takeWhile_reverse_of_not_mem h, List.takeWhile_cons_of_neg (by simp),
    List.append_nil, List.reverse_reverse]

-- What stands behind the last mark is free of marks, and is all of a text that has none.
theorem afterLast_eq_iff :
    afterLast mark text = back ↔
      mark ∉ back ∧ (text = back ∨ ∃ front, text = front ++ mark :: back) := by
  constructor
  · rintro rfl
    exact ⟨not_mem_afterLast mark text, eq_append_afterLast mark text⟩
  · rintro ⟨hback, rfl | ⟨front, rfl⟩⟩
    · exact afterLast_of_not_mem hback
    · exact afterLast_append front hback

end AfterLast

end Treeshake.Text
