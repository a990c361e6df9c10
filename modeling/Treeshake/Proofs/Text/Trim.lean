import Treeshake.Proofs.Source.BarrelKey

namespace Treeshake.Text

open Source.Barrel (Blanks exists_blanks trimStart_append)

-- A stretch of characters of a kind and a text that starts with another kind part in one way only.
theorem span_unique {p : Char → Bool} {front front' rest rest' : List Char}
    (h : front ++ rest = front' ++ rest') (hfront : ∀ c ∈ front, p c = true)
    (hfront' : ∀ c ∈ front', p c = true) (hrest : ∀ c ∈ rest.head?, p c = false)
    (hrest' : ∀ c ∈ rest'.head?, p c = false) : front = front' ∧ rest = rest' := by
  have htake (rest : List Char) (hrest : ∀ c ∈ rest.head?, p c = false) :
      rest.takeWhile p = [] := by
    cases rest with
    | nil => rfl
    | cons c rest => exact List.takeWhile_cons_of_neg (by simp [hrest c rfl])
  have hsame : front = front' := by
    have hspan := congrArg (List.takeWhile p) h
    rw [List.takeWhile_append_of_pos hfront, List.takeWhile_append_of_pos hfront',
      htake rest hrest, htake rest' hrest'] at hspan
    simpa using hspan
  subst hsame
  exact ⟨rfl, List.append_cancel_left h⟩

theorem drop_length_takeWhile (p : Char → Bool) (text : List Char) :
    text.drop (text.takeWhile p).length = text.dropWhile p := by
  have hdrop : (text.takeWhile p ++ text.dropWhile p).drop (text.takeWhile p).length =
      text.dropWhile p := List.drop_left
  rwa [List.takeWhile_append_dropWhile] at hdrop

theorem exists_blanks_of_trimStart {text rest : List Char} (h : trimStart text = rest) :
    ∃ blanks, Blanks blanks ∧ text = blanks ++ rest := by
  obtain ⟨blanks, hblanks, htext⟩ := exists_blanks text
  exact ⟨blanks, hblanks, by rw [← h]; exact htext⟩

theorem trim_append {lead word trail : List Char} (hlead : Blanks lead) (htrail : Blanks trail)
    (hfirst : ∀ c ∈ word.head?, Unicode.isBlank c = false)
    (hlast : ∀ c ∈ word.getLast?, Unicode.isBlank c = false) :
    trim (lead ++ word ++ trail) = word := by
  have hback : trimEnd (word ++ trail) = word := by
    have hblanks : Blanks trail.reverse := fun c hc => htrail c (by simpa using hc)
    have hdrop : trimStart (trail.reverse ++ word.reverse) = word.reverse :=
      trimStart_append hblanks (by simpa using hlast)
    rw [trimStart] at hdrop
    rw [trimEnd, List.reverse_append, hdrop, List.reverse_reverse]
  cases word with
  | nil =>
    have hblanks : ∀ c ∈ lead ++ trail, Unicode.isBlank c = true := by
      intro c hc
      exact (List.mem_append.mp hc).elim (hlead c) (htrail c)
    have hnone : trimStart (lead ++ trail) = [] := by
      rw [trimStart, List.dropWhile_eq_nil_iff]
      exact hblanks
    rw [List.append_nil, trim, hnone]
    rfl
  | cons c word =>
    rw [trim, List.append_assoc, trimStart_append hlead (by simpa using hfirst), hback]

theorem trim_blanks {blanks : List Char} (h : Blanks blanks) : trim blanks = [] := by
  have htrim : trim (blanks ++ [] ++ []) = [] :=
    trim_append h (by simp [Blanks]) (by simp) (by simp)
  simpa using htrim

theorem trim_name {lead word trail : List Char} (hlead : Blanks lead) (htrail : Blanks trail)
    (hword : ∀ c ∈ word, Unicode.isBlank c = false) :
    trim (lead ++ word ++ trail) = word :=
  trim_append hlead htrail (fun c hc => hword c (List.mem_of_mem_head? hc))
    (fun c hc => hword c (List.mem_of_mem_getLast? hc))

theorem exists_trim (text : List Char) :
    ∃ lead trail, Blanks lead ∧ Blanks trail ∧ text = lead ++ trim text ++ trail := by
  obtain ⟨lead, hlead, htext⟩ := exists_blanks text
  obtain ⟨trail, htrail, hback⟩ := exists_blanks (trimStart text).reverse
  refine ⟨lead, trail.reverse, hlead, fun c hc => htrail c (by simpa using hc), ?_⟩
  have hrest : trimStart text = trim text ++ trail.reverse := by
    have hforth := List.reverse_eq_iff.mp hback
    rw [List.reverse_append] at hforth
    exact hforth
  rw [List.append_assoc, ← hrest]
  exact htext

end Treeshake.Text
