namespace Treeshake.Usage

def insertName (name : String) : List String → List String
  | [] => [name]
  | first :: rest =>
    if name < first then name :: first :: rest
    else if name = first then first :: rest
    else first :: insertName name rest

theorem mem_insertName {x name : String} {names : List String} :
    x ∈ insertName name names ↔ x = name ∨ x ∈ names := by
  induction names with
  | nil => simp [insertName]
  | cons first rest ih =>
    rw [insertName]
    split
    · simp
    · split
      · next heq => simp [heq]
      · rw [List.mem_cons, ih, List.mem_cons]
        grind

theorem insertName_increasing {name : String} {names : List String}
    (h : names.Pairwise (· < ·)) : (insertName name names).Pairwise (· < ·) := by
  induction names with
  | nil => simp [insertName]
  | cons first rest ih =>
    obtain ⟨hfirst, hrest⟩ := List.pairwise_cons.1 h
    rw [insertName]
    split
    · next hlt =>
      refine List.pairwise_cons.2 ⟨fun x hx => ?_, h⟩
      rcases List.mem_cons.1 hx with rfl | hx
      · exact hlt
      · exact String.lt_trans hlt (hfirst x hx)
    · next hnlt =>
      split
      · exact h
      · next hne =>
        refine List.pairwise_cons.2 ⟨fun x hx => ?_, ih hrest⟩
        rcases mem_insertName.1 hx with rfl | hx
        · exact Std.lt_of_le_of_ne hnlt (Ne.symm hne)
        · exact hfirst x hx

structure NameSet where
  names : List String
  increasing : names.Pairwise (· < ·)
deriving DecidableEq

namespace NameSet

def empty : NameSet := ⟨[], .nil⟩

def has (s : NameSet) (name : String) : Bool := s.names.contains name

def insert (s : NameSet) (name : String) : NameSet :=
  ⟨insertName name s.names, insertName_increasing s.increasing⟩

def size (s : NameSet) : Nat := s.names.length

-- Two sets with the same members are the same, whatever came first.
theorem ext_of_mem {s t : NameSet} (h : ∀ name, name ∈ s.names ↔ name ∈ t.names) : s = t := by
  obtain ⟨xs, hxs⟩ := s
  obtain ⟨ys, hys⟩ := t
  suffices xs = ys by subst this; rfl
  induction xs generalizing ys with
  | nil =>
    cases ys with
    | nil => rfl
    | cons y ys => exact absurd ((h y).2 List.mem_cons_self) List.not_mem_nil
  | cons x xs ih =>
    cases ys with
    | nil => exact absurd ((h x).1 List.mem_cons_self) List.not_mem_nil
    | cons y ys =>
      obtain ⟨hx, hxs'⟩ := List.pairwise_cons.1 hxs
      obtain ⟨hy, hys'⟩ := List.pairwise_cons.1 hys
      have heq : x = y := by
        rcases List.mem_cons.1 ((h x).1 List.mem_cons_self) with heq | hmem
        · exact heq
        · rcases List.mem_cons.1 ((h y).2 List.mem_cons_self) with heq | hmem'
          · exact heq.symm
          · exact absurd (hx y hmem') (String.lt_asymm (hy x hmem))
      subst heq
      have hmem (name : String) : name ∈ xs ↔ name ∈ ys := by
        have hname := h name
        simp only [List.mem_cons] at hname
        constructor
        · intro hleft
          rcases hname.1 (.inr hleft) with rfl | hright
          · exact absurd (hx _ hleft) (String.lt_irrefl _)
          · exact hright
        · intro hright
          rcases hname.2 (.inr hright) with rfl | hleft
          · exact absurd (hy _ hright) (String.lt_irrefl _)
          · exact hleft
      rw [ih hxs' ys hys' hmem]

end NameSet

end Treeshake.Usage
