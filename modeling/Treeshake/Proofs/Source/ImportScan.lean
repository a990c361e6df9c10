import Treeshake.Proofs.Source.ImportStatement

namespace Treeshake.Source.Import

open Barrel (Blanks)

variable {library : List Char} {path : String}

theorem statement?_of_head {c : Char} (hc : c ≠ 'i') (text : List Char) :
    statement? library (c :: text) = none := by
  rw [Option.eq_none_iff_forall_ne_some]
  rintro ⟨list, rest⟩ hread
  obtain ⟨-, -, l, htext, -⟩ := statement?_eq_some_iff.mp hread
  obtain ⟨tail, htail⟩ := l.text_eq_cons library list
  rw [htail, List.cons_append] at htext
  exact hc (List.cons.inj htext).1

theorem length_lt_of_statement? {text list rest : List Char}
    (h : statement? library text = some (list, rest)) : rest.length < text.length := by
  obtain ⟨-, -, l, htext, -⟩ := statement?_eq_some_iff.mp h
  obtain ⟨tail, htail⟩ := l.text_eq_cons library list
  rw [htext, htail]
  simp only [List.cons_append, List.length_cons, List.length_append]
  omega

-- Texts as the scan goes through them.
theorem scan_induction (library : List Char) {motive : List Char → Prop} (nil : motive [])
    (char : ∀ (c : Char) (text : List Char), statement? library (c :: text) = none →
      motive text → motive (c :: text))
    (statement : ∀ (text list rest : List Char), statement? library text = some (list, rest) →
      motive rest → motive text)
    (text : List Char) : motive text := by
  induction hlength : text.length using Nat.strong_induction_on generalizing text with
  | _ length ih =>
    subst hlength
    cases hread : statement? library text with
    | some pair =>
      obtain ⟨list, rest⟩ := pair
      exact statement text list rest hread (ih _ (length_lt_of_statement? hread) rest rfl)
    | none =>
      cases text with
      | nil => exact nil
      | cons c text => exact char c text hread (ih _ (by simp) text rfl)

-- The scan of a text comes to a statement with a list, and to what follows it.
inductive Meets (library : List Char) : List Char → List Char → List Char → Prop
  | here {text list rest : List Char} (h : statement? library text = some (list, rest)) :
      Meets library text list rest
  | char {c : Char} {text list rest : List Char} (hnone : statement? library (c :: text) = none)
      (h : Meets library text list rest) : Meets library (c :: text) list rest
  | behind {text first next list rest : List Char}
      (hread : statement? library text = some (first, next)) (h : Meets library next list rest) :
      Meets library text list rest

theorem not_meets_nil (list rest : List Char) : ¬Meets library [] list rest := by
  intro h
  cases h with
  | here h => cases h
  | behind h => cases h

theorem meets_of_none {c : Char} {text list rest : List Char}
    (hnone : statement? library (c :: text) = none) :
    Meets library (c :: text) list rest ↔ Meets library text list rest := by
  constructor
  · intro h
    cases h with
    | here h => simp [hnone] at h
    | char _ h => exact h
    | behind h => simp [hnone] at h
  · exact .char hnone

theorem meets_of_some {text first next list rest : List Char}
    (hread : statement? library text = some (first, next)) :
    Meets library text list rest ↔ first = list ∧ next = rest ∨ Meets library next list rest := by
  constructor
  · intro h
    cases h with
    | here h =>
      have heq : first = list ∧ next = rest := by simpa [hread] using h
      exact .inl heq
    | char h => simp [hread] at h
    | behind h hmore =>
      rw [hread] at h
      obtain ⟨-, rfl⟩ := Prod.mk.inj (Option.some.inj h)
      exact .inr hmore
  · rintro (⟨rfl, rfl⟩ | h)
    · exact .here hread
    · exact .behind hread h

theorem not_meets_of_not_occurs {text list rest : List Char} (h : occurs library text = false) :
    ¬Meets library text list rest := by
  induction text with
  | nil => exact not_meets_nil list rest
  | cons c text ih =>
    rw [occurs, Bool.or_eq_false_iff, Option.isSome_eq_false_iff, Option.isNone_iff_eq_none] at h
    rw [meets_of_none h.1]
    exact ih h.2

theorem splitFrom_of_not_occurs {text : List Char} (h : occurs library text = false) :
    splitFrom library path 0 text = text := by
  induction text with
  | nil => rfl
  | cons c text ih =>
    rw [occurs, Bool.or_eq_false_iff, Option.isSome_eq_false_iff, Option.isNone_iff_eq_none] at h
    rw [splitFrom_of_none h.1, ih h.2]

-- The text after the rewrite, whether or not there was anything to rewrite.
theorem toList_getD_split? (library path source : String) :
    ((split? library path source).getD source).toList =
      splitFrom library.toList path 0 source.toList := by
  rw [split?]
  split
  · rw [Option.getD_some, String.toList_ofList]
  · next h => rw [Option.getD_none, splitFrom_of_not_occurs (by simpa using h)]

section Line

theorem mem_of_mem_trim {c : Char} {text : List Char} (h : c ∈ Text.trim text) : c ∈ text := by
  obtain ⟨lead, trail, -, -, htext⟩ := Text.exists_trim text
  rw [htext]
  simp [h]

-- What is read off a list stands in the list.
theorem mem_of_mem_specifiers {list : List Char} {s : Specifier} (hs : s ∈ specifiers list) :
    (∀ c ∈ s.imported, c ∈ list) ∧ ∀ c ∈ s.bound, c ∈ list := by
  obtain ⟨item, hitem, hread⟩ := List.mem_filterMap.mp hs
  have hpart {part : List Char} (hpart : part ∈ (Text.pieces " as ".toList item).map Text.trim) :
      ∀ c ∈ part, c ∈ list := by
    intro c hc
    obtain ⟨piece, hpiece, rfl⟩ := List.mem_map.mp hpart
    exact Text.mem_of_mem_pieces hitem (Text.mem_of_mem_pieces hpiece (mem_of_mem_trim hc))
  rw [specifier?] at hread
  cases hparts : (Text.pieces " as ".toList item).map Text.trim with
  | nil =>
    rw [hparts] at hread
    cases hread
  | cons imported others =>
    rw [hparts] at hread hpart
    simp only [Option.ite_none_left_eq_some, Option.some.injEq] at hread
    obtain ⟨-, rfl⟩ := hread
    have himported : ∀ c ∈ imported, c ∈ list := hpart List.mem_cons_self
    refine ⟨himported, ?_⟩
    cases hbound : others.head?.filter fun bound => !bound.isEmpty with
    | none => exact himported
    | some bound =>
      have hmem : bound ∈ others :=
        List.mem_of_mem_head? (Option.filter_eq_some_iff.mp hbound).1
      exact hpart (List.mem_cons_of_mem imported hmem)

-- What stands between the braces of a line.
def Specifier.listed (s : Specifier) : List Char :=
  ' ' :: (s.imported ++ (" as ".toList ++ (s.bound ++ [' '])))

-- A line is itself a statement, one that imports from the path.
theorem line_eq_text (path : String) (s : Specifier) :
    line path s = plainLayout.text path.toList s.listed ++ ['\n'] := by
  have hopen : "import \x7b ".toList = "import".toList ++ [' ', '\x7b', ' '] := by decide
  have hfrom : " \x7d from '".toList = [' ', '\x7d', ' '] ++ ("from".toList ++ [' ', '\'']) := by
    decide
  have hclose : "';\n".toList = ['\'', ';', '\n'] := by decide
  rw [plainLayout.text_append, line_eq]
  delta Specifier.text
  rw [hopen, hfrom, hclose]
  simp only [Specifier.listed, List.append_assoc, List.cons_append, List.nil_append]
  rfl

theorem Specifier.mem_listed {s : Specifier} {list : List Char} (hs : s ∈ specifiers list)
    {c : Char} (hc : c ∈ s.listed) : c ∈ list ∨ c ∈ " as ".toList := by
  obtain ⟨himported, hbound⟩ := mem_of_mem_specifiers hs
  simp only [Specifier.listed, List.mem_cons, List.mem_append, List.not_mem_nil, or_false] at hc
  rcases hc with rfl | hc | hc | hc | rfl
  · exact .inr (by decide)
  · exact .inl (himported c hc)
  · exact .inr hc
  · exact .inl (hbound c hc)
  · exact .inr (by decide)

end Line

end Treeshake.Source.Import
