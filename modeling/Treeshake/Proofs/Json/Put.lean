import Treeshake.Json.Value

namespace Treeshake.Json

variable {name : String} {value : Json}

-- The second object is the first with the value under the name: in the place of the one that had
-- the name, or behind all fields if none had it. Everything else stands where it stood.
inductive Placed (name : String) (value : Json) :
    List (String × Json) → List (String × Json) → Prop where
  | inPlace {front back : List (String × Json)} {old : Json}
      (h : ∀ field ∈ front, field.1 ≠ name) :
      Placed name value (front ++ (name, old) :: back) (front ++ (name, value) :: back)
  | last {fields : List (String × Json)} (h : ∀ field ∈ fields, field.1 ≠ name) :
      Placed name value fields (fields ++ [(name, value)])

theorem put_cons_of_ne (field : String × Json) (h : field.1 ≠ name)
    (rest : List (String × Json)) :
    put name value (field :: rest) = field :: put name value rest := by
  rw [put, if_neg (by simpa using h)]

theorem put_append_of_ne {front : List (String × Json)} (h : ∀ field ∈ front, field.1 ≠ name)
    (rest : List (String × Json)) :
    put name value (front ++ rest) = front ++ put name value rest := by
  induction front with
  | nil => rfl
  | cons field front ih =>
    rw [List.cons_append, put_cons_of_ne field (h field List.mem_cons_self),
      ih fun other hother => h other (List.mem_cons_of_mem field hother), List.cons_append]

theorem Placed.cons {field : String × Json} {fields placed : List (String × Json)}
    (hfield : field.1 ≠ name) (h : Placed name value fields placed) :
    Placed name value (field :: fields) (field :: placed) := by
  cases h with
  | inPlace hfront => exact .inPlace (List.forall_mem_cons.mpr ⟨hfield, hfront⟩)
  | last hfields => exact .last (List.forall_mem_cons.mpr ⟨hfield, hfields⟩)

theorem placed_iff {fields placed : List (String × Json)} :
    Placed name value fields placed ↔ placed = put name value fields := by
  constructor
  · intro h
    cases h with
    | inPlace hfront => rw [put_append_of_ne hfront, put, if_pos (beq_self_eq_true name)]
    | last hfields =>
      have hput : put name value (fields ++ []) = fields ++ put name value [] :=
        put_append_of_ne hfields []
      rw [List.append_nil] at hput
      exact hput.symm
  · rintro rfl
    induction fields with
    | nil => exact .last (List.forall_mem_nil _)
    | cons field rest ih =>
      obtain ⟨key, old⟩ := field
      by_cases hkey : key = name
      · subst hkey
        have hplaced : Placed key value ([] ++ (key, old) :: rest) ([] ++ (key, value) :: rest) :=
          .inPlace (List.forall_mem_nil _)
        rw [put, if_pos (beq_self_eq_true key)]
        exact hplaced
      · rw [put_cons_of_ne (key, old) hkey]
        exact ih.cons hkey

theorem put_of_new {fields : List (String × Json)} (h : ∀ field ∈ fields, field.1 ≠ name) :
    put name value fields = fields ++ [(name, value)] :=
  (placed_iff.mp (.last h)).symm

-- Nothing changes if the name has the value already, and only then.
theorem put_eq_self_iff {fields : List (String × Json)} :
    put name value fields = fields ↔ fields.lookup name = some value := by
  induction fields with
  | nil => simp [put]
  | cons field rest ih =>
    obtain ⟨key, old⟩ := field
    by_cases hkey : key = name
    · subst hkey
      rw [put, if_pos (beq_self_eq_true key), List.lookup_cons_self]
      simp [eq_comm]
    · have hname : (name == key) = false := beq_eq_false_iff_ne.mpr (Ne.symm hkey)
      rw [put_cons_of_ne (key, old) hkey, List.cons.injEq, List.lookup_cons, hname, ← ih]
      simp

end Treeshake.Json
