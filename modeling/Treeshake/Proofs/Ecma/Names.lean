import Treeshake.Proofs.Ecma.Lexing
import Treeshake.Ecma.Tree

namespace Treeshake.Ecma

-- The name that a node stands for.
def Form.name? : Form → Option (String × Text.Span)
  | .use _ name span => some (name, span)
  | .shorthand name span => some (name, span)
  | .cover name span => some (name, span)
  | .write name span => some (name, span)
  | _ => none

mutual

def Tree.names : Tree → List (String × Text.Span)
  | .node form parts => form.name?.toList ++ Tree.namesAll parts

def Tree.namesAll : List Tree → List (String × Text.Span)
  | [] => []
  | tree :: rest => tree.names ++ Tree.namesAll rest

end

namespace Tree

@[simp]
theorem namesAll_nil : namesAll [] = [] := rfl

@[simp]
theorem namesAll_cons (tree : Tree) (rest : List Tree) :
    namesAll (tree :: rest) = tree.names ++ namesAll rest := rfl

@[simp]
theorem namesAll_append (front back : List Tree) :
    namesAll (front ++ back) = namesAll front ++ namesAll back := by
  induction front with
  | nil => rfl
  | cons tree front ih => rw [List.cons_append, namesAll_cons, ih, namesAll_cons, List.append_assoc]

@[simp]
theorem names_node (form : Form) (parts : List Tree) :
    (node form parts).names = form.name?.toList ++ namesAll parts := by
  rw [names]

theorem names_leaf (form : Form) : (leaf form).names = form.name?.toList := by
  rw [leaf, names_node, namesAll_nil, List.append_nil]

end Tree

section Laid

variable {source : List Char} {low mid high : Nat} {names more : List (String × Text.Span)}

-- Between two places of a source these names are spelled one behind the other.
def Laid (source : List Char) (low : Nat) : List (String × Text.Span) → Nat → Prop
  | [], high => low ≤ high
  | (name, span) :: rest, high =>
    low ≤ span.start ∧ Spelled source name span ∧ Laid source span.stop rest high

theorem Laid.le (h : Laid source low names high) : low ≤ high := by
  induction names generalizing low with
  | nil => exact h
  | cons entry rest ih =>
    obtain ⟨hlow, hspelled, hrest⟩ := h
    have hlt := hspelled.start_lt_stop
    have hle := ih hrest
    omega

theorem Laid.of_le_low {low' : Nat} (h : Laid source low names high) (hle : low' ≤ low) :
    Laid source low' names high := by
  cases names with
  | nil => exact Nat.le_trans hle h
  | cons entry rest => exact ⟨Nat.le_trans hle h.1, h.2⟩

theorem Laid.append (h : Laid source low names mid) (h' : Laid source mid more high) :
    Laid source low (names ++ more) high := by
  induction names generalizing low with
  | nil => exact h'.of_le_low h
  | cons entry rest ih => exact ⟨h.1, h.2.1, ih h.2.2⟩

theorem Laid.of_le_high (h : Laid source low names mid) (hle : mid ≤ high) :
    Laid source low names high := by
  have hback : Laid source mid [] high := hle
  simpa using h.append hback

theorem Laid.sublist (h : Laid source low names high) (hsub : more.Sublist names) :
    Laid source low more high := by
  induction hsub generalizing low with
  | slnil => exact h
  | @cons more names entry _ ih =>
    obtain ⟨hlow, hspelled, hrest⟩ := h
    exact (ih hrest).of_le_low (Nat.le_trans hlow (Nat.le_of_lt hspelled.start_lt_stop))
  | cons_cons entry _ ih => exact ⟨h.1, h.2.1, ih h.2.2⟩

theorem Laid.spelled (h : Laid source low names high) {name : String} {span : Text.Span}
    (hmem : (name, span) ∈ names) : Spelled source name span := by
  induction names generalizing low with
  | nil => cases hmem
  | cons entry rest ih =>
    rcases List.mem_cons.mp hmem with rfl | hrest
    · exact h.2.1
    · exact ih h.2.2 hrest

theorem Laid.le_start (h : Laid source low names high) {entry : String × Text.Span}
    (hmem : entry ∈ names) : low ≤ entry.2.start := by
  induction names generalizing low with
  | nil => cases hmem
  | cons first rest ih =>
    obtain ⟨hlow, hspelled, hrest⟩ := h
    rcases List.mem_cons.mp hmem with rfl | hrest'
    · exact hlow
    · have hlt := hspelled.start_lt_stop
      have hle := ih hrest hrest'
      omega

-- Names that are laid one behind the other have stretches that do not overlap.
theorem Laid.pairwise (h : Laid source low names high) :
    names.Pairwise fun a b => a.2.stop ≤ b.2.start := by
  induction names generalizing low with
  | nil => exact .nil
  | cons entry rest ih =>
    exact .cons (fun other hmem => h.2.2.le_start hmem) (ih h.2.2)

end Laid

end Treeshake.Ecma
