import Treeshake.Proofs.Ecma.Reference

namespace Treeshake.Ecma

inductive Standing where
  | read
  -- a target, or one in a pattern, in any parentheses
  | written
  -- a target inside casts, in any parentheses
  | cast
deriving DecidableEq, Repr

-- Whether the part at an index is the value that parentheses or a cast are put around.
def Form.wraps : Form → Nat → Bool
  | .group, _ => true
  | .cast, index => index == 0
  | .assertion, index => index == 1
  | _, _ => false

-- How the part at an index, of so many, stands in a node that stands so itself.
def Form.standing (s : Standing) (form : Form) (count index : Nat) : Standing :=
  if form.targets (s == .written) count index then .written
  else if s != .read && form.wraps index then .cast
  else .read

mutual

-- The names that a tree refers to, with how they stand.
def Tree.standings (s : Standing) (around : List Surrounding) :
    Tree → List (Reference × Standing)
  | .node form parts =>
    match form.reference? (s == .written) around with
    | some reference => [(reference, s)]
    | none => Tree.standingsAll (form.standing s parts.length) 0 (form.surround parts around) parts

def Tree.standingsAll (standing : Nat → Standing) (index : Nat) (around : List Surrounding) :
    List Tree → List (Reference × Standing)
  | [] => []
  | tree :: rest =>
    tree.standings (standing index) around ++ Tree.standingsAll standing (index + 1) around rest

end

theorem Form.standing_eq_written (s : Standing) (form : Form) (count index : Nat) :
    (form.standing s count index == .written) = form.targets (s == .written) count index := by
  unfold Form.standing
  cases form.targets (s == .written) count index with
  | true => rfl
  | false => cases s != .read && form.wraps index <;> rfl

theorem Form.written_of_reference? {form : Form} {written : Bool} {around : List Surrounding}
    {reference : Reference} (h : form.reference? written around = some reference) :
    reference.written = written := by
  cases form <;> cases h
  all_goals rfl

namespace Tree

theorem map_standings_all :
    (∀ (s : Standing) (around : List Surrounding) (tree : Tree),
      (tree.standings s around).map (·.1) = tree.references (s == .written) around) ∧
    ∀ (standing : Nat → Standing) (index : Nat) (around : List Surrounding) (parts : List Tree),
      (standingsAll standing index around parts).map (·.1) =
        referencesAll (standing · == .written) index around parts := by
  apply standings.mutual_induct
  case case1 =>
    intro s around form parts reference href
    rw [standings, references, href]
    rfl
  case case2 =>
    intro s around form parts href ih
    rw [standings, references, href, ih]
    simp only [Form.standing_eq_written]
  case case3 =>
    intro standing index around
    simp [standingsAll, referencesAll]
  case case4 =>
    intro standing index around tree rest ih ihrest
    rw [standingsAll, referencesAll, List.map_append, ih, ihrest]

-- Nothing that a script refers to is left out, and the order stays.
theorem map_standings (tree : Tree) :
    (tree.standings .read []).map (·.1) = tree.references false [] :=
  map_standings_all.1 .read [] tree

theorem written_of_mem_standings_all :
    (∀ (s : Standing) (around : List Surrounding) (tree : Tree),
      ∀ found ∈ tree.standings s around, found.1.written = (found.2 == .written)) ∧
    ∀ (standing : Nat → Standing) (index : Nat) (around : List Surrounding) (parts : List Tree),
      ∀ found ∈ standingsAll standing index around parts,
        found.1.written = (found.2 == .written) := by
  apply standings.mutual_induct
  case case1 =>
    intro s around form parts reference href found hmem
    rw [standings, href, List.mem_singleton] at hmem
    subst hmem
    exact Form.written_of_reference? href
  case case2 =>
    intro s around form parts href ih found hmem
    rw [standings, href] at hmem
    exact ih found hmem
  case case3 =>
    intro standing index around found hmem
    simp [standingsAll] at hmem
  case case4 =>
    intro standing index around tree rest ih ihrest found hmem
    rw [standingsAll] at hmem
    exact (List.mem_append.mp hmem).elim (ih found) (ihrest found)

-- A name is marked as written if it is assigned to outside of casts.
theorem written_of_mem_standings {tree : Tree} {r : Reference} {s : Standing}
    (h : (r, s) ∈ tree.standings .read []) : r.written = (s == .written) :=
  written_of_mem_standings_all.1 .read [] tree (r, s) h

theorem mem_references_of_mem_standings {tree : Tree} {r : Reference} {s : Standing}
    (h : (r, s) ∈ tree.standings .read []) : r ∈ tree.references false [] := by
  rw [← map_standings]
  exact List.mem_map_of_mem h

end Tree

end Treeshake.Ecma
