import Treeshake.Pattern.Basic

namespace Treeshake.Pattern

variable {p : Pattern}

theorem searchFrom_skipped (behind skipped text : List Char) :
    searchFrom p behind skipped text =
      (searchFrom p behind [] text).map fun (before, m) => (skipped.reverse ++ before, m) := by
  induction text generalizing behind skipped with
  | nil => cases h : matchAt p ⟨behind, []⟩ <;> simp [searchFrom, h]
  | cons c text ih =>
    cases h : matchAt p ⟨behind, c :: text⟩ with
    | some m => simp [searchFrom, h]
    | none =>
      simp only [searchFrom, h]
      rw [ih (c :: behind) (c :: skipped), ih (c :: behind) [c], Option.map_map]
      simp [Function.comp_def]

theorem exists_matchAt_of_searchFrom {behind skipped text before : List Char} {m : Match}
    (h : searchFrom p behind skipped text = some (before, m)) :
    ∃ place, place.ahead <:+ text ∧ matchAt p place = some m := by
  induction text generalizing behind skipped with
  | nil =>
    obtain ⟨m', hm, heq⟩ := Option.map_eq_some_iff.mp h
    exact ⟨_, List.suffix_rfl, hm.trans (congrArg some (Prod.mk.inj heq).2)⟩
  | cons c text ih =>
    rw [searchFrom] at h
    split at h
    · next hm =>
      obtain ⟨-, rfl⟩ := Prod.mk.inj (Option.some.inj h)
      exact ⟨_, List.suffix_rfl, hm⟩
    · obtain ⟨place, hplace, hm⟩ := ih h
      exact ⟨place, hplace.trans (List.suffix_cons c text), hm⟩

-- A text without a match is one piece.
theorem pieces_of_unmatched {text : List Char}
    (h : ∀ place, place.ahead <:+ text → matchAt p place = none) : p.pieces text = ⟨[], text⟩ := by
  have hnone : searchFrom p [] [] text = none := by
    cases hsearch : searchFrom p [] [] text with
    | none => rfl
    | some found =>
      obtain ⟨place, hplace, hm⟩ := exists_matchAt_of_searchFrom hsearch
      rw [h place hplace] at hm
      cases hm
  rw [pieces, piecesFrom, hnone]

-- A pattern whose matches are not empty.
def Eats (p : Pattern) : Prop := ∀ place m, matchAt p place = some m → m.text ≠ []

theorem piecesFrom_succ (hp : Eats p) (afterMatch : Bool) (fuel : Nat) (place : Place) :
    piecesFrom p afterMatch (fuel + 1) place =
      match searchFrom p place.behind [] place.ahead with
      | none => ⟨[], place.ahead⟩
      | some (before, m) =>
        ⟨(before, m) :: (piecesFrom p true fuel m.stop).found, (piecesFrom p true fuel m.stop).tail⟩
      := by
  rw [piecesFrom]
  cases hsearch : searchFrom p place.behind [] place.ahead with
  | none => rfl
  | some found =>
    obtain ⟨before, m⟩ := found
    obtain ⟨place, -, hm⟩ := exists_matchAt_of_searchFrom hsearch
    simp [hp place m hm]

theorem exists_matchAt_of_mem_pieces (hp : Eats p) {text before : List Char} {m : Match}
    (h : (before, m) ∈ (p.pieces text).found) : ∃ place, matchAt p place = some m := by
  have hfrom (afterMatch : Bool) (fuel : Nat) (place : Place)
      (h : (before, m) ∈ (piecesFrom p afterMatch fuel place).found) :
      ∃ place, matchAt p place = some m := by
    induction fuel generalizing afterMatch place with
    | zero => cases h
    | succ fuel ih =>
      rw [piecesFrom_succ hp] at h
      split at h
      · cases h
      · next before' m' hsearch =>
        rcases List.mem_cons.mp h with heq | hmore
        · obtain ⟨rfl, rfl⟩ := Prod.mk.inj heq
          obtain ⟨place, -, hm⟩ := exists_matchAt_of_searchFrom hsearch
          exact ⟨place, hm⟩
        · exact ih true _ hmore
  exact hfrom _ _ _ h

-- The same pieces behind one more character.
def Pieces.skip (c : Char) (ps : Pieces) : Pieces :=
  match ps.found with
  | [] => ⟨[], c :: ps.tail⟩
  | (before, m) :: found => ⟨(c :: before, m) :: found, ps.tail⟩

-- A text with its matches replaced.
def Pieces.replaced (f : Match → List Char) (ps : Pieces) : List Char :=
  (ps.found.flatMap fun (before, m) => before ++ f m) ++ ps.tail

theorem Pieces.replaced_skip (f : Match → List Char) (c : Char) (ps : Pieces) :
    (ps.skip c).replaced f = c :: ps.replaced f := by
  obtain ⟨found, tail⟩ := ps
  cases found <;> rfl

theorem Pieces.found_skip (c : Char) (ps : Pieces) : (ps.skip c).found = [] ↔ ps.found = [] := by
  obtain ⟨found, tail⟩ := ps
  cases found <;> simp [Pieces.skip]

theorem piecesFrom_cons_of_none (hp : Eats p) {behind text : List Char} {c : Char}
    (h : matchAt p ⟨behind, c :: text⟩ = none) (afterMatch : Bool) (fuel : Nat) :
    piecesFrom p afterMatch (fuel + 1) ⟨behind, c :: text⟩ =
      (piecesFrom p afterMatch (fuel + 1) ⟨c :: behind, text⟩).skip c := by
  rw [piecesFrom_succ hp, piecesFrom_succ hp]
  simp only [searchFrom, h]
  rw [searchFrom_skipped]
  cases searchFrom p (c :: behind) [] text <;> simp [Pieces.skip]

theorem piecesFrom_nil_of_none (hp : Eats p) {behind : List Char}
    (h : matchAt p ⟨behind, []⟩ = none) (afterMatch : Bool) (fuel : Nat) :
    piecesFrom p afterMatch fuel ⟨behind, []⟩ = ⟨[], []⟩ := by
  cases fuel with
  | zero => rfl
  | succ fuel =>
    rw [piecesFrom_succ hp]
    simp [searchFrom, h]

theorem piecesFrom_of_some (hp : Eats p) {place : Place} {m : Match} (h : matchAt p place = some m)
    (afterMatch : Bool) (fuel : Nat) :
    piecesFrom p afterMatch (fuel + 1) place =
      ⟨([], m) :: (piecesFrom p true fuel m.stop).found, (piecesFrom p true fuel m.stop).tail⟩ := by
  rw [piecesFrom_succ hp]
  obtain ⟨behind, ahead⟩ := place
  cases ahead <;> simp [searchFrom, h]

end Treeshake.Pattern
