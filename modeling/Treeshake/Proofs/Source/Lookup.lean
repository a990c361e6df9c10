import Treeshake.Proofs.Pattern.Embedding
import Treeshake.Proofs.Pattern.Path
import Treeshake.Proofs.Source.Extraction

namespace Treeshake.Source

open Library Pattern Pattern.Reader
open Barrel (Blanks)
open Import (IsName IsNameChar)

section Reading

variable {kind : NameKind} {names : String} {p q : Pattern}

theorem closes_patternBack : Closes (')' :: patternBack) := ⟨patternBack, rfl, by decide, by decide⟩

-- The pattern of the names is a part of the pattern for the declarations.
theorem ofText?_patternText (hq : ofText? names = some q)
    (hp : ofText? (Resolution.patternText kind names) = some p) :
    p = .seq (declarationParts kind q) := by
  obtain ⟨hq, -⟩ := Option.filter_eq_some_iff.mp hq
  obtain ⟨hp, -⟩ := Option.filter_eq_some_iff.mp hp
  have hread : Reads .initial (Resolution.patternText kind names).toList p := ⟨_, hp⟩
  rw [toList_patternText, (leads_front kind _).reads_iff] at hread
  have hopen : (⟨{}, [namesFrame kind], [], [], false, ["name", "local"]⟩ : State) =
      State.initial.within [namesFrame kind] ["name", "local"] := rfl
  rw [hopen] at hread
  obtain ⟨names', hbehind⟩ := Reads.within closes_patternBack ⟨_, hq⟩ hread
  obtain ⟨s, hback, hflags, hframes, hwhole⟩ := leads_back kind q names'
  obtain ⟨fuel, hdone⟩ := hback.reads_iff.mp hbehind
  cases fuel with
  | zero => simp [readFrom?] at hdone
  | succ fuel =>
    rw [readFrom?_nil hflags hframes, hwhole] at hdone
    exact (Option.some.inj hdone).symm

end Reading

section Matching

-- A text is a declaration of a kind that binds a local name and looks a name up.
def LooksUp (kind : NameKind) (text bound name : List Char) : Prop :=
  ∃ gap tail before after bang semicolon, Blanks gap ∧ gap ≠ [] ∧ IsName tail ∧
    bound = stem kind ++ tail ∧ Blanks before ∧ Blanks after ∧
    text = "const".toList ++ (gap ++ (bound ++ (before ++ '=' :: (after ++ (call kind ++ (name ++
      '"' :: ')' :: (marked '!' bang ++ marked ';' semicolon)))))))

theorem LooksUp.ne_nil {kind : NameKind} {text bound name : List Char}
    (h : LooksUp kind text bound name) : text ≠ [] := by
  obtain ⟨gap, tail, before, after, bang, semicolon, -, -, -, -, -, -, rfl⟩ := h
  intro h
  simp at h

variable {kind : NameKind} {q : Pattern}

-- No condition on a place tells a quotation mark from the end of a text.
theorem bounds_quote : Bounds '"' := by
  refine ⟨fun ascii => ?_, by decide, by decide⟩
  cases ascii <;> decide

-- What a pattern for the declarations matches is one whose name the pattern for the names holds for.
theorem looksUp_of_matchAt {place : Place} {m : Match}
    (h : matchAt (.seq (declarationParts kind q)) place = some m) :
    (∃ bound, LooksUp kind m.text bound (m.group "name")) ∧ m.text <+: place.ahead ∧
      q.isMatch (String.ofList (m.group "name")) = true := by
  obtain ⟨behind, text⟩ := place
  have hmatch : matchAt (.seq (declarationParts kind q)) ⟨behind, text⟩ =
      runAll (headParts kind) (runAll (tailParts q) (matched ⟨behind, text⟩)) ⟨behind, text⟩ [] := by
    rw [← runAll_append]
    simp only [matchAt, run]
    rfl
  rw [hmatch, runAll_head] at h
  obtain ⟨gap, tail, before, after, ahead, htext, hne, hgap, htail, hbefore, hafter, hgo⟩ := h
  -- the quotation mark is the last character in front of the name
  obtain ⟨front, hfront⟩ : ∃ front, ("const".toList ++ (gap ++ ((stem kind ++ tail) ++ (before ++
      '=' :: (after ++ call kind))))).reverse ++ behind = '"' :: front := by
    obtain ⟨opened, hcall⟩ : ∃ opened, call kind = opened ++ ['"'] := by
      rw [call_eq]
      exact ⟨function kind ++ ['('], by simp⟩
    refine ⟨(("const".toList ++ (gap ++ ((stem kind ++ tail) ++ (before ++
      '=' :: (after ++ opened))))).reverse ++ behind), ?_⟩
    simp [hcall]
  rw [hfront, tailParts, runAll, run] at hgo
  obtain ⟨⟨front', ahead⟩, captures, hpath, hgo⟩ := exists_path Match q _ _ _ _ hgo
  obtain ⟨name, hahead, hbehind⟩ := hpath.exists_taken
  simp only at hahead hbehind
  subst hahead hbehind
  simp only [between_append, runAll_append] at hgo
  obtain ⟨_, ahead, rfl, rfl, hgo⟩ := (takes_literal _ _ _ _ _ _).mp hgo
  obtain ⟨bang, semicolon, rest, rfl, -, -, hgo⟩ :=
    (runAll_marks (total_matched _) _ _ _ _).mp hgo
  simp only [matched, Option.some.injEq] at hgo
  have hname : m.group "name" = name := by
    rw [← hgo]
    rfl
  let whole := "const".toList ++ (gap ++ ((stem kind ++ tail) ++ (before ++ '=' :: (after ++
    (call kind ++ (name ++ '"' :: ')' :: (marked '!' bang ++ marked ';' semicolon)))))))
  have hsplit : text = whole ++ rest := by
    rw [htext]
    simp [whole]
  have hwhole : m.text = whole := by
    rw [← hgo, hsplit, between_append]
  have halone : Path q ⟨[].reverse, (String.ofList name).toList⟩ ⟨name.reverse, []⟩ := by
    rw [String.toList_ofList]
    exact hpath.alone bounds_quote bounds_quote rfl rfl
  rw [hname]
  exact ⟨⟨_, gap, tail, before, after, bang, semicolon, hgap, hne, htail, rfl, hbefore, hafter,
    hwhole⟩, ⟨rest, by rw [hwhole, hsplit]⟩, halone.isMatch⟩

end Matching

end Treeshake.Source
