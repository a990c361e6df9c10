import Treeshake.Proofs.Source.BarrelKey

namespace Treeshake.Source.Barrel

variable {source : String} {components directives : List String}

theorem exists_firstKey {text : List Char} (h : HasKey text) :
    ∃ through behind, FirstKey text through behind := by
  obtain ⟨⟨through, behind⟩, hsplit⟩ :=
    Option.isSome_iff_exists.mp (splitAtComponents?_isSome_iff.mpr h)
  exact ⟨through, behind, splitAtComponents?_eq_some_iff.mp hsplit⟩

theorem expand_eq_expandedBefore_iff :
    expand source components directives = .expandedBefore ↔
      ∃ through behind, FirstKey source.toList through behind ∧ Expanded behind := by
  constructor
  · intro h
    have hkey : HasKey source.toList := by
      rw [hasKey_iff source components directives, h]
      exact Outcome.noConfusion
    obtain ⟨through, behind, hfirst⟩ := exists_firstKey hkey
    refine ⟨through, behind, hfirst, ?_⟩
    rw [expand, splitAtComponents?_eq_some_iff.mpr hfirst] at h
    by_contra hexpanded
    rw [← isExpanded_iff] at hexpanded
    simp [hexpanded] at h
  · rintro ⟨through, behind, hfirst, hexpanded⟩
    rw [expand, splitAtComponents?_eq_some_iff.mpr hfirst]
    simp only [isExpanded_iff.mpr hexpanded, if_true]

-- A text and what stands in its place once the lists are put into it: both are made of the same
-- pieces, and the lists stand between these.
inductive Inserted (components directives : List String) : List Char → List Char → Prop where
  -- no directives key comes next
  | once {through behind : List Char} (hfirst : FirstKey (through ++ behind) through behind)
      (hplain : ¬Expanded behind) (hnext : ∀ next rest, ¬NextKey behind next rest) :
      Inserted components directives (through ++ behind)
        (through ++ listing "components." components ++ behind)
  | twice {through next rest : List Char}
      (hfirst : FirstKey (through ++ (next ++ rest)) through (next ++ rest))
      (hplain : ¬Expanded (next ++ rest)) (hnext : NextKey (next ++ rest) next rest) :
      Inserted components directives (through ++ (next ++ rest))
        (through ++ listing "components." components ++ next ++ listing "directives." directives ++
          rest)

theorem inserted_iff {text result : List Char} :
    Inserted components directives text result ↔
      ∃ through behind tail, FirstKey text through behind ∧ ¬Expanded behind ∧
        WithDirectives directives behind tail ∧
        result = through ++ listing "components." components ++ tail := by
  constructor
  · intro h
    cases h with
    | once hfirst hplain hnext => exact ⟨_, _, _, hfirst, hplain, .plain hnext, rfl⟩
    | twice hfirst hplain hnext =>
      refine ⟨_, _, _, hfirst, hplain, .listed hnext, ?_⟩
      simp only [List.append_assoc]
  · rintro ⟨through, behind, tail, hfirst, hplain, htail, rfl⟩
    obtain rfl : text = through ++ behind := by
      obtain ⟨-, -, -, -, -, htext, -⟩ := hfirst
      exact htext
    cases htail with
    | plain hnext => exact .once hfirst hplain hnext
    | @listed next rest hnext =>
      obtain rfl : behind = next ++ rest := by
        obtain ⟨-, -, -, -, -, -, -, hbehind⟩ := hnext
        exact hbehind
      have htwice : Inserted components directives (through ++ (next ++ rest)) _ :=
        .twice hfirst hplain hnext
      rwa [List.append_assoc _ next, List.append_assoc _ _ rest] at htwice

-- Whether an expansion has anything to do is decided at the first components key, and all that it
-- does is to insert.
theorem expand_only_inserts (source : String) (components directives : List String) :
    (expand source components directives = .noKey ↔ ¬HasKey source.toList) ∧
    (expand source components directives = .expandedBefore ↔
      ∃ through behind, FirstKey source.toList through behind ∧ Expanded behind) ∧
    ∀ code, expand source components directives = .expanded code ↔
      Inserted components directives source.toList code.toList := by
  refine ⟨?_, expand_eq_expandedBefore_iff, fun code => ?_⟩
  · rw [hasKey_iff source components directives, not_not]
  · rw [expand_eq_expanded_iff, inserted_iff]
    simp only [String.ext_iff, String.toList_ofList]

end Treeshake.Source.Barrel
