import Treeshake.Proofs.Source.BarrelInsertion

namespace Treeshake.Source.Barrel

-- The first character that is no blank.
def nextMark (text : List Char) : Option Char := text.find? fun c => !Unicode.isBlank c

-- What stands behind a key that is a whole property.
def Shorthand (behind : List Char) : Prop :=
  nextMark behind = some ',' ∨ nextMark behind = some '\x7d'

-- What stands behind a key that is neither a whole property nor one with a value of its own. A
-- comment is text like any other.
def Misread (behind : List Char) : Prop := ¬Shorthand behind ∧ nextMark behind ≠ some ':'

instance (behind : List Char) : Decidable (Shorthand behind) := inferInstanceAs (Decidable (_ ∨ _))

instance (behind : List Char) : Decidable (Misread behind) := inferInstanceAs (Decidable (_ ∧ _))

theorem nextMark_eq_some_iff {text : List Char} {c : Char} :
    nextMark text = some c ↔ Unicode.isBlank c = false ∧
      ∃ blanks rest, Blanks blanks ∧ text = blanks ++ c :: rest := by
  rw [nextMark, List.find?_eq_some_iff_append]
  simp only [Bool.not_not, Bool.not_eq_true', Blanks]
  constructor
  · rintro ⟨hc, blanks, rest, rfl, hblanks⟩
    exact ⟨hc, blanks, rest, hblanks, rfl⟩
  · rintro ⟨hc, blanks, rest, hblanks, rfl⟩
    exact ⟨hc, blanks, rest, rfl, hblanks⟩

theorem expanded_iff_nextMark {behind : List Char} :
    Expanded behind ↔ nextMark behind = some ':' := by
  have hmark : Unicode.isBlank ':' = false := by decide
  rw [nextMark_eq_some_iff, Expanded]
  exact (and_iff_right hmark).symm

theorem not_expanded_iff {behind : List Char} :
    ¬Expanded behind ↔ Shorthand behind ∨ Misread behind := by
  rw [expanded_iff_nextMark]
  constructor
  · intro hplain
    by_cases hshort : Shorthand behind
    · exact .inl hshort
    · exact .inr ⟨hshort, hplain⟩
  · rintro ((hcomma | hbrace) | hmisread)
    · simp [hcomma]
    · simp [hbrace]
    · exact hmisread.2

variable {source : String} {components directives : List String}

-- Whatever is listed, the text behind the first key tells whether there is an expansion.
theorem exists_expanded_iff :
    (∃ code, expand source components directives = .expanded code) ↔
      ∃ through behind, FirstKey source.toList through behind ∧ ¬Expanded behind := by
  constructor
  · rintro ⟨code, hcode⟩
    obtain ⟨through, behind, tail, hfirst, hplain, -, -⟩ := expand_eq_expanded_iff.mp hcode
    exact ⟨through, behind, hfirst, hplain⟩
  · rintro ⟨through, behind, hfirst, hplain⟩
    exact ⟨_, expand_eq_expanded_iff.mpr
      ⟨through, behind, _, hfirst, hplain, withDirectives_iff.mpr rfl, rfl⟩⟩

-- The members are listed behind a first key that is a shorthand or is misread for one, and so it
-- is with the directives key that comes next. Hence they are listed behind shorthands only if
-- and only if none of the two keys is misread.
theorem expand_shorthands_iff (source : String) (components directives : List String) :
    ((∃ code, expand source components directives = .expanded code) ↔
      ∃ through behind, FirstKey source.toList through behind ∧
        (Shorthand behind ∨ Misread behind)) ∧
    ((∀ code, expand source components directives = .expanded code →
        ∀ through behind, FirstKey source.toList through behind →
          Shorthand behind ∧ ∀ next rest, NextKey behind next rest → Shorthand rest) ↔
      ∀ through behind, FirstKey source.toList through behind →
        ¬Misread behind ∧
          (Shorthand behind → ∀ next rest, NextKey behind next rest → ¬Misread rest)) := by
  simp only [exists_expanded_iff, not_expanded_iff, true_and]
  have hexpanded {through behind : List Char} (hfirst : FirstKey source.toList through behind)
      (hplain : Shorthand behind ∨ Misread behind) :
      ∃ code, expand source components directives = .expanded code :=
    exists_expanded_iff.mpr ⟨through, behind, hfirst, not_expanded_iff.mpr hplain⟩
  constructor
  · intro hpromise through behind hfirst
    constructor
    · intro hmisread
      obtain ⟨code, hcode⟩ := hexpanded hfirst (.inr hmisread)
      exact hmisread.1 (hpromise code hcode through behind hfirst).1
    · intro hshort next rest hnext hmisread
      obtain ⟨code, hcode⟩ := hexpanded hfirst (.inl hshort)
      exact hmisread.1 ((hpromise code hcode through behind hfirst).2 next rest hnext)
  · intro hread code hcode through behind hfirst
    obtain ⟨through', behind', hfirst', hplain⟩ := exists_expanded_iff.mp ⟨code, hcode⟩
    obtain ⟨rfl, rfl⟩ := hfirst.unique hfirst'
    obtain ⟨hnot, hnext⟩ := hread through behind hfirst
    have hshort : Shorthand behind := (not_expanded_iff.mp hplain).resolve_right hnot
    refine ⟨hshort, fun next rest hkey => ?_⟩
    have hown : ¬Expanded rest := by
      obtain ⟨-, -, -, -, -, hown, -⟩ := hkey
      exact hown
    exact (not_expanded_iff.mp hown).resolve_right (hnext hshort next rest hkey)

-- The first key of a text may be the start of another name.
theorem longer_name_expanded :
    ¬∀ (source : String) (components directives : List String) (code : String),
      expand source components directives = .expanded code →
        ∀ through behind, FirstKey source.toList through behind → Shorthand behind := by
  intro h
  have hcode : expand "f(\x7b components$ \x7d)" ["QBtn"] [] =
      .expanded "f(\x7b components: [components.QBtn]$ \x7d)" := by decide +kernel
  have hsplit : splitAtComponents? "f(\x7b components$ \x7d)".toList =
      some ("f(\x7b components".toList, "$ \x7d)".toList) := by decide +kernel
  have hshort := h _ _ _ _ hcode _ _ (splitAtComponents?_eq_some_iff.mp hsplit)
  revert hshort
  decide +kernel

end Treeshake.Source.Barrel
