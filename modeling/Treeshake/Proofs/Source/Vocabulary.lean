import Treeshake.Proofs.Source.DeclarationPattern
import Treeshake.Proofs.Text.Erase

namespace Treeshake.Source

open Library Pattern Pattern.Reader

-- The names that the patterns of a library list, those of directives with their prefix.
structure Vocabulary where
  components : List (List Char)
  directives : List (List Char)
  components_ne : components ≠ []
  directives_ne : directives ≠ []
  components_chars : ∀ w ∈ components, ∀ c ∈ w, IsWordOrHyphen c
  directives_chars : ∀ w ∈ directives, ∀ c ∈ w, IsWordOrHyphen c

namespace Vocabulary

-- The names that templates look up: those of directives without the prefix, wherever it stands.
def names (v : Vocabulary) : NameKind → List (List Char)
  | .component => v.components
  | .directive => v.directives.map (Text.erase Convention.directivePrefix.toList)

structure Fits (v : Vocabulary) (texts : Patterns) : Prop where
  components : Alternation v.components texts.components.toList
  directives : Alternation v.directives texts.directives.toList

theorem names_ne (v : Vocabulary) (kind : NameKind) : v.names kind ≠ [] := by
  cases kind with
  | component => exact v.components_ne
  | directive => simpa [names] using v.directives_ne

theorem names_chars (v : Vocabulary) (kind : NameKind) :
    ∀ w ∈ v.names kind, ∀ c ∈ w, IsWordOrHyphen c := by
  cases kind with
  | component => exact v.components_chars
  | directive =>
    intro w hw c hc
    obtain ⟨full, hfull, rfl⟩ := List.mem_map.mp hw
    exact v.directives_chars full hfull c (Text.mem_of_mem_erase hc)

variable {v : Vocabulary} {texts : Patterns}

-- Erasing the prefix all over the pattern erases it in each name.
theorem alternation_erase {needle : List Char} (hne : needle ≠ [])
    (hforeign : ∀ c ∈ needle, c ∉ ['|', '(', ')', '?', ':']) {words : List (List Char)}
    {text : List Char} (h : Alternation words text) :
    Alternation (words.map (Text.erase needle)) (Text.erase needle text) := by
  have hmark {mark : Char} (hmem : mark ∈ ['|', '(', ')', '?', ':']) : mark ∉ needle :=
    fun h => hforeign mark h hmem
  have hbars : Text.erase needle (bars words) = bars (words.map (Text.erase needle)) :=
    Text.erase_intercalate hne (hmark (by simp)) words
  have hclose : Text.erase needle (bars words ++ [')']) =
      bars (words.map (Text.erase needle)) ++ [')'] := by
    rw [Text.erase_append_cons hne (hmark (by simp)), hbars]
    rfl
  cases h with
  | plain =>
    rw [hbars]
    exact .plain
  | grouped =>
    rw [List.cons_append, Text.erase_cons hne (hmark (by simp)), hclose]
    exact .grouped
  | bare =>
    have hopen : "(?:".toList = ['(', '?', ':'] := by decide
    rw [hopen, List.append_assoc, List.cons_append, List.cons_append, List.cons_append,
      List.nil_append, Text.erase_cons hne (hmark (by simp)),
      Text.erase_cons hne (hmark (by simp)), Text.erase_cons hne (hmark (by simp)), hclose]
    exact .bare

theorem Fits.alternation (h : v.Fits texts) (kind : NameKind) :
    Alternation (v.names kind) (Resolution.namesText texts kind).toList := by
  cases kind with
  | component => exact h.components
  | directive =>
    rw [Resolution.namesText, String.toList_ofList]
    exact alternation_erase (by decide) (by decide) h.directives

theorem Fits.exists_compileFor (h : v.Fits texts) (kind : NameKind) :
    ∃ p, Resolution.compileFor texts kind = .ok p ∧ Finds p (ofKind kind v.names) := by
  obtain ⟨p, hread, hfinds⟩ := exists_finds (h.alternation kind) (v.names_ne kind)
    (v.names_chars kind)
  refine ⟨p, ?_, hfinds⟩
  rw [Resolution.compileFor, Library.compile, hread]

end Vocabulary

-- The patterns of a rewrite find the declarations of the names, and nothing else.
structure Resolution.Serves (r : Resolution) (m : Manifest) (v : Vocabulary) : Prop where
  exports_eq : r.exports = m.convention.exports
  path_eq : r.path = m.internalPath
  components_finds : Finds r.components (ofKind .component v.names)
  directives_finds : Finds r.directives (ofKind .directive v.names)

theorem exists_serves {m : Manifest} {v : Vocabulary} (h : v.Fits m.convention.texts) :
    ∃ r, Resolution.ofManifest m = .ok r ∧ r.Serves m v := by
  obtain ⟨components, hcomponents, hc⟩ := h.exists_compileFor .component
  obtain ⟨directives, hdirectives, hd⟩ := h.exists_compileFor .directive
  refine ⟨⟨components, directives, m.convention.exports, m.internalPath⟩, ?_, rfl, rfl, hc, hd⟩
  rw [Resolution.ofManifest, hcomponents, hdirectives]
  rfl

end Treeshake.Source
