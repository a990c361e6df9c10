import Treeshake.Proofs.Source.BarrelKey

namespace Treeshake.Source.Barrel

-- The mark stands at the front of a key only, so no key begins inside of another one.
theorem mark_not_mem_of_isKey {c : Char} {rest : List Char}
    (hkey : IsKey '\x7b' componentsKey.toList (c :: rest)) : '\x7b' ∉ rest := by
  obtain ⟨blanks, hblanks, heq⟩ := hkey
  obtain ⟨-, rfl⟩ := List.cons.inj heq
  intro hmem
  rcases List.mem_append.mp hmem with hblank | hword
  · have hmark := hblanks _ hblank
    revert hmark
    decide
  · revert hword
    decide

theorem prefix_of_keys_meet {gap key key' tail behind' : List Char} (hgap : gap ≠ [])
    (hkey : IsKey '\x7b' componentsKey.toList key) (hkey' : IsKey '\x7b' componentsKey.toList key')
    (hmeet : gap ++ (key ++ tail) = key' ++ behind') : key' <+: gap := by
  rcases List.append_eq_append_iff.mp hmeet with ⟨more, rfl, hrest⟩ | ⟨more, rfl, -⟩
  · cases more with
    | nil => simp
    | cons d more =>
      obtain ⟨blanks, -, rfl⟩ := hkey
      obtain ⟨rfl, -⟩ := List.cons.inj hrest
      cases gap with
      | nil => exact absurd rfl hgap
      | cons c gap =>
        have hmem := mark_not_mem_of_isKey hkey'
        simp at hmem
  · exact List.prefix_append _ _

-- What stands behind the first key may change, as long as the word still ends there.
theorem FirstKey.change_behind {text through behind tail : List Char}
    (h : FirstKey text through behind) (htail : EndsWord tail) :
    FirstKey (through ++ tail) through tail := by
  obtain ⟨front, key, hkey, -, rfl, rfl, hleast⟩ := h
  refine ⟨front, key, hkey, htail, rfl, rfl, ?_⟩
  intro front' rest behind' hsplit hstart
  by_contra hlt
  obtain ⟨key', hkey', rfl, hend'⟩ := hstart
  -- a key further in front lies in the text that has stayed
  obtain ⟨gap, rfl⟩ : ∃ gap, front = front' ++ gap := by
    have hstart : front' <+: front ++ key ++ tail := hsplit ▸ List.prefix_append _ _
    have hfront : front <+: front ++ key ++ tail := by simp
    obtain ⟨gap, hgap⟩ := List.prefix_of_prefix_length_le hstart hfront (by omega)
    exact ⟨gap, hgap.symm⟩
  have hgap : gap ≠ [] := by
    rintro rfl
    simp at hlt
  have hmeet : gap ++ (key ++ tail) = key' ++ behind' := by simpa using hsplit
  obtain ⟨more, rfl⟩ := prefix_of_keys_meet hgap hkey hkey' hmeet
  have hbehind' : behind' = more ++ (key ++ tail) := by simpa using hmeet.symm
  have hend : EndsWord (more ++ (key ++ behind)) := by
    obtain ⟨blanks, -, rfl⟩ := hkey
    cases more <;> simpa [EndsWord, hbehind'] using hend'
  have hle := hleast front' (key' ++ (more ++ (key ++ behind))) (more ++ (key ++ behind))
    (by simp) ⟨key', hkey', rfl, hend⟩
  omega

theorem listing_eq_cons (front : String) (names : List String) :
    ∃ rest, listing front names = ':' :: rest := by
  rw [listing, String.append_assoc, String.toList_append]
  exact ⟨_, rfl⟩

-- Whatever is listed, and wherever the key stands, a text that has been expanded is not expanded
-- again.
theorem expand_expanded (source text : String) (components directives : List String)
    (h : expand source components directives = .expanded text)
    (components' directives' : List String) :
    expand text components' directives' = .expandedBefore := by
  obtain ⟨through, behind, tail, hkey, -, -, rfl⟩ := expand_eq_expanded_iff.mp h
  obtain ⟨rest, hlist⟩ := listing_eq_cons "components." components
  have hend : EndsWord (listing "components." components ++ tail) := by
    rw [hlist]
    simp only [EndsWord, List.cons_append, List.head?_cons, Option.mem_some_iff, forall_eq']
    decide
  have hexpanded : isExpanded (listing "components." components ++ tail) = true := by
    rw [isExpanded_iff, hlist]
    exact ⟨[], rest ++ tail, by simp [Blanks], by simp⟩
  have hsplit := splitAtComponents?_eq_some_iff.mpr (hkey.change_behind hend)
  rw [expand, String.toList_ofList, List.append_assoc, hsplit]
  simp only [hexpanded, if_true]

-- A key behind a brace that opens none.
def nestedBarrel : String := "install(\x7b\x7b components, directives \x7d\x7d)"

def nestedText : String :=
  "install(\x7b\x7b components: [components.a \x7b components], directives: [directives.b] \x7d\x7d)"

-- A name that is listed may look like a key.
theorem expand_expanded_nested :
    expand nestedBarrel ["a \x7b components"] ["b"] = .expanded nestedText ∧
      expand nestedText [] ["c"] = .expandedBefore := by
  have h : expand nestedBarrel ["a \x7b components"] ["b"] = .expanded nestedText := by
    decide +kernel
  exact ⟨h, expand_expanded _ _ _ _ h [] ["c"]⟩

end Treeshake.Source.Barrel
