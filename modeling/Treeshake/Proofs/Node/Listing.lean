import Mathlib.Data.List.Basic
import Treeshake.Proofs.Node.Binding
import Treeshake.Proofs.Usage.Contribution

namespace Treeshake.Node

-- A binding is listed for an export of a module: under its name or, by a default import, under a
-- local name that is the same.
def Binding.Names (b : Binding) (source name : String) : Prop :=
  b.source = source ∧ (b.importedName = name ∨ b.importedName = "default" ∧ b.localName = name)

instance (b : Binding) (source name : String) : Decidable (b.Names source name) :=
  inferInstanceAs (Decidable (_ ∧ _))

-- A specifier that imports by name says which, and says so of no default export.
def Named (specifier : Json) : Prop :=
  type? specifier = some "ImportSpecifier" →
    ∃ imported, importedName? specifier = some imported ∧ imported ≠ "default"

instance (specifier : Json) : Decidable (Named specifier) :=
  decidable_of_iff (type? specifier = some "ImportSpecifier" →
    (importedName? specifier).any (· ≠ "default") = true) (by simp [Named, Option.any_eq_true])

-- All specifiers of the imports in a tree.
def NamedImports (root : Json) : Prop :=
  ∀ declaration ∈ preorder root, isImport declaration = true →
    ∀ specifier ∈ specifiers declaration, Named specifier

instance (root : Json) : Decidable (NamedImports root) :=
  inferInstanceAs (Decidable (∀ declaration ∈ preorder root, isImport declaration = true →
    ∀ specifier ∈ specifiers declaration, Named specifier))

section Specifier

variable {source name : String} {specifier : Json}

theorem source_of_binding? {b : Binding} (h : binding? source specifier = some b) :
    b.source = source := by
  obtain ⟨localName, -, h⟩ := Option.bind_eq_some_iff.mp h
  split at h
  · exact Option.some.inj h ▸ rfl
  · exact Option.some.inj h ▸ rfl
  · exact Option.some.inj h ▸ rfl
  · cases h

-- A specifier gives the export a local name just if its binding is listed for the export.
theorem boundBy?_eq_binding? (hnamed : Named specifier) (hdefault : name ≠ "default")
    (hall : name ≠ "*") :
    boundBy? name specifier =
      ((binding? source specifier).filter (·.Names source name)).map (·.localName) := by
  unfold boundBy? binding?
  cases hlocal : localName? specifier with
  | none => split <;> simp
  | some localName =>
    have hdefault' : "default" ≠ name := hdefault.symm
    have hall' : "*" ≠ name := hall.symm
    split
    · next htype =>
      obtain ⟨imported, himported, hother⟩ := hnamed htype
      by_cases hname : imported = name
      · simp [htype, himported, Option.filter, Binding.Names, hname]
      · simp [htype, himported, Option.filter, Binding.Names, hname, hother]
    · next htype =>
      by_cases hname : localName = name
      · simp [htype, Option.filter, Binding.Names, hname]
      · simp [htype, Option.filter, Binding.Names, hname, hdefault']
    · next hspecifier hdefaultSpecifier =>
      by_cases htype : type? specifier = some "ImportNamespaceSpecifier"
      · simp [htype, Option.filter, Binding.Names, hall']
      · split <;> simp_all

end Specifier

-- The local names that specifiers give to the export are those of its bindings, one by one.
theorem filterMap_specifiers {declaration : Json} {source name : String}
    (hnamed : ∀ specifier ∈ specifiers declaration, Named specifier) (hdefault : name ≠ "default")
    (hall : name ≠ "*") :
    (specifiers declaration).filterMap (boundBy? name) =
      (((specifiers declaration).filterMap (binding? source)).filter
        (·.Names source name)).map (·.localName) := by
  rw [List.filter_filterMap, List.map_filterMap]
  refine List.filterMap_congr fun specifier hmem => ?_
  exact boundBy?_eq_binding? (hnamed specifier hmem) hdefault hall

theorem filter_bindings_of_ne {declaration : Json} {source other name : String}
    (hne : other ≠ source) :
    ((specifiers declaration).filterMap (binding? other)).filter (·.Names source name) = [] := by
  rw [List.filter_eq_nil_iff]
  intro b hb
  obtain ⟨specifier, -, hbinding⟩ := List.mem_filterMap.mp hb
  have hsource := source_of_binding? hbinding
  simp [Binding.Names, hsource, hne]

theorem filterMap_specifiersFrom {root : Json} {source name : String} (hnamed : NamedImports root)
    (hdefault : name ≠ "default") (hall : name ≠ "*") :
    (specifiersFrom root source).filterMap (boundBy? name) =
      ((bindings root).filter (·.Names source name)).map (·.localName) := by
  have hfrom : specifiersFrom root source =
      ((findAll root isImport).filter (importSource? · == some source)).flatMap specifiers := by
    simp [specifiersFrom, findAll, List.filter_filter, Bool.and_comm]
  have hdeclared : ∀ declaration ∈ findAll root isImport,
      ∀ specifier ∈ specifiers declaration, Named specifier := by
    intro declaration hmem
    obtain ⟨hnode, himport⟩ := List.mem_filter.mp hmem
    exact hnamed declaration hnode himport
  rw [hfrom, bindings]
  generalize findAll root isImport = declarations at hdeclared ⊢
  induction declarations with
  | nil => rfl
  | cons declaration rest ih =>
    rw [List.forall_mem_cons] at hdeclared
    obtain ⟨hhere, hrest⟩ := hdeclared
    rw [List.flatMap_cons, List.filter_append, List.map_append, ← ih hrest, List.filter_cons]
    cases hsource : importSource? declaration with
    | none => simp
    | some other =>
      by_cases hsame : other = source
      · subst hsame
        simpa using filterMap_specifiers hhere hdefault hall
      · simp [hsame, filter_bindings_of_ne hsame]

-- The search ends with the first specifier that gives the export a local name. Where imports by
-- name say which name they import, this is the first binding in the list for the export.
theorem localNameOf?_agrees_with_bindings (root : Json) (source name : String) :
    (∀ localName, localNameOf? root source name = some localName ↔
      FirstAlias root source name localName) ∧
    (localNameOf? root source name = none ↔
      ∀ specifier ∈ specifiersFrom root source, ∀ localName, ¬Gives name specifier localName) ∧
    (NamedImports root → name ≠ "default" → name ≠ "*" →
      localNameOf? root source name =
        ((bindings root).find? (·.Names source name)).map (·.localName)) := by
  refine ⟨fun localName => localNameOf?_eq_some_iff, ?_, fun hnamed hdefault hall => ?_⟩
  · rw [localNameOf?_eq_findSome?, List.findSome?_eq_none_iff]
    simp only [boundBy?_eq_none_iff]
  · rw [localNameOf?_eq_findSome?, ← List.head?_filterMap,
      filterMap_specifiersFrom hnamed hdefault hall, List.head?_map, List.head?_filter]

theorem localNameOf?_agrees_with_bindings_twoImports :
    let root := program [importAs "vue" "h" "h", importAs "vue" "resolveComponent" "rc"]
    NamedImports root ∧ "resolveComponent" ≠ "default" ∧ "resolveComponent" ≠ "*" ∧
    localNameOf? root "vue" "resolveComponent" =
      ((bindings root).find? (·.Names "vue" "resolveComponent")).map (·.localName) := by
  intro root
  have hnamed : NamedImports root := by decide +kernel
  have hdefault : "resolveComponent" ≠ "default" := by decide
  have hall : "resolveComponent" ≠ "*" := by decide
  obtain ⟨-, -, hlisted⟩ := localNameOf?_agrees_with_bindings root "vue" "resolveComponent"
  exact ⟨hnamed, hdefault, hall, hlisted hnamed hdefault hall⟩

end Treeshake.Node
