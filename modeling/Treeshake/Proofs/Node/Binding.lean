import Treeshake.Node.Binding
import Treeshake.Proofs.Node.Shape

namespace Treeshake.Node

-- The specifiers of all imports of a module: declarations as the tree has them, then specifiers as
-- written.
def specifiersFrom (root : Json) (source : String) : List Json :=
  ((preorder root).filter fun node => isImport node && importSource? node == some source).flatMap
    specifiers

-- A specifier gives an export a local name. A default import gives only the very name of the
-- export.
inductive Gives (name : String) (specifier : Json) : String → Prop
  | named {localName : String} (htype : type? specifier = some "ImportSpecifier")
      (himported : importedName? specifier = some name)
      (hlocal : localName? specifier = some localName) : Gives name specifier localName
  | default (htype : type? specifier = some "ImportDefaultSpecifier")
      (hlocal : localName? specifier = some name) : Gives name specifier name

-- No import before gives the export a name.
def FirstAlias (root : Json) (source name localName : String) : Prop :=
  ∃ before specifier after, specifiersFrom root source = before ++ specifier :: after ∧
    Gives name specifier localName ∧ ∀ earlier ∈ before, ∀ other, ¬Gives name earlier other

theorem boundBy?_eq_some_iff {name localName : String} {specifier : Json} :
    boundBy? name specifier = some localName ↔ Gives name specifier localName := by
  constructor
  · intro h
    unfold boundBy? at h
    split at h
    · next htype =>
      obtain ⟨himported, hlocal⟩ := Option.ite_none_right_eq_some.mp h
      exact .named htype (beq_iff_eq.mp himported) hlocal
    · next htype =>
      obtain ⟨hname, hlocal⟩ := Option.ite_none_right_eq_some.mp h
      rw [beq_iff_eq, hlocal, Option.some.injEq] at hname
      exact hname ▸ .default htype hlocal
    · cases h
  · rintro (⟨htype, himported, hlocal⟩ | ⟨htype, hlocal⟩)
    · simp [boundBy?, htype, himported, hlocal]
    · simp [boundBy?, htype, hlocal]

theorem boundBy?_eq_none_iff {name : String} {specifier : Json} :
    boundBy? name specifier = none ↔ ∀ localName, ¬Gives name specifier localName := by
  simp only [Option.eq_none_iff_forall_ne_some, ne_eq, boundBy?_eq_some_iff]

theorem localNameOf?_eq_findSome? (root : Json) (source name : String) :
    localNameOf? root source name = (specifiersFrom root source).findSome? (boundBy? name) := by
  unfold localNameOf? specifiersFrom
  induction preorder root with
  | nil => rfl
  | cons node rest ih =>
    rw [List.findSome?_cons, List.filter_cons, ih]
    cases isImport node && importSource? node == some source with
    | true =>
      rw [if_pos rfl, if_pos rfl, List.flatMap_cons, List.findSome?_append]
      cases (specifiers node).findSome? (boundBy? name) <;> rfl
    | false => rfl

theorem localNameOf?_eq_some_iff {root : Json} {source name localName : String} :
    localNameOf? root source name = some localName ↔ FirstAlias root source name localName := by
  rw [localNameOf?_eq_findSome?, List.findSome?_eq_some_iff]
  simp only [boundBy?_eq_some_iff, boundBy?_eq_none_iff, FirstAlias]

-- If an import gives the export a name at all, then one is the first.
theorem exists_firstAlias_iff {root : Json} {source name : String} :
    (∃ first, FirstAlias root source name first) ↔
      ∃ specifier ∈ specifiersFrom root source, ∃ localName, Gives name specifier localName := by
  simp only [← localNameOf?_eq_some_iff, ← boundBy?_eq_some_iff, ← Option.isSome_iff_exists]
  rw [localNameOf?_eq_findSome?, List.findSome?_isSome_iff]

end Treeshake.Node
