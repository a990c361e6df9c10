import Treeshake.Proofs.Node.Binding
import Treeshake.Proofs.Usage.Tally

namespace Treeshake

open Library Node

namespace Usage

variable {m : Manifest} {tree : Json} {kind : NameKind} {name : String}

-- A call in the tree goes by the first local name of the factory and leads to the export.
theorem mem_references : name ∈ references m tree kind ↔
    ∃ localName, FirstAlias tree m.runtimeModule (m.resolver kind) localName ∧
      ∃ call ∈ preorder tree, ∃ value, LooksUp localName call value ∧
        m.convention.exportOf? kind value = some name := by
  simp only [mem_references_iff, Leads, ← localNameOf?_eq_some_iff]
  constructor
  · rintro ⟨call, hcall, localName, hlocal, hlooks⟩
    exact ⟨localName, hlocal, call, hcall, hlooks⟩
  · rintro ⟨localName, hlocal, call, hcall, hlooks⟩
    exact ⟨call, hcall, localName, hlocal, hlooks⟩

-- A record gains what is looked up under the first local name of each factory, all of it, and
-- nothing that only another local name looks up.
theorem scanTree_follows_first_alias (m : Manifest) (tree : Json) (r : Record) (kind : NameKind) :
    (∀ b ∈ bindings tree, b.source = m.runtimeModule → b.importedName = m.resolver kind →
      FirstAlias tree m.runtimeModule (m.resolver kind) b.localName →
      ∀ call ∈ preorder tree, ∀ value, LooksUp b.localName call value →
        ∀ name, m.convention.exportOf? kind value = some name →
          name ∈ ((scanTree m tree r).2.of kind).names) ∧
    (∀ name, name ∈ ((scanTree m tree r).2.of kind).names ↔
      name ∈ (r.of kind).names ∨
        ∃ localName, FirstAlias tree m.runtimeModule (m.resolver kind) localName ∧
          ∃ call ∈ preorder tree, ∃ value, LooksUp localName call value ∧
            m.convention.exportOf? kind value = some name) ∧
    ((∃ first, FirstAlias tree m.runtimeModule (m.resolver kind) first) ↔
      ∃ specifier ∈ specifiersFrom tree m.runtimeModule, ∃ localName,
        Gives (m.resolver kind) specifier localName) := by
  have hmem (name : String) : name ∈ ((scanTree m tree r).2.of kind).names ↔
      name ∈ (r.of kind).names ∨
        ∃ localName, FirstAlias tree m.runtimeModule (m.resolver kind) localName ∧
          ∃ call ∈ preorder tree, ∃ value, LooksUp localName call value ∧
            m.convention.exportOf? kind value = some name := by
    rw [mem_scanTree, mem_references]
  refine ⟨?_, hmem, exists_firstAlias_iff⟩
  intro b _ _ _ hfirst call hcall value hlooks name hexport
  exact (hmem name).mpr (.inr ⟨b.localName, hfirst, call, hcall, value, hlooks, hexport⟩)

-- A module that imports one factory twice.
def twoAliases : Json :=
  program [importAs "vue" "resolveComponent" "rc", importAs "vue" "resolveComponent" "_rc",
    call "rc" "q-btn", call "_rc" "q-card"]

theorem looksUp_call (callee argument : String) :
    LooksUp callee (call callee argument) (withoutQuotes argument) := by
  refine ⟨rfl, ⟨_, rfl, rfl, rfl⟩, ⟨_, _, rfl, rfl, ?_⟩⟩
  rw [← withoutQuotes_quoted]
  exact .raw rfl rfl

theorem scanTree_follows_first_alias_twoAliases :
    ⟨"rc", "resolveComponent", "vue"⟩ ∈ bindings twoAliases ∧
    FirstAlias twoAliases Manifest.small.runtimeModule (Manifest.small.resolver .component) "rc" ∧
    call "rc" "q-btn" ∈ preorder twoAliases ∧
    LooksUp "rc" (call "rc" "q-btn") (withoutQuotes "q-btn") ∧
    Manifest.small.convention.exportOf? .component (withoutQuotes "q-btn") = some "QBtn" ∧
    "QBtn" ∈ ((scanTree .small twoAliases .empty).2.of .component).names := by
  have hbinding : ⟨"rc", "resolveComponent", "vue"⟩ ∈ bindings twoAliases := by decide +kernel
  have hfirst : FirstAlias twoAliases Manifest.small.runtimeModule
      (Manifest.small.resolver .component) "rc" :=
    localNameOf?_eq_some_iff.mp (by decide +kernel)
  have hcall : call "rc" "q-btn" ∈ preorder twoAliases := List.mem_of_getElem? (i := 11) rfl
  have hexport : Manifest.small.convention.exportOf? .component (withoutQuotes "q-btn") =
      some "QBtn" := by decide +kernel
  refine ⟨hbinding, hfirst, hcall, looksUp_call "rc" "q-btn", hexport, ?_⟩
  exact (scanTree_follows_first_alias .small twoAliases .empty .component).1 _ hbinding rfl rfl
    hfirst _ hcall _ (looksUp_call "rc" "q-btn") _ hexport

-- The second name is a binding of the factory too, and what it looks up is not recorded.
theorem second_alias_is_missed :
    ¬∀ b ∈ bindings twoAliases, b.source = Manifest.small.runtimeModule →
      b.importedName = Manifest.small.resolver .component →
      ∀ call ∈ preorder twoAliases, ∀ value, LooksUp b.localName call value →
        ∀ name, Manifest.small.convention.exportOf? .component value = some name →
          name ∈ ((scanTree .small twoAliases .empty).2.of .component).names := by
  intro h
  have hcall : call "_rc" "q-card" ∈ preorder twoAliases := List.mem_of_getElem? (i := 14) rfl
  have hlisted := h ⟨"_rc", "resolveComponent", "vue"⟩ (by decide +kernel) rfl rfl _ hcall _
    (looksUp_call "_rc" "q-card") "QCard" (by decide +kernel)
  exact absurd hlisted (by decide +kernel)

end Usage

end Treeshake
