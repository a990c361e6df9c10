import Treeshake.Proofs.Node.Invocation
import Treeshake.Proofs.Text.Pieces
import Treeshake.Proofs.Usage.Contribution

namespace Treeshake

open Library Node

namespace Usage

-- A call leads to an export of a kind: it calls the local name of the function that looks the kind
-- up, with a name that stands for the export.
def Leads (m : Manifest) (tree : Json) (kind : NameKind) (call : Json) (name : String) : Prop :=
  ∃ localName, localNameOf? tree m.runtimeModule (m.resolver kind) = some localName ∧
    ∃ value, LooksUp localName call value ∧ m.convention.exportOf? kind value = some name

-- A call leads to some export, and thus counts.
def Counts (m : Manifest) (tree : Json) (kind : NameKind) (call : Json) : Prop :=
  ∃ name, Leads m tree kind call name

-- What is behind the last mark of an identifier. Loaders stand before it.
def OwnFile (identifier file : List Char) : Prop :=
  '!' ∉ file ∧ (identifier = file ∨ ∃ loaders, identifier = loaders ++ '!' :: file)

-- The file of a module itself lies where others' code is kept.
def Vendored (identifier : String) : Prop :=
  ∃ file, OwnFile identifier.toList file ∧ vendorMark.toList <:+: file

theorem isVendored_iff {identifier : String} :
    isVendored identifier = true ↔ Vendored identifier := by
  have hfile (file : List Char) :
      Text.afterLast '!' identifier.toList = file ↔ OwnFile identifier.toList file :=
    Text.afterLast_eq_iff
  simp only [Vendored, ← hfile, exists_eq_left', isVendored, Text.contains_iff_infix]

instance (identifier : String) : Decidable (Vendored identifier) :=
  decidable_of_iff _ isVendored_iff

-- The export that a call leads to.
def exportBehind? (m : Manifest) (tree : Json) (kind : NameKind) (call : Json) : Option String :=
  (localNameOf? tree m.runtimeModule (m.resolver kind)).bind fun localName =>
    if isCallTo localName call then
      (invocation? localName call).bind fun i => m.convention.exportOf? kind i.value
    else none

section Tree

variable {m : Manifest} {tree : Json} {kind : NameKind}

theorem exportBehind?_eq_some_iff {call : Json} {name : String} :
    exportBehind? m tree kind call = some name ↔ Leads m tree kind call name := by
  simp only [exportBehind?, Leads, Option.bind_eq_some_iff, Option.ite_none_right_eq_some,
    looksUp_iff]
  constructor
  · rintro ⟨localName, hlocal, hcall, i, hi, hexport⟩
    exact ⟨localName, hlocal, i.value, ⟨hcall, i, hi, rfl⟩, hexport⟩
  · rintro ⟨localName, hlocal, value, ⟨hcall, i, hi, rfl⟩, hexport⟩
    exact ⟨localName, hlocal, hcall, i, hi, hexport⟩

theorem counts_iff {call : Json} :
    (exportBehind? m tree kind call).isSome = true ↔ Counts m tree kind call := by
  simp only [Option.isSome_iff_exists, exportBehind?_eq_some_iff, Counts]

instance (call : Json) : Decidable (Counts m tree kind call) := decidable_of_iff _ counts_iff

-- The calls are looked at in the order of the tree, each of them once.
theorem references_eq (m : Manifest) (tree : Json) (kind : NameKind) :
    references m tree kind = (preorder tree).filterMap (exportBehind? m tree kind) := by
  unfold references exportBehind?
  cases localNameOf? tree m.runtimeModule (m.resolver kind) with
  | none => simp
  | some localName =>
    simp only [invocations, callsTo, findAll, List.filterMap_filterMap, List.filterMap_filter]
    refine List.filterMap_congr fun call _ => ?_
    by_cases hcall : isCallTo localName call = true <;> simp [hcall]

theorem mem_references_iff {name : String} :
    name ∈ references m tree kind ↔ ∃ call ∈ preorder tree, Leads m tree kind call name := by
  simp only [references_eq, List.mem_filterMap, exportBehind?_eq_some_iff]

theorem length_references (m : Manifest) (tree : Json) (kind : NameKind) :
    (references m tree kind).length =
      ((preorder tree).filter (Counts m tree kind ·)).length := by
  have hcounts (call : Json) :
      (exportBehind? m tree kind call).isSome = decide (Counts m tree kind call) := by
    rw [Bool.eq_iff_iff, counts_iff, decide_eq_true_eq]
  rw [references_eq, List.length_filterMap_eq_countP, List.countP_eq_length_filter]
  simp only [hcounts]

-- A scan that counts nothing has nothing to add.
theorem scanTree_of_count_eq_zero {r : Record} (h : (scanTree m tree r).1 = 0) :
    (scanTree m tree r).2 = r := by
  simp only [scanTree, Nat.add_eq_zero_iff, List.length_eq_zero_iff] at h ⊢
  obtain ⟨hcomponents, hdirectives⟩ := h
  rw [hcomponents, hdirectives]
  rfl

end Tree

theorem scan_eq_scanTree (m : Manifest) (identifier : String) (tree : Json) (r : Record) :
    ((scan m ⟨identifier, some tree⟩ r).count, (scan m ⟨identifier, some tree⟩ r).record) =
      if Vendored identifier then (0, r) else scanTree m tree r := by
  by_cases hvendored : Vendored identifier
  · simp [scan, isVendored_iff.mpr hvendored, hvendored]
  · simp [scan, mt isVendored_iff.mp hvendored, hvendored]

-- A scan counts every call in a tree that leads to an export, however often it is repeated, and
-- the record gains the exports that such calls lead to. The module of a tree has a say only in
-- whether it is scanned at all.
theorem scanTree_tallies_calls (m : Manifest) (tree : Json) (r : Record) :
    (scanTree m tree r).1 =
      ((preorder tree).filter (Counts m tree .component ·)).length +
        ((preorder tree).filter (Counts m tree .directive ·)).length ∧
    (∀ kind name, name ∈ ((scanTree m tree r).2.of kind).names ↔
      name ∈ (r.of kind).names ∨ ∃ call ∈ preorder tree, Leads m tree kind call name) ∧
    ((scanTree m tree r).1 = 0 → (scanTree m tree r).2 = r) ∧
    ∀ identifier,
      ((scan m ⟨identifier, some tree⟩ r).count, (scan m ⟨identifier, some tree⟩ r).record) =
        (if Vendored identifier then (0, r) else scanTree m tree r) ∧
      ((scan m ⟨identifier, none⟩ r).count, (scan m ⟨identifier, none⟩ r).record) = (0, r) := by
  refine ⟨?_, fun kind name => ?_, scanTree_of_count_eq_zero, fun identifier => ?_⟩
  · rw [← length_references, ← length_references]
    rfl
  · rw [mem_scanTree, mem_references_iff]
  · exact ⟨scan_eq_scanTree m identifier tree r, rfl⟩

-- A name without an export behind it is not counted.
theorem scanTree_tallies_calls_unknown_name :
    let tree := program [importAs "vue" "resolveComponent" "rc", call "rc" "div"]
    (scanTree .small tree .empty).1 = 0 ∧ (scanTree .small tree .empty).2 = .empty := by
  intro tree
  have hcount : (scanTree .small tree .empty).1 = 0 := by decide +kernel
  obtain ⟨-, -, hsame, -⟩ := scanTree_tallies_calls .small tree .empty
  exact ⟨hcount, hsame hcount⟩

end Usage

end Treeshake
