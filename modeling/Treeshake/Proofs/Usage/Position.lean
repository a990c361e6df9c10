import Treeshake.Proofs.Node.Position
import Treeshake.Proofs.Usage.Tally

namespace Treeshake

open Library Node

namespace Usage

section Unplaced

variable {tree : Json} (m : Manifest)

theorem exportBehind?_unplaced (h : PlainPositions tree) (kind : NameKind) (call : Json) :
    exportBehind? m (unplaced tree) kind (unplaced call) = exportBehind? m tree kind call := by
  have hexport (name : String) (call : Json) :
      ((invocation? name call).bind fun i => m.convention.exportOf? kind i.value) =
        ((invocation? name call).map Invocation.value).bind (m.convention.exportOf? kind) := by
    rw [Option.bind_map]
    rfl
  unfold exportBehind?
  rw [localNameOf?_unplaced h]
  simp only [isCallTo_unplaced, hexport, invocation?_unplaced]

theorem references_unplaced (h : PlainPositions tree) (kind : NameKind) :
    references m (unplaced tree) kind = references m tree kind := by
  rw [references_eq, references_eq, preorder_unplaced h, List.filterMap_map]
  exact List.filterMap_congr fun call _ => exportBehind?_unplaced m h kind call

theorem scanTree_unplaced (h : PlainPositions tree) (r : Record) :
    scanTree m (unplaced tree) r = scanTree m tree r := by
  rw [scanTree, scanTree, references_unplaced m h, references_unplaced m h]

end Unplaced

-- Trees that are the same but for positions have the same imports, and a scan counts the same calls
-- and leaves the same record, as long as no position holds a node.
theorem scans_ignore_positions (m : Manifest) (r : Record) (tree other : Json)
    (hsame : unplaced tree = unplaced other) (htree : PlainPositions tree)
    (hother : PlainPositions other) :
    scanTree m tree r = scanTree m other r ∧ bindings tree = bindings other ∧
      ∀ source name, localNameOf? tree source name = localNameOf? other source name := by
  refine ⟨?_, ?_, fun source name => ?_⟩
  · rw [← scanTree_unplaced m htree, hsame, scanTree_unplaced m hother]
  · rw [← bindings_unplaced htree, hsame, bindings_unplaced hother]
  · rw [← localNameOf?_unplaced htree, hsame, localNameOf?_unplaced hother]

-- The nodes of the second tree have positions, at several depths and in several places.
theorem scans_ignore_positions_two_hosts :
    let tree := program [importAs "vue" "resolveComponent" "rc", call "rc" "q-btn"]
    let point (line : Nat) := Json.object [("line", .number (.natural line)), ("start", .null)]
    let other := Json.object [("start", .number (.natural 0)), ("type", .string "Program"),
      ("loc", .object [("start", point 1), ("end", point 2)]),
      ("body", .array [importAs "vue" "resolveComponent" "rc",
        .object [("range", .array [.number (.natural 45), .null]), ("type", .string "CallExpression"),
          ("callee", identifier "rc"), ("end", .bool true), ("arguments", .array [literal "q-btn"])]])]
    unplaced tree = unplaced other ∧ PlainPositions tree ∧ PlainPositions other ∧
      scanTree .small tree .empty = scanTree .small other .empty := by
  intro tree point other
  have hsame : unplaced tree = unplaced other := by rfl
  have htree : PlainPositions tree := by decide +kernel
  have hother : PlainPositions other := by decide +kernel
  exact ⟨hsame, htree, hother,
    (scans_ignore_positions .small .empty tree other hsame htree hother).1⟩

end Usage

end Treeshake
