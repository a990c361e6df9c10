import Treeshake.Usage.Discovery
import Mathlib.Tactic.Tauto

namespace Treeshake

namespace Usage

open Library

-- A parsed module of the application itself has a call that leads to the export.
def Resolves (m : Manifest) (source : SourceModule) (kind : NameKind) (name : String) : Prop :=
  ∃ tree, source.tree = some tree ∧ isVendored source.identifier = false ∧
    name ∈ references m tree kind

namespace Record

theorem mem_add {r : Record} {kind other : NameKind} {name x : String} :
    x ∈ ((r.add kind name).of other).names ↔
      (other = kind ∧ x = name) ∨ x ∈ (r.of other).names := by
  cases kind <;> cases other <;> simp [add, of, NameSet.insert, mem_insertName]

theorem mem_addAll {r : Record} {kind other : NameKind} {names : List String} {x : String} :
    x ∈ ((r.addAll kind names).of other).names ↔
      (other = kind ∧ x ∈ names) ∨ x ∈ (r.of other).names := by
  induction names generalizing r with
  | nil => simp [addAll]
  | cons name rest ih =>
    have hstep : r.addAll kind (name :: rest) = (r.add kind name).addAll kind rest := rfl
    rw [hstep, ih, mem_add, List.mem_cons]
    tauto

end Record

variable {m : Manifest} {kind : NameKind} {x : String}

-- The two kinds are looked up apart, so no name lands under the other kind.
theorem mem_scanTree {tree : Json} {r : Record} :
    x ∈ ((scanTree m tree r).2.of kind).names ↔
      x ∈ (r.of kind).names ∨ x ∈ references m tree kind := by
  simp only [scanTree, Record.mem_addAll]
  cases kind <;> simp [or_comm]

theorem mem_scan {source : SourceModule} {r : Record} :
    x ∈ ((scan m source r).record.of kind).names ↔
      x ∈ (r.of kind).names ∨ Resolves m source kind x := by
  unfold scan Resolves
  cases htree : source.tree with
  | none => simp
  | some tree =>
    by_cases hvendored : isVendored source.identifier = true
    · simp [hvendored]
    · simp [hvendored, mem_scanTree]

theorem mem_scanAll {sources : List SourceModule} {r : Record} :
    x ∈ ((scanAll m sources r).record.of kind).names ↔
      x ∈ (r.of kind).names ∨ ∃ source ∈ sources, Resolves m source kind x := by
  induction sources generalizing r with
  | nil => simp [scanAll]
  | cons source rest ih =>
    have hrest := ih (r := (scan m source r).record)
    rw [scanAll, hrest, mem_scan]
    simp only [List.mem_cons, exists_eq_or_imp, or_assoc]

end Usage

-- A library of two components and a directive, for examples.
def Library.Manifest.small : Library.Manifest :=
  let texts : Library.Patterns := ⟨"(QBtn|q-btn|QCard|q-card)", "(v-ripple)"⟩
  let exports := [("QBtn", "QBtn"), ("q-btn", "QBtn"), ("QCard", "QCard"), ("q-card", "QCard"),
    ("v-ripple", "Ripple")]
  .standard "2.16.0" ⟨exports, texts, (Pattern.ofText? texts.components).getD (.alt []),
    (Pattern.ofText? texts.directives).getD (.alt [])⟩

-- The parts of small trees, for examples.
namespace Node

def identifier (name : String) : Json :=
  .object [("type", .string "Identifier"), ("name", .string name)]

def literal (text : String) : Json :=
  .object [("type", .string "Literal"), ("value", .string text),
    ("raw", .string ("\"" ++ text ++ "\""))]

def importAs (source imported name : String) : Json :=
  .object [("type", .string "ImportDeclaration"),
    ("specifiers", .array [.object [("type", .string "ImportSpecifier"),
      ("imported", identifier imported), ("local", identifier name)]]),
    ("source", literal source)]

def call (callee argument : String) : Json :=
  .object [("type", .string "CallExpression"), ("callee", identifier callee),
    ("arguments", .array [literal argument])]

def program (body : List Json) : Json :=
  .object [("type", .string "Program"), ("body", .array body)]

end Node

-- A module that looks one component up.
def Usage.SourceModule.small (identifier component : String) : Usage.SourceModule :=
  ⟨identifier, some (Node.program
    [Node.importAs "vue" "resolveComponent" "rc", Node.call "rc" component])⟩

end Treeshake
