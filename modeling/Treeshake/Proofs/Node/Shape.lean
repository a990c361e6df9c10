import Treeshake.Node.Shape

namespace Treeshake.Node

theorem string?_eq_some_iff {value : Json} {text : String} :
    value.string? = some text ↔ value = .string text := by
  cases value <;> simp [Json.string?]

-- A field that may be left out holds a string, or does not.
theorem bind_string?_eq_some_iff {field : Option Json} {text : String} :
    field.bind Json.string? = some text ↔ field = some (.string text) := by
  simp [Option.bind_eq_some_iff, string?_eq_some_iff]

theorem bind_string?_eq_none_iff {field : Option Json} :
    field.bind Json.string? = none ↔ ∀ text, field ≠ some (.string text) := by
  simp only [Option.eq_none_iff_forall_ne_some, ne_eq, bind_string?_eq_some_iff]

theorem items?_eq_some_iff {value : Json} {items : List Json} :
    value.items? = some items ↔ value = .array items := by
  cases value <;> simp [Json.items?]

theorem identifier?_eq_some_iff {node : Json} {name : String} :
    identifier? node = some name ↔
      type? node = some "Identifier" ∧ node.field? "name" = some (.string name) := by
  unfold identifier?
  split
  · next h => simp [beq_iff_eq.mp h, Option.bind_eq_some_iff, string?_eq_some_iff]
  · next h => simp [mt beq_iff_eq.mpr h]

end Treeshake.Node
