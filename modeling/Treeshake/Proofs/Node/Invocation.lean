import Treeshake.Node.Invocation
import Treeshake.Proofs.Node.Shape

namespace Treeshake.Node

def withoutQuotes (text : String) : String :=
  String.ofList (text.toList.filter fun c => c != '\'' && c != '"')

theorem withoutQuotes_quoted (text : String) :
    withoutQuotes ("\"" ++ text ++ "\"") = withoutQuotes text := by
  unfold withoutQuotes
  simp [String.toList_append]

-- A literal with a string counts as it is written or, where that is unknown, by its value.
inductive Written (literal : Json) : String → Prop
  | raw {text value : String} (hvalue : literal.field? "value" = some (.string value))
      (hraw : literal.field? "raw" = some (.string text)) : Written literal (withoutQuotes text)
  | value {value : String} (hvalue : literal.field? "value" = some (.string value))
      (hraw : ∀ text, literal.field? "raw" ≠ some (.string text)) :
      Written literal (withoutQuotes value)

-- A call of a plain name whose first argument is a string.
structure LooksUp (callee : String) (call : Json) (value : String) : Prop where
  type : type? call = some "CallExpression"
  name : ∃ function, call.field? "callee" = some function ∧
    type? function = some "Identifier" ∧ function.field? "name" = some (.string callee)
  argument : ∃ first rest, call.field? "arguments" = some (.array (first :: rest)) ∧
    type? first = some "Literal" ∧ Written first value

theorem isCallTo_iff {name : String} {node : Json} :
    isCallTo name node = true ↔ type? node = some "CallExpression" ∧
      ∃ function, node.field? "callee" = some function ∧
        type? function = some "Identifier" ∧ function.field? "name" = some (.string name) := by
  simp [isCallTo, Option.bind_eq_some_iff, identifier?_eq_some_iff]

theorem written_iff {literal : Json} {value : String} :
    Written literal value ↔ ∃ text, literal.field? "value" = some (.string text) ∧
      withoutQuotes (((literal.field? "raw").bind Json.string?).getD ("\"" ++ text ++ "\"")) =
        value := by
  constructor
  · rintro (⟨hvalue, hraw⟩ | ⟨hvalue, hraw⟩)
    · exact ⟨_, hvalue, by rw [hraw]; rfl⟩
    · refine ⟨_, hvalue, ?_⟩
      rw [bind_string?_eq_none_iff.mpr hraw, Option.getD_none, withoutQuotes_quoted]
  · rintro ⟨text, hvalue, rfl⟩
    cases hraw : (literal.field? "raw").bind Json.string? with
    | some raw => exact .raw hvalue (bind_string?_eq_some_iff.mp hraw)
    | none =>
      rw [Option.getD_none, withoutQuotes_quoted]
      exact .value hvalue (bind_string?_eq_none_iff.mp hraw)

theorem literalArgument?_eq_some_iff {call : Json} {literal : String} :
    literalArgument? call = some literal ↔
      ∃ first rest text, call.field? "arguments" = some (.array (first :: rest)) ∧
        type? first = some "Literal" ∧ first.field? "value" = some (.string text) ∧
        ((first.field? "raw").bind Json.string?).getD ("\"" ++ text ++ "\"") = literal := by
  simp only [literalArgument?, Option.bind_eq_bind, Option.bind_eq_some_iff, items?_eq_some_iff,
    List.head?_eq_some_iff, Option.bind_none, Option.ite_none_left_eq_some, bne_iff_ne, ne_eq,
    Decidable.not_not, string?_eq_some_iff, Option.pure_def, Option.some.injEq]
  constructor
  · rintro ⟨_, harguments, _, rfl, first, ⟨rest, rfl⟩, htype, _, hvalue, text, rfl, rfl⟩
    exact ⟨first, rest, text, harguments, htype, hvalue, rfl⟩
  · rintro ⟨first, rest, text, harguments, htype, hvalue, rfl⟩
    exact ⟨_, harguments, _, rfl, first, ⟨rest, rfl⟩, htype, _, hvalue, text, rfl, rfl⟩

theorem written_argument_iff {call : Json} {value : String} :
    (∃ literal, literalArgument? call = some literal ∧ withoutQuotes literal = value) ↔
      ∃ first rest, call.field? "arguments" = some (.array (first :: rest)) ∧
        type? first = some "Literal" ∧ Written first value := by
  simp only [literalArgument?_eq_some_iff, written_iff]
  constructor
  · rintro ⟨literal, ⟨first, rest, text, harguments, htype, hvalue, rfl⟩, hquotes⟩
    exact ⟨first, rest, harguments, htype, text, hvalue, hquotes⟩
  · rintro ⟨first, rest, harguments, htype, text, hvalue, hquotes⟩
    exact ⟨_, ⟨first, rest, text, harguments, htype, hvalue, rfl⟩, hquotes⟩

theorem looksUp_iff {name : String} {call : Json} {value : String} :
    LooksUp name call value ↔ isCallTo name call = true ∧
      ∃ i, invocation? name call = some i ∧ i.value = value := by
  have hvalue : (∃ i, invocation? name call = some i ∧ i.value = value) ↔
      ∃ literal, literalArgument? call = some literal ∧ withoutQuotes literal = value := by
    simp only [invocation?, Option.map_eq_some_iff]
    constructor
    · rintro ⟨i, ⟨literal, hliteral, rfl⟩, h⟩
      exact ⟨literal, hliteral, h⟩
    · rintro ⟨literal, hliteral, h⟩
      exact ⟨_, ⟨literal, hliteral, rfl⟩, h⟩
  rw [hvalue, written_argument_iff, isCallTo_iff]
  constructor
  · rintro ⟨htype, hname, hargument⟩
    exact ⟨⟨htype, hname⟩, hargument⟩
  · rintro ⟨⟨htype, hname⟩, hargument⟩
    exact ⟨htype, hname, hargument⟩

end Treeshake.Node
