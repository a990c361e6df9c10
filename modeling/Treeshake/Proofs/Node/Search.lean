import Mathlib.Data.List.Forall2
import Treeshake.Proofs.Node.Invocation
import Treeshake.Proofs.Usage.Contribution

namespace Treeshake.Node

section Tree

variable (p : Json → Bool)

mutual

-- What the search passes over is what the list of the whole tree has before the hit.
theorem search?_eq_find? (value : Json) : search? p value = (preorder value).find? p := by
  cases value with
  | object fields =>
    rw [search?, preorder, List.find?_cons, searchFields?_eq_find? fields]
    cases p (.object fields) <;> rfl
  | _ => rw [search?, preorder, List.find?_singleton] <;> simp

theorem searchFields?_eq_find? (fields : List (String × Json)) :
    searchFields? p fields = (belowFields fields).find? p := by
  match fields with
  | [] => rfl
  | (_, .array items) :: rest =>
    rw [searchFields?, belowFields, List.find?_append, searchItems?_eq_find? items,
      searchFields?_eq_find? rest, Option.orElse_eq_orElse, Option.orElse_eq_or]
  | (_, .object fields) :: rest =>
    rw [searchFields?, belowFields, List.find?_append, searchFields?_eq_find? fields,
      searchFields?_eq_find? rest, Option.orElse_eq_orElse, Option.orElse_eq_or]
    cases isNode (.object fields) with
    | false => rfl
    | true =>
      rw [if_pos rfl, List.find?_cons]
      cases p (.object fields) <;> rfl
  | (_, .null) :: rest | (_, .bool _) :: rest | (_, .number _) :: rest | (_, .string _) :: rest =>
    rw [searchFields?, belowFields, searchFields?_eq_find? rest] <;> simp

theorem searchItems?_eq_find? (items : List Json) :
    searchItems? p items = (belowItems items).find? p := by
  match items with
  | [] => rfl
  | item :: rest =>
    rw [searchItems?, belowItems, List.find?_append, search?_eq_find? item,
      searchItems?_eq_find? rest, Option.orElse_eq_orElse, Option.orElse_eq_or]
    cases isNode item <;> rfl

end

theorem findFirst_eq_find? (root : Json) : findFirst root p = (preorder root).find? p :=
  search?_eq_find? p root

theorem findFirst_eq_head? (root : Json) : findFirst root p = (findAll root p).head? := by
  rw [findFirst_eq_find?, findAll, List.head?_filter]

end Tree

-- A call of a function by its plain name.
structure Calls (name : String) (call : Json) : Prop where
  type : type? call = some "CallExpression"
  callee : ∃ function, call.field? "callee" = some function ∧
    type? function = some "Identifier" ∧ function.field? "name" = some (.string name)

-- The first argument of a call is a literal, and its value is a string.
def FirstArgument (call literal : Json) : Prop :=
  ∃ rest value, call.field? "arguments" = some (.array (literal :: rest)) ∧
    type? literal = some "Literal" ∧ literal.field? "value" = some (.string value)

def TakesString (call : Json) : Prop := ∃ literal, FirstArgument call literal

-- How a string stands in the text of its module. Where the literal does not say, its value counts
-- with double quotes around it.
inductive Spelling (literal : Json) : String → Prop
  | raw {text : String} (hraw : literal.field? "raw" = some (.string text)) :
    Spelling literal text
  | value {value : String} (hvalue : literal.field? "value" = some (.string value))
    (hraw : ∀ text, literal.field? "raw" ≠ some (.string text)) :
    Spelling literal ("\"" ++ value ++ "\"")

-- What is told of a call: the function, how the first argument is spelled, and where the call
-- itself stands.
structure Tells (name : String) (call : Json) (i : Invocation) : Prop where
  callee : i.callee = name
  literal : ∃ literal, FirstArgument call literal ∧ Spelling literal i.literal
  range : i.range = range? call

section Call

variable {name : String} {call : Json}

theorem calls_iff : isCallTo name call = true ↔ Calls name call := by
  rw [isCallTo_iff]
  exact ⟨fun ⟨htype, hcallee⟩ => ⟨htype, hcallee⟩, fun h => ⟨h.type, h.callee⟩⟩

instance : Decidable (Calls name call) := decidable_of_iff _ calls_iff

theorem spelling_iff {literal : Json} {value text : String}
    (hvalue : literal.field? "value" = some (.string value)) :
    Spelling literal text ↔
      ((literal.field? "raw").bind Json.string?).getD ("\"" ++ value ++ "\"") = text := by
  constructor
  · rintro (hraw | ⟨hvalue', hraw⟩)
    · rw [bind_string?_eq_some_iff.mpr hraw, Option.getD_some]
    · have hsame := Option.some.inj (hvalue.symm.trans hvalue')
      rw [bind_string?_eq_none_iff.mpr hraw, Option.getD_none, Json.string.inj hsame]
  · rintro rfl
    cases hraw : (literal.field? "raw").bind Json.string? with
    | some text => exact .raw (bind_string?_eq_some_iff.mp hraw)
    | none => exact .value hvalue (bind_string?_eq_none_iff.mp hraw)

theorem literalArgument?_iff {text : String} :
    literalArgument? call = some text ↔
      ∃ literal, FirstArgument call literal ∧ Spelling literal text := by
  rw [literalArgument?_eq_some_iff]
  constructor
  · rintro ⟨literal, rest, value, harguments, htype, hvalue, htext⟩
    exact ⟨literal, ⟨rest, value, harguments, htype, hvalue⟩, (spelling_iff hvalue).mpr htext⟩
  · rintro ⟨literal, ⟨rest, value, harguments, htype, hvalue⟩, hspelling⟩
    exact ⟨literal, rest, value, harguments, htype, hvalue, (spelling_iff hvalue).mp hspelling⟩

theorem takesString_iff : (literalArgument? call).isSome = true ↔ TakesString call := by
  rw [Option.isSome_iff_exists]
  simp only [literalArgument?_iff]
  constructor
  · rintro ⟨text, literal, hargument, -⟩
    exact ⟨literal, hargument⟩
  · rintro ⟨literal, rest, value, harguments, htype, hvalue⟩
    exact ⟨_, literal, ⟨rest, value, harguments, htype, hvalue⟩, (spelling_iff hvalue).mpr rfl⟩

instance : Decidable (TakesString call) := decidable_of_iff _ takesString_iff

theorem tells_of_invocation? {i : Invocation} (h : invocation? name call = some i) :
    Tells name call i := by
  obtain ⟨literal, hliteral, rfl⟩ := Option.map_eq_some_iff.mp h
  exact ⟨rfl, literalArgument?_iff.mp hliteral, rfl⟩

end Call

section Search

variable (root : Json) (name : String)

-- A call that takes no string is passed over by both searches, and what is inside it is not.
theorem firstInvocation?_eq_head? :
    firstInvocation? root name = (invocations root name).head? := by
  rw [firstInvocation?, findFirst_eq_find?, invocations, callsTo, findAll, List.head?_filterMap]
  induction preorder root with
  | nil => rfl
  | cons node rest ih =>
    rw [List.find?_cons, List.filter_cons]
    cases isCallTo name node with
    | false => exact ih
    | true =>
      rw [if_pos rfl, List.findSome?_cons]
      cases hliteral : literalArgument? node with
      | none => simpa [invocation?, hliteral] using ih
      | some literal => simp [invocation?, hliteral]

theorem forall₂_tells (calls : List Json) :
    List.Forall₂ (Tells name) (calls.filter (TakesString ·))
      (calls.filterMap (invocation? name)) := by
  induction calls with
  | nil => exact .nil
  | cons call rest ih =>
    cases h : invocation? name call with
    | none =>
      have hnone : ¬TakesString call := by
        rw [← takesString_iff, Option.map_eq_none_iff.mp h]
        simp
      simpa [h, hnone] using ih
    | some i =>
      obtain ⟨literal, hliteral, -⟩ := Option.map_eq_some_iff.mp h
      have hsome : TakesString call := by
        rw [← takesString_iff, hliteral]
        rfl
      simpa [h, hsome] using ⟨tells_of_invocation? h, ih⟩

-- The outer call takes a call, and the inner one a string.
example :
    let outer := Json.object [("type", .string "CallExpression"), ("callee", identifier "rc"),
      ("arguments", .array [call "rc" "q-btn"])]
    (callsTo outer "rc").length = 2 ∧
      firstInvocation? outer "rc" = some ⟨"rc", "\"q-btn\"", none⟩ := by decide +kernel

end Search

end Treeshake.Node
