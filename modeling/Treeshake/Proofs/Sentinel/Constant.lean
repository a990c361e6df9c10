import Treeshake.Proofs.Ecma.Quotation
import Treeshake.Proofs.Json.ReadBack
import Treeshake.Sentinel.Table

namespace Treeshake.Sentinel.Table

variable {release : String} {settings : Settings} {target : Target}

theorem readsBack_of_mem {depth : Nat} {constant : String × Json}
    (h : constant ∈ values release settings target) : Json.ReadsBack depth constant.2 := by
  simp only [values, List.mem_cons, List.not_mem_nil, or_false] at h
  rcases h with rfl | rfl | rfl | rfl | rfl
  · exact Json.readsBack_string release
  all_goals exact Json.readsBack_bool _

theorem names_of_values : (values release settings target).map Prod.fst =
    [version, ssr, ssrServer, ssrClient, ssrPwa] := rfl

theorem entries_eq : (ofBuild release settings target).entries =
    (values release settings target).map fun (name, value) => (name, value.render) := rfl

theorem parse_entries :
    (ofBuild release settings target).entries.map (fun (name, literal) =>
      (name, Json.parse literal)) =
    (values release settings target).map fun (name, value) => (name, .ok value) := by
  rw [entries_eq, List.map_map]
  apply List.map_congr_left
  intro constant hconstant
  simp only [Function.comp_apply, Json.parse_render (readsBack_of_mem hconstant)]

-- No text of an entry counts as null.
theorem describe_eq : (ofBuild release settings target).describe =
    (Json.object (values release settings target)).render := by
  have hfields : (ofBuild release settings target).entries.map (fun (name, literal) =>
      (name, (Json.parse literal).toOption.getD .null)) = values release settings target := by
    rw [entries_eq, List.map_map]
    apply (List.map_congr_left _).trans (List.map_id' _)
    intro constant hconstant
    simp only [Function.comp_apply, Json.parse_render (readsBack_of_mem hconstant),
      Except.toOption, Option.getD_some]
  rw [describe, hfields]

theorem readsBack_values :
    Json.ReadsBack Json.depthLimit (.object (values release settings target)) := by
  apply Json.readsBack_object
  · rw [names_of_values]
    decide
  · exact fun constant hconstant => readsBack_of_mem hconstant

-- Each constant is read back from its text, and all of them from the listing under their names and
-- in their order. The text of the release is one string, wherever it is put, and nothing in it ends
-- that string early.
theorem constants_read_back (release : String) (settings : Settings) (target : Target) :
    let table := ofBuild release settings target
    let constants := values release settings target
    constants.map Prod.fst = [version, ssr, ssrServer, ssrClient, ssrPwa] ∧
    table.entries.map (fun (name, literal) => (name, Json.parse literal)) =
      constants.map (fun (name, value) => (name, .ok value)) ∧
    table.describe = (Json.object constants).render ∧
    Json.parse table.describe = .ok (.object constants) ∧
    ∃ body, table.get? version = some (String.ofList ('"' :: body ++ ['"'])) ∧
      Json.Sealed body ∧
      (∀ rest, Json.Reader.string (body ++ '"' :: rest) = .ok (release, rest)) ∧
      ∀ rest offset, Ecma.Lexer.scan ⟨'"' :: body ++ '"' :: rest, offset⟩ =
        ⟨.string release, ⟨rest, offset + Text.byteLength ('"' :: body ++ ['"'])⟩, false, true⟩ := by
  intro table constants
  have hdescribe : table.describe = (Json.object constants).render := describe_eq
  refine ⟨names_of_values, parse_entries, hdescribe, ?_, release.toList.flatMap Json.escape, rfl,
    Json.sealed_flatMap_escape release.toList, Json.Reader.string_flatMap_escape release, ?_⟩
  · rw [hdescribe]
    exact Json.parse_render readsBack_values
  · intro rest offset
    have hscan := Ecma.Lexer.scan_literal release rest offset
    rw [Json.toList_literal, Json.literal, String.toList_ofList] at hscan
    exact hscan

end Treeshake.Sentinel.Table
