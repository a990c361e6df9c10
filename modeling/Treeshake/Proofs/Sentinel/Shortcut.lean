import Treeshake.Proofs.Sentinel.Literal
import Treeshake.Proofs.Sentinel.Substitution

namespace Treeshake.Sentinel

open Ecma

variable {table : Table} {identifier source : String} {tree : Tree}

theorem Table.mentionedIn_of_infix {name : String} (hname : (table.get? name).isSome)
    (h : name.toList <:+: source.toList) : table.mentionedIn source = true := by
  obtain ⟨literal, hliteral⟩ := Option.isSome_iff_exists.mp hname
  exact List.any_eq_true.mpr ⟨_, mem_entries_of_get? hliteral, Text.contains_iff_infix.mpr h⟩

-- The text shows a name that is read, if not its spelling hides it.
theorem mentionedIn_or_escaped (hparse : parse? identifier source = some tree) {r : Reference}
    (hmem : r ∈ tree.references false []) (hreads : table.Reads r) :
    table.mentionedIn source = true ∨ Escaped source.toList r.span := by
  have hspelled := (fits_of_parse? hparse).spelled hmem
  exact hspelled.infix_or_escaped.imp_left (Table.mentionedIn_of_infix hreads.1)

theorem editsOf_eq_nil_iff (hparse : parse? identifier source = some tree) :
    table.editsOf tree = [] ↔ ∀ r ∈ tree.references false [], ¬table.Reads r := by
  obtain ⟨-, hplaced⟩ := fits_of_parse? hparse
  have hedits := @Table.forall₂_editsOf table tree hplaced
  rw [← List.length_eq_zero_iff, ← hedits.length_eq, List.length_eq_zero_iff,
    List.filter_eq_nil_iff]
  simp

-- To look for the names in the text first matters to no script but one that reads sentinels and
-- spells all of them with escapes.
theorem shortcut_misses_escapes_only (table : Table) (identifier source : String) (tree : Tree)
    (hparse : parse? identifier source = some tree) :
    (table.mentionedIn source = false → ∀ r ∈ tree.references false [], table.Reads r →
      Escaped source.toList r.span) ∧
    (collect table identifier source = .ok (table.editsOf tree) ↔
      table.mentionedIn source = true ∨
        ∀ r ∈ tree.references false [], table.Reads r → ¬Escaped source.toList r.span) := by
  have hescaped : table.mentionedIn source = false → ∀ r ∈ tree.references false [],
      table.Reads r → Escaped source.toList r.span := by
    intro hmentioned r hmem hreads
    refine (mentionedIn_or_escaped hparse hmem hreads).resolve_left ?_
    simp [hmentioned]
  refine ⟨hescaped, ?_⟩
  cases hmentioned : table.mentionedIn source with
  | true => simp [collect, hmentioned, hparse]
  | false =>
    simp only [collect, hmentioned, Bool.false_eq_true, if_false, false_or, Except.ok.injEq,
      eq_comm (a := ([] : List Source.Edit)), editsOf_eq_nil_iff hparse]
    constructor
    · intro hnone r hmem hreads
      exact absurd hreads (hnone r hmem)
    · intro hplain r hmem hreads
      exact hplain r hmem hreads (hescaped hmentioned r hmem hreads)

theorem shortcut_misses_escapes_only_small :
    ∃ tree, parse? "a.js" "f(\\u0041, B)" = some tree ∧
      ((Table.mentionedIn ⟨[("A", "1")]⟩ "f(\\u0041, B)" = false →
        ∀ r ∈ tree.references false [], Table.Reads ⟨[("A", "1")]⟩ r →
          Escaped "f(\\u0041, B)".toList r.span) ∧
      (collect ⟨[("A", "1")]⟩ "a.js" "f(\\u0041, B)" = .ok (Table.editsOf ⟨[("A", "1")]⟩ tree) ↔
        Table.mentionedIn ⟨[("A", "1")]⟩ "f(\\u0041, B)" = true ∨
          ∀ r ∈ tree.references false [], Table.Reads ⟨[("A", "1")]⟩ r →
            ¬Escaped "f(\\u0041, B)".toList r.span)) := by
  have hparse : (parse? "a.js" "f(\\u0041, B)").isSome := by decide +kernel
  obtain ⟨tree, htree⟩ := Option.isSome_iff_exists.mp hparse
  exact ⟨tree, htree, shortcut_misses_escapes_only _ _ _ tree htree⟩

-- A sentinel whose last underscore but one is spelled as an escape.
def hiddenSource : String := "f(__QUASAR_SSR\\u005f_)"

def hiddenTable : Table := .ofBuild "2.16.0" .standard .client

theorem hidden_sentinel_is_missed :
    ∃ tree, parse? "/app/src/a.js" hiddenSource = some tree ∧
      hiddenTable.editsOf tree = [⟨"__QUASAR_SSR__", "false", ⟨2, 21⟩⟩] ∧
      collect hiddenTable "/app/src/a.js" hiddenSource = .ok [] := by
  have hedits : (parse? "/app/src/a.js" hiddenSource).map hiddenTable.editsOf =
      some [⟨"__QUASAR_SSR__", "false", ⟨2, 21⟩⟩] := by decide +kernel
  obtain ⟨tree, htree, heq⟩ := Option.map_eq_some_iff.mp hedits
  exact ⟨tree, htree, heq, by decide +kernel⟩

end Treeshake.Sentinel
