import Treeshake.Proofs.Ecma.Standing
import Treeshake.Proofs.Sentinel.Substitution

namespace Treeshake.Sentinel

open Ecma Source

variable {table : Table} {identifier source : String} {tree : Tree}

theorem apart_of_ne (hparse : parse? identifier source = some tree) {a b : Reference}
    (ha : a ∈ tree.references false []) (hb : b ∈ tree.references false []) (hne : a ≠ b) :
    a.span.Apart b.span :=
  Text.Span.apart_of_pairwise (fits_of_parse? hparse).pairwise_references ha hb hne

theorem not_apart_self (hparse : parse? identifier source = some tree) {r : Reference}
    (hmem : r ∈ tree.references false []) : ¬r.span.Apart r.span := by
  have hlt : r.span.start < r.span.stop := ((fits_of_parse? hparse).spelled hmem).start_lt_stop
  simp only [Text.Span.Apart]
  omega

-- The edits for a script touch a reference if and only if it is read, and then replace it.
theorem touches_iff (hparse : parse? identifier source = some tree) {r : Reference}
    (hmem : r ∈ tree.references false []) :
    (∃ edit ∈ table.editsOf tree, ¬edit.span.Apart r.span) ↔ table.Reads r := by
  obtain ⟨-, hplaced⟩ := fits_of_parse? hparse
  constructor
  · rintro ⟨edit, hedit, htouches⟩
    obtain ⟨other, hother, hreads, hreplaces⟩ := Table.exists_reads_of_edit hplaced hedit
    rw [hreplaces.span] at htouches
    by_cases hsame : other = r
    · exact hsame ▸ hreads
    · exact absurd (apart_of_ne hparse hother hmem hsame) htouches
  · intro hreads
    obtain ⟨edit, hedit, hreplaces⟩ := Table.exists_edit_of_reads hplaced hmem hreads
    refine ⟨edit, hedit, ?_⟩
    rw [hreplaces.span]
    exact not_apart_self hparse hmem

-- No edit touches a name that is assigned to, however patterns and parentheses nest around it,
-- unless it stands in a cast. There it is replaced like a name that is read.
theorem replaced_targets_in_casts (table : Table) (identifier source : String) (tree : Tree)
    (hparse : parse? identifier source = some tree) :
    ∃ edits, collect table identifier source = .ok edits ∧
      ∀ r standing, (r, standing) ∈ tree.standings .read [] → standing ≠ .read →
        ((∃ edit ∈ edits, ¬edit.span.Apart r.span) ↔
          standing = .cast ∧ (table.get? r.name).isSome ∧ r.Free ∧
            table.mentionedIn source = true) := by
  cases hmentioned : table.mentionedIn source with
  | false => exact ⟨[], by simp [collect, hmentioned], by simp⟩
  | true =>
    refine ⟨table.editsOf tree, by simp [collect, hmentioned, hparse], ?_⟩
    intro r standing hstanding hassigned
    have hwritten := Tree.written_of_mem_standings hstanding
    rw [touches_iff hparse (Tree.mem_references_of_mem_standings hstanding), Table.Reads, hwritten]
    cases standing <;> simp_all

theorem replaced_targets_in_casts_small :
    ∃ tree, parse? "a.ts" "[(A as any), B!] = [A]" = some tree ∧
      ∃ edits, collect ⟨[("A", "1")]⟩ "a.ts" "[(A as any), B!] = [A]" = .ok edits ∧
        ∀ r standing, (r, standing) ∈ tree.standings .read [] → standing ≠ .read →
          ((∃ edit ∈ edits, ¬edit.span.Apart r.span) ↔
            standing = .cast ∧ (Table.get? ⟨[("A", "1")]⟩ r.name).isSome ∧ r.Free ∧
              Table.mentionedIn ⟨[("A", "1")]⟩ "[(A as any), B!] = [A]" = true) := by
  have hparse : (parse? "a.ts" "[(A as any), B!] = [A]").isSome := by decide +kernel
  obtain ⟨tree, htree⟩ := Option.isSome_iff_exists.mp hparse
  exact ⟨tree, htree, replaced_targets_in_casts _ _ _ tree htree⟩

-- An assignment to a sentinel inside a cast.
def castSource : String := "(__QUASAR_SSR__ as any) = 1"

theorem target_in_cast_is_replaced :
    ∃ tree r, parse? "/app/src/a.ts" castSource = some tree ∧
      (r, Standing.cast) ∈ tree.standings .read [] ∧
      collect (.ofBuild "2.16.0" .standard .client) "/app/src/a.ts" castSource =
        .ok [⟨"__QUASAR_SSR__", "false", r.span⟩] := by
  have hstandings : (parse? "/app/src/a.ts" castSource).map (fun tree =>
      (tree.standings .read []).map fun found => (found.1.span, found.2)) =
      some [(⟨1, 15⟩, .cast)] := by decide +kernel
  obtain ⟨tree, htree, hfound⟩ := Option.map_eq_some_iff.mp hstandings
  obtain ⟨⟨r, standing⟩, hmem, hr⟩ := List.mem_map.mp (hfound ▸ List.mem_singleton_self _)
  obtain ⟨hspan, rfl⟩ := Prod.mk.inj hr
  exact ⟨tree, r, htree, hmem, hspan ▸ by decide +kernel⟩

end Treeshake.Sentinel
