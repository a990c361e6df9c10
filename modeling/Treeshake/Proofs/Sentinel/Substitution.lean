import Mathlib.Data.List.Forall2
import Treeshake.Proofs.Ecma.Reference
import Treeshake.Proofs.Ecma.Script
import Treeshake.Proofs.Source.Splicing
import Treeshake.Sentinel.Substitution

namespace Treeshake.Sentinel

open Ecma Source

namespace Table

-- A table replaces a reference that is read under one of its names and is free where it stands.
def Reads (table : Table) (r : Reference) : Prop :=
  (table.get? r.name).isSome ∧ r.written = false ∧ r.Free

instance (table : Table) (r : Reference) : Decidable (table.Reads r) :=
  inferInstanceAs (Decidable (_ ∧ _ ∧ _))

-- What an edit puts in place of a reference: the literal of its name, behind the name and a colon
-- where a field has only the name.
structure Replaces (table : Table) (r : Reference) (edit : Edit) : Prop where
  label : edit.label = r.name
  span : edit.span = r.span
  replacement : ∃ literal, table.get? r.name = some literal ∧
    edit.replacement = if r.field then r.name ++ ": " ++ literal else literal

-- The edit for a reference, if it is replaced.
def editFor? (table : Table) (r : Reference) : Option Edit := r.mention?.bind table.edit?

variable {table : Table}

theorem editFor?_of_reads {r : Reference} (h : table.Reads r) :
    ∃ edit, table.editFor? r = some edit ∧ table.Replaces r edit := by
  obtain ⟨hname, hread⟩ := h
  obtain ⟨literal, hliteral⟩ := Option.isSome_iff_exists.mp hname
  let text := if r.field then r.name ++ ": " ++ literal else literal
  have hedit : table.editFor? r = some ⟨r.name, text, r.span⟩ := by
    simp [editFor?, Reference.mention?, hread, edit?, hliteral, text]
  exact ⟨_, hedit, rfl, rfl, literal, hliteral, rfl⟩

theorem editFor?_of_not_reads {r : Reference} (h : ¬table.Reads r) : table.editFor? r = none := by
  rw [editFor?, Reference.mention?]
  split
  · next hread =>
    have hname : table.get? r.name = none := by
      by_contra hne
      exact h ⟨Option.isSome_iff_ne_none.mpr hne, hread⟩
    simp [edit?, hname]
  · rfl

theorem forall₂_replaces (references : List Reference) :
    List.Forall₂ table.Replaces (references.filter (table.Reads ·))
      (references.filterMap table.editFor?) := by
  induction references with
  | nil => exact .nil
  | cons r references ih =>
    by_cases hreads : table.Reads r
    · obtain ⟨edit, hedit, hreplaces⟩ := editFor?_of_reads hreads
      rw [List.filter_cons_of_pos (by simpa using hreads), List.filterMap_cons_some hedit]
      exact .cons hreplaces ih
    · rw [List.filter_cons_of_neg (by simpa using hreads),
        List.filterMap_cons_none (editFor?_of_not_reads hreads)]
      exact ih

theorem editsOf_eq {tree : Tree} (h : tree.Placed false) :
    table.editsOf tree = (tree.references false []).filterMap table.editFor? := by
  rw [editsOf, Tree.mentions_eq h, List.filterMap_filterMap]
  rfl

-- The edits for a script belong to what it reads, one to one and in order.
theorem forall₂_editsOf {tree : Tree} (h : tree.Placed false) :
    List.Forall₂ table.Replaces ((tree.references false []).filter (table.Reads ·))
      (table.editsOf tree) := by
  rw [editsOf_eq h]
  exact forall₂_replaces _

theorem exists_edit_of_reads {tree : Tree} {r : Reference} (h : tree.Placed false)
    (hmem : r ∈ tree.references false []) (hreads : table.Reads r) :
    ∃ edit ∈ table.editsOf tree, table.Replaces r edit := by
  obtain ⟨edit, hedit, hreplaces⟩ := editFor?_of_reads hreads
  rw [editsOf_eq h]
  exact ⟨edit, List.mem_filterMap.mpr ⟨r, hmem, hedit⟩, hreplaces⟩

theorem exists_reads_of_edit {tree : Tree} {edit : Edit} (h : tree.Placed false)
    (hmem : edit ∈ table.editsOf tree) :
    ∃ r ∈ tree.references false [], table.Reads r ∧ table.Replaces r edit := by
  rw [editsOf_eq h] at hmem
  obtain ⟨r, hr, hedit⟩ := List.mem_filterMap.mp hmem
  by_cases hreads : table.Reads r
  · obtain ⟨edit', hedit', hreplaces⟩ := editFor?_of_reads hreads
    obtain rfl := Option.some.inj (hedit.symm.trans hedit')
    exact ⟨r, hr, hreads, hreplaces⟩
  · rw [editFor?_of_not_reads hreads] at hedit
    cases hedit

theorem map_replaces {references : List Reference} {edits : List Edit}
    (h : List.Forall₂ table.Replaces references edits) :
    (edits.map fun e => (e.label, e.span)) = references.map fun r => (r.name, r.span) := by
  induction h with
  | nil => rfl
  | cons hreplaces _ ih => rw [List.map_cons, List.map_cons, ih, hreplaces.label, hreplaces.span]

-- Edits stand where the names of the script do.
theorem laid_editsOf (table : Table) {source : List Char} {tree : Tree}
    (h : Script.Fits source tree) :
    ∃ high, Laid source 0 ((table.editsOf tree).map fun e => (e.label, e.span)) high := by
  obtain ⟨high, hlaid⟩ := h.laid_references
  have hreads := (List.filter_sublist (p := (table.Reads ·))
    (l := tree.references false [])).map fun r => (r.name, r.span)
  rw [← map_replaces (forall₂_editsOf h.placed)] at hreads
  exact ⟨high, hlaid.sublist hreads⟩

end Table

theorem fits_of_parse? {identifier source : String} {tree : Tree}
    (h : parse? identifier source = some tree) : Script.Fits source.toList tree := by
  obtain ⟨script, hscript, rfl⟩ := Option.map_eq_some_iff.mp h
  exact Script.fits_of_parse? hscript

-- Either the script is parsed, or there is nothing to look for in it.
theorem collect_cases {table : Table} {identifier source : String} {edits : List Edit}
    (h : collect table identifier source = .ok edits) :
    edits = [] ∨ ∃ tree, parse? identifier source = some tree ∧ edits = table.editsOf tree := by
  unfold collect at h
  split at h
  · split at h
    · next tree hparse => exact .inr ⟨tree, hparse, (Except.ok.inj h).symm⟩
    · cases h
  · exact .inl (Except.ok.inj h).symm

theorem applied_of_collect {table : Table} {identifier source : String} {edits : List Edit}
    (h : collect table identifier source = .ok edits) :
    ∃ text, Edit.Applied 0 edits source.toList text := by
  rcases collect_cases h with rfl | ⟨tree, hparse, rfl⟩
  · exact ⟨source.toList, .done 0 _⟩
  · obtain ⟨high, hlaid⟩ := table.laid_editsOf (fits_of_parse? hparse)
    have hcuts : ∀ edit ∈ table.editsOf tree, edit.span.CutsFrom source.toList := by
      intro edit hmem
      exact (hlaid.spelled (List.mem_map.mpr ⟨edit, hmem, rfl⟩)).cutsFrom
    have hordered := List.pairwise_map.mp hlaid.pairwise
    exact Edit.exists_applied (List.nil_append _).symm rfl (fun _ _ => Nat.zero_le _) hcuts
      hordered

theorem substitute_of_applied {table : Table} {identifier source : String} {edits : List Edit}
    {text : List Char} (h : collect table identifier source = .ok edits)
    (happlied : Edit.Applied 0 edits source.toList text) :
    substitute table identifier source = .ok (String.ofList text, []) := by
  rw [substitute, h, Except.map, happlied.splice_eq]

-- What a module needs: an edit for each reference that is read and free, in their order. A
-- reference is spelled where its edit stands.
theorem edits_match_free_reads (table : Table) (identifier source : String) (tree : Tree)
    (hmentioned : table.mentionedIn source = true) (hparse : parse? identifier source = some tree) :
    (∀ r ∈ tree.references false [], Spelled source.toList r.name r.span) ∧
    ((tree.references false []).Pairwise fun a b => a.span.stop ≤ b.span.start) ∧
    ∃ edits, collect table identifier source = .ok edits ∧
      List.Forall₂ table.Replaces ((tree.references false []).filter (table.Reads ·)) edits := by
  have hfits := fits_of_parse? hparse
  refine ⟨fun r hmem => hfits.spelled hmem, hfits.pairwise_references, table.editsOf tree, ?_,
    Table.forall₂_editsOf hfits.placed⟩
  rw [collect, if_pos hmentioned, hparse]

theorem edits_match_free_reads_small :
    ∃ tree, parse? "a.js" "({ A, b: [c = A] } = { A })" = some tree ∧
      (∀ r ∈ tree.references false [],
        Spelled "({ A, b: [c = A] } = { A })".toList r.name r.span) ∧
      ((tree.references false []).Pairwise fun a b => a.span.stop ≤ b.span.start) ∧
      ∃ edits, collect ⟨[("A", "1")]⟩ "a.js" "({ A, b: [c = A] } = { A })" = .ok edits ∧
        List.Forall₂ (Table.Replaces ⟨[("A", "1")]⟩)
          ((tree.references false []).filter (Table.Reads ⟨[("A", "1")]⟩ ·)) edits := by
  have hparse : (parse? "a.js" "({ A, b: [c = A] } = { A })").isSome := by decide +kernel
  obtain ⟨tree, htree⟩ := Option.isSome_iff_exists.mp hparse
  exact ⟨tree, htree, edits_match_free_reads _ _ _ tree (by decide +kernel) htree⟩

-- Substituting drops no edit and changes nothing else.
theorem substitute_applies_every_edit (table : Table) (identifier source : String)
    (edits : List Edit) (h : collect table identifier source = .ok edits) :
    (∀ edit ∈ edits, edit.span.CutsFrom source.toList) ∧
    (edits.Pairwise fun a b => a.span.stop ≤ b.span.start) ∧
    ∃ text, Edit.Applied 0 edits source.toList text ∧
      substitute table identifier source = .ok (String.ofList text, []) := by
  obtain ⟨text, happlied⟩ := applied_of_collect h
  refine ⟨?_, happlied.pairwise, text, happlied, ?_⟩
  · simpa using happlied.cutsFrom [] rfl
  · rw [substitute, h, Except.map, happlied.splice_eq]

theorem substitute_applies_every_edit_small :
    collect ⟨[("A", "1")]⟩ "a.js" "f('é', { A }, A)" =
        .ok [⟨"A", "A: 1", ⟨10, 11⟩⟩, ⟨"A", "1", ⟨15, 16⟩⟩] ∧
      (∀ edit ∈ ([⟨"A", "A: 1", ⟨10, 11⟩⟩, ⟨"A", "1", ⟨15, 16⟩⟩] : List Edit),
        edit.span.CutsFrom "f('é', { A }, A)".toList) ∧
      ∃ text, Edit.Applied 0 [⟨"A", "A: 1", ⟨10, 11⟩⟩, ⟨"A", "1", ⟨15, 16⟩⟩]
          "f('é', { A }, A)".toList text ∧
        substitute ⟨[("A", "1")]⟩ "a.js" "f('é', { A }, A)" = .ok (String.ofList text, []) := by
  have hcollect : collect ⟨[("A", "1")]⟩ "a.js" "f('é', { A }, A)" =
      .ok [⟨"A", "A: 1", ⟨10, 11⟩⟩, ⟨"A", "1", ⟨15, 16⟩⟩] := by decide +kernel
  obtain ⟨hinside, -, htext⟩ := substitute_applies_every_edit _ _ _ _ hcollect
  exact ⟨hcollect, hinside, htext⟩

end Treeshake.Sentinel
