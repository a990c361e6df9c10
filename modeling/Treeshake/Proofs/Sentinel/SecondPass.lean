import Treeshake.Proofs.Ecma.Filling
import Treeshake.Proofs.Sentinel.Literal
import Treeshake.Proofs.Sentinel.Substitution

namespace Treeshake.Sentinel

open Ecma Source

def Table.has (table : Table) (name : String) : Bool := (table.get? name).isSome

variable {table : Table} {identifier source : String} {edits : List Edit}

-- Each edit stands where its name is spelled, and puts the constant of the name there.
theorem spelled_of_collect (h : collect table identifier source = .ok edits) :
    ∀ edit ∈ edits, Spelled source.toList edit.label edit.span ∧ ∃ literal key,
      table.get? edit.label = some literal ∧ edit.replacement = key ++ literal := by
  rcases collect_cases h with rfl | ⟨tree, hparse, rfl⟩
  · simp
  intro edit hmem
  obtain ⟨high, hlaid⟩ := table.laid_editsOf (fits_of_parse? hparse)
  refine ⟨hlaid.spelled (List.mem_map_of_mem hmem), ?_⟩
  obtain ⟨m, -, hedit⟩ := List.mem_filterMap.mp hmem
  obtain ⟨literal, hliteral, rfl⟩ := Option.map_eq_some_iff.mp hedit
  refine ⟨literal, if m.shorthand then m.name ++ ": " else "", hliteral, ?_⟩
  cases m.shorthand <;> simp

-- A constant stands at the end of what is put in for it.
theorem exists_literal_of_landing {made : List Char} {landing : Edit × Text.Span}
    (hedits : collect table identifier source = .ok edits)
    (happlied : Edit.Applied 0 edits source.toList made)
    (hlanding : landing ∈ Edit.landings 0 0 edits) :
    ∃ literal front back, table.get? landing.1.label = some literal ∧
      made = front ++ (literal.toList ++ back) ∧
      landing.2.stop = Text.byteLength front + Text.byteLength literal.toList := by
  obtain ⟨hmem, front, back, hmade, hstart, hstop⟩ := happlied.landed 0 landing hlanding
  obtain ⟨-, literal, key, hliteral, hreplacement⟩ := spelled_of_collect hedits _ hmem
  rw [hreplacement, String.toList_append] at hmade hstop
  refine ⟨literal, front ++ key.toList, back, hliteral, by simpa using hmade, ?_⟩
  rw [Text.byteLength_append] at hstop ⊢
  omega

-- A spelling of a name and the text of a constant.
theorem apart_or_inside {release : String} {settings : Settings} {target : Target}
    {source front back : List Char} {name name' literal literal' : String} {span : Text.Span}
    (hname : (Table.ofBuild release settings target).get? name = some literal)
    (hspelled : Spelled source name span)
    (hliteral : (Table.ofBuild release settings target).get? name' = some literal')
    (hsource : source = front ++ (literal'.toList ++ back)) :
    span.Apart ⟨Text.byteLength front, Text.byteLength front + Text.byteLength literal'.toList⟩ ∨
      name' = Table.version ∧ span.Inside
        ⟨Text.byteLength front, Text.byteLength front + Text.byteLength literal'.toList⟩ := by
  have hcapitals := Table.isCapital_of_get? hname
  have hlt := hspelled.start_lt_stop
  obtain ⟨before, spelled, behind, hcut, hstart, hstop, hspelling, hends⟩ := hspelled.cut
  have hne : spelled ≠ [] := by
    rintro rfl
    rw [Text.byteLength] at hstop
    omega
  rw [hsource] at hcut
  rw [Text.Span.Apart, Text.Span.Inside, ← hstart, ← hstop]
  rcases Table.literal_of_get? hliteral with rfl | rfl | ⟨rfl, rfl⟩
  · exact .inl (apart_of_word [] 't' hcut hspelling hcapitals hne hends
      (by decide) (by decide) (by decide))
  · exact .inl (apart_of_word ['f', 'a'] 'l' hcut hspelling hcapitals hne hends
      (by decide) (by decide) (by decide))
  · rw [Json.literal, String.toList_ofList] at hcut ⊢
    exact (apart_or_inside_of_quoted hcut hspelling hcapitals).imp_right fun h => ⟨rfl, h⟩

-- A script that is read as another one with constants filled in needs no edit.
theorem editsOf_eq_nil_of_filled {tree tree' : Tree}
    (h : tree'.bare = (tree.fill table.has []).bare) : table.editsOf tree' = [] := by
  refine List.filterMap_eq_nil_iff.mpr fun m hmem => ?_
  have hnone := Tree.not_replaced_of_bare_eq h m hmem
  rw [Table.has, Option.isSome_eq_false_iff, Option.isNone_iff_eq_none] at hnone
  rw [Table.edit?, hnone, Option.map_none]

theorem substitute_eq_of_collect_nil (h : collect table identifier source = .ok []) :
    substitute table identifier source = .ok (source, []) := by
  rw [substitute_of_applied h (.done 0 source.toList), String.ofList_toList]

-- What a second pass finds never touches a constant that the first pass has put in, or lies between
-- the quotes of the release. It finds nothing, and changes nothing, if the new text is read as the
-- old one with constants filled in.
theorem second_pass_leaves_constants (release : String) (settings : Settings) (target : Target)
    (identifier source text : String) (journal : Journal) (edits again : List Edit)
    (hedits : collect (.ofBuild release settings target) identifier source = .ok edits)
    (htext : substitute (.ofBuild release settings target) identifier source = .ok (text, journal))
    (hagain : collect (.ofBuild release settings target) identifier text = .ok again) :
    (∀ edit ∈ again, ∀ landing ∈ Edit.landings 0 0 edits, ∃ literal,
      (Table.ofBuild release settings target).get? landing.1.label = some literal ∧
      let place : Text.Span :=
        ⟨landing.2.stop - Text.byteLength literal.toList, landing.2.stop⟩
      edit.span.Apart place ∨ landing.1.label = Table.version ∧ edit.span.Inside place) ∧
    ∀ tree tree', parse? identifier source = some tree → parse? identifier text = some tree' →
      tree'.bare = (tree.fill (Table.ofBuild release settings target).has []).bare →
      again = [] ∧
        substitute (.ofBuild release settings target) identifier text = .ok (text, []) := by
  constructor
  · intro edit hedit landing hlanding
    obtain ⟨made, happlied⟩ := applied_of_collect hedits
    obtain ⟨literal, front, back, hliteral, hsource, hstop⟩ :=
      exists_literal_of_landing hedits happlied hlanding
    obtain ⟨hspelled, literal', -, hname, -⟩ := spelled_of_collect hagain _ hedit
    rw [substitute_of_applied hedits happlied] at htext
    obtain ⟨rfl, -⟩ := Prod.mk.inj (Except.ok.inj htext)
    rw [String.toList_ofList] at hspelled
    refine ⟨literal, hliteral, ?_⟩
    rw [hstop, Nat.add_sub_cancel]
    exact apart_or_inside hname hspelled hliteral hsource
  · intro tree tree' _ hparse hfilled
    have hcollect : collect (.ofBuild release settings target) identifier text = .ok [] := by
      simp only [collect, hparse, editsOf_eq_nil_of_filled hfilled, ite_self]
    rw [hcollect] at hagain
    exact ⟨(Except.ok.inj hagain).symm, substitute_eq_of_collect_nil hcollect⟩

def smallTable : Table := .ofBuild "2.16.0" .standard .client

-- A script that is read with a constant as it was read without.
def fieldSource : String := "f({ __QUASAR_SSR__ })"

def fieldText : String := "f({ __QUASAR_SSR__: false })"

-- With a constant in place of the name of a type, the angles around types become comparisons, and a
-- property of a type becomes a field that is read.
def typeSource : String := "f<{ __QUASAR_SSR__ }, __QUASAR_SSR__.foo>(x)"

def typeText : String := "f<{ __QUASAR_SSR__ }, false.foo>(x)"

theorem second_pass_leaves_constants_small :
    (∃ literal, smallTable.get? "__QUASAR_SSR__" = some literal ∧
      let place : Text.Span := ⟨27 - Text.byteLength literal.toList, 27⟩
      Text.Span.Apart ⟨4, 18⟩ place ∨
        "__QUASAR_SSR__" = Table.version ∧ Text.Span.Inside ⟨4, 18⟩ place) ∧
    substitute smallTable "a.js" fieldText = .ok (fieldText, []) := by
  constructor
  · have hedits : collect smallTable "a.ts" typeSource =
        .ok [⟨"__QUASAR_SSR__", "false", ⟨22, 36⟩⟩] := by decide +kernel
    have hagain : collect smallTable "a.ts" typeText =
        .ok [⟨"__QUASAR_SSR__", "__QUASAR_SSR__: false", ⟨4, 18⟩⟩] := by decide +kernel
    have htext : substitute smallTable "a.ts" typeSource = .ok (typeText, []) := by
      rw [substitute, hedits]
      decide +kernel
    obtain ⟨hapart, -⟩ := second_pass_leaves_constants "2.16.0" .standard .client "a.ts" typeSource
      typeText [] _ _ hedits htext hagain
    exact hapart _ (List.mem_singleton_self _) (⟨"__QUASAR_SSR__", "false", ⟨22, 36⟩⟩, ⟨22, 27⟩)
      (by decide)
  · have hfilled : (parse? "a.js" fieldText).map (·.bare) =
        (parse? "a.js" fieldSource).map fun tree => (tree.fill smallTable.has []).bare := by
      decide +kernel
    have hparse : (parse? "a.js" fieldSource).isSome := by decide +kernel
    obtain ⟨tree, htree⟩ := Option.isSome_iff_exists.mp hparse
    rw [htree, Option.map_some] at hfilled
    obtain ⟨tree', htree', hbare⟩ := Option.map_eq_some_iff.mp hfilled
    have hedits : collect smallTable "a.js" fieldSource =
        .ok [⟨"__QUASAR_SSR__", "__QUASAR_SSR__: false", ⟨4, 18⟩⟩] := by decide +kernel
    have htext : substitute smallTable "a.js" fieldSource = .ok (fieldText, []) := by
      rw [substitute, hedits]
      decide +kernel
    obtain ⟨-, hsame⟩ := second_pass_leaves_constants "2.16.0" .standard .client "a.js" fieldSource
      fieldText [] _ [] hedits htext (by decide +kernel)
    exact (hsame tree tree' htree htree' hbare).2

theorem type_property_is_read_later :
    substitute smallTable "/app/src/a.ts" typeSource = .ok (typeText, []) ∧
      collect smallTable "/app/src/a.ts" typeText =
        .ok [⟨"__QUASAR_SSR__", "__QUASAR_SSR__: false", ⟨4, 18⟩⟩] ∧
      substitute smallTable "/app/src/a.ts" typeText =
        .ok ("f<{ __QUASAR_SSR__: false }, false.foo>(x)", []) := by
  have hagain : collect smallTable "/app/src/a.ts" typeText =
      .ok [⟨"__QUASAR_SSR__", "__QUASAR_SSR__: false", ⟨4, 18⟩⟩] := by decide +kernel
  refine ⟨by decide +kernel, hagain, ?_⟩
  rw [substitute, hagain]
  decide +kernel

end Treeshake.Sentinel
