import Mathlib.Algebra.Ring.Nat
import Treeshake.Proofs.Usage.Contribution

namespace Treeshake

namespace Usage

open Library

-- What a scan adds to the record, call by call.
def additions (m : Manifest) (source : SourceModule) : List (NameKind × String) :=
  match source.tree with
  | none => []
  | some tree =>
    if isVendored source.identifier then []
    else (references m tree .component).map (.component, ·) ++
      (references m tree .directive).map (.directive, ·)

namespace Record

-- Additions one after the other, of whichever modules they are.
def addEach (r : Record) (steps : List (NameKind × String)) : Record :=
  steps.foldl (fun r step => r.add step.1 step.2) r

theorem ext_of_mem {r t : Record}
    (h : ∀ kind name, name ∈ (r.of kind).names ↔ name ∈ (t.of kind).names) : r = t := by
  obtain ⟨components, directives⟩ := r
  obtain ⟨components', directives'⟩ := t
  have hcomponents : components = components' := NameSet.ext_of_mem (h .component)
  have hdirectives : directives = directives' := NameSet.ext_of_mem (h .directive)
  rw [hcomponents, hdirectives]

theorem addEach_append (r : Record) (steps others : List (NameKind × String)) :
    r.addEach (steps ++ others) = (r.addEach steps).addEach others :=
  List.foldl_append

theorem addAll_eq_addEach (r : Record) (kind : NameKind) (names : List String) :
    r.addAll kind names = r.addEach (names.map (kind, ·)) := by
  rw [addAll, addEach, List.foldl_map]

theorem mem_addEach {r : Record} {steps : List (NameKind × String)} {kind : NameKind}
    {name : String} :
    name ∈ ((r.addEach steps).of kind).names ↔
      (kind, name) ∈ steps ∨ name ∈ (r.of kind).names := by
  induction steps generalizing r with
  | nil => simp [addEach]
  | cons step rest ih =>
    have hstep : r.addEach (step :: rest) = (r.add step.1 step.2).addEach rest := rfl
    have hfirst : (kind, name) = step ↔ kind = step.1 ∧ name = step.2 := Prod.ext_iff
    rw [hstep, ih, mem_add, List.mem_cons, hfirst]
    tauto

-- Additions commute, and one that has been made changes nothing when it is made again.
theorem addEach_eq_of_mem_iff {r : Record} {steps others : List (NameKind × String)}
    (h : ∀ step, step ∈ others ↔ step ∈ steps) : r.addEach others = r.addEach steps := by
  refine ext_of_mem fun kind name => ?_
  rw [mem_addEach, mem_addEach, h]

theorem addEach_again {r : Record} {steps again : List (NameKind × String)} (h : again ⊆ steps) :
    (r.addEach steps).addEach again = r.addEach steps := by
  rw [← addEach_append]
  refine addEach_eq_of_mem_iff fun step => ?_
  rw [List.mem_append]
  exact ⟨fun hstep => hstep.elim id fun hagain => h hagain, .inl⟩

end Record

variable {m : Manifest}

theorem scan_eq (m : Manifest) (source : SourceModule) (r : Record) :
    (scan m source r).count = (additions m source).length ∧
      (scan m source r).record = r.addEach (additions m source) := by
  unfold scan additions
  cases source.tree with
  | none => exact ⟨rfl, rfl⟩
  | some tree =>
    by_cases hvendored : isVendored source.identifier = true
    · simp only [hvendored, if_true]
      exact ⟨rfl, rfl⟩
    · simp [hvendored, scanTree, Record.addAll_eq_addEach, Record.addEach_append]

-- A scan of several modules makes the additions of all of them.
theorem scanAll_eq (m : Manifest) (sources : List SourceModule) (r : Record) :
    (scanAll m sources r).count = (sources.flatMap (additions m)).length ∧
      (scanAll m sources r).record = r.addEach (sources.flatMap (additions m)) := by
  induction sources generalizing r with
  | nil => exact ⟨rfl, rfl⟩
  | cons source rest ih =>
    obtain ⟨hcount, hrecord⟩ := scan_eq m source r
    obtain ⟨hcounts, hrest⟩ := ih (scan m source r).record
    simp only [scanAll, List.flatMap_cons, List.length_append, Record.addEach_append]
    rw [hcounts, hrest, hcount, hrecord]
    exact ⟨rfl, rfl⟩

theorem scanEach_eq_scanAll (m : Manifest) (sources : List SourceModule) (r : Record) :
    ((scanEach m sources r).1.map (·.count)).sum = (scanAll m sources r).count ∧
      (scanEach m sources r).2 = (scanAll m sources r).record := by
  induction sources generalizing r with
  | nil => exact ⟨rfl, rfl⟩
  | cons source rest ih =>
    obtain ⟨hcount, hrecord⟩ := ih (scan m source r).record
    simp only [scanEach, scanAll, List.map_cons, List.sum_cons, hcount, hrecord, and_self]

theorem scanAll_perm {sources others : List SourceModule} (h : others.Perm sources) (r : Record) :
    (scanAll m others r).count = (scanAll m sources r).count ∧
      (scanAll m others r).record = (scanAll m sources r).record := by
  have hsteps : (others.flatMap (additions m)).Perm (sources.flatMap (additions m)) :=
    h.flatMap_right (additions m)
  rw [(scanAll_eq m others r).1, (scanAll_eq m others r).2, (scanAll_eq m sources r).1,
    (scanAll_eq m sources r).2]
  exact ⟨hsteps.length_eq, Record.addEach_eq_of_mem_iff fun _ => hsteps.mem_iff⟩

theorem scanAll_again {sources again : List SourceModule} (h : again ⊆ sources) (r : Record) :
    (scanAll m again (scanAll m sources r).record).record = (scanAll m sources r).record := by
  rw [(scanAll_eq m again _).2, (scanAll_eq m sources r).2]
  refine Record.addEach_again fun step hstep => ?_
  obtain ⟨source, hsource, hadded⟩ := List.mem_flatMap.mp hstep
  exact List.mem_flatMap.mpr ⟨source, h hsource, hadded⟩

-- Modules leave the same record and the same total in whatever order they are scanned: together,
-- one by one, or by threads whose additions come in between each other. A count does not depend on
-- the record, and to scan some of the modules again adds nothing.
theorem scans_commute (m : Manifest) (r : Record) (sources others : List SourceModule)
    (h : others.Perm sources) :
    (scanAll m others r).record = (scanAll m sources r).record ∧
    (scanEach m others r).2 = (scanAll m sources r).record ∧
    (∀ steps, steps.Perm (sources.flatMap (additions m)) →
      r.addEach steps = (scanAll m sources r).record) ∧
    (scanAll m others r).count = (scanAll m sources r).count ∧
    ((scanEach m others r).1.map (·.count)).sum = (scanAll m sources r).count ∧
    (∀ source t, (scan m source t).count = (scan m source r).count) ∧
    ∀ again, again ⊆ sources →
      (scanAll m again (scanAll m sources r).record).record = (scanAll m sources r).record ∧
      (scanEach m again (scanAll m sources r).record).2 = (scanAll m sources r).record := by
  obtain ⟨hcount, hrecord⟩ := scanAll_perm (m := m) h r
  obtain ⟨hsum, hlast⟩ := scanEach_eq_scanAll m others r
  refine ⟨hrecord, hlast.trans hrecord, fun steps hsteps => ?_, hcount, hsum.trans hcount,
    fun source t => ?_, fun again hagain => ?_⟩
  · rw [(scanAll_eq m sources r).2]
    exact Record.addEach_eq_of_mem_iff fun _ => hsteps.mem_iff
  · rw [(scan_eq m source t).1, (scan_eq m source r).1]
  · have hsame := scanAll_again (m := m) hagain r
    exact ⟨hsame, (scanEach_eq_scanAll m again _).2.trans hsame⟩

-- Two modules the other way round, their additions by two threads, and the second module again.
theorem scans_commute_two_modules :
    let a := SourceModule.small "src/A.js" "q-btn"
    let b := SourceModule.small "src/B.js" "q-card"
    let steps := [(NameKind.component, "QCard"), (NameKind.component, "QBtn")]
    let last := (scanAll .small [a, b] .empty).record
    [b, a].Perm [a, b] ∧ (scanAll .small [b, a] .empty).record = last ∧
    steps.Perm ([a, b].flatMap (additions .small)) ∧ Record.empty.addEach steps = last ∧
    [b] ⊆ [a, b] ∧ (scanAll .small [b] last).record = last := by
  intro a b steps last
  have hswap : [b, a].Perm [a, b] := .swap a b []
  have hsteps : steps.Perm ([a, b].flatMap (additions .small)) := by decide +kernel
  have hagain : [b] ⊆ [a, b] := List.subset_cons_self a [b]
  obtain ⟨hrecord, -, hthreads, -, -, -, hsame⟩ := scans_commute .small .empty [a, b] [b, a] hswap
  exact ⟨hswap, hrecord, hsteps, hthreads steps hsteps, hagain, (hsame [b] hagain).1⟩

end Usage

end Treeshake
