import Mathlib.Data.Finset.Card
import Mathlib.Data.List.DropRight
import Treeshake.Proofs.Usage.ScanOrder

namespace Treeshake.Usage

-- A step that changes a record.
inductive Step where
  | add (kind : NameKind) (name : String)
  | clear
deriving DecidableEq

namespace Step

def perform (r : Record) : Step → Record
  | .add kind name => (r.insert kind name).2
  | .clear => r.clear

-- The steps since the record was cleared last.
def current (steps : List Step) : List Step := steps.rtakeWhile (· ≠ .clear)

def addedAs? (kind : NameKind) : Step → Option String
  | .add other name => if other = kind then some name else none
  | .clear => none

-- The set of the names that have been added as a kind since then.
def added (kind : NameKind) (steps : List Step) : Finset String :=
  ((current steps).filterMap (addedAs? kind)).toFinset

theorem current_concat (steps : List Step) (step : Step) :
    current (steps ++ [step]) = if step = .clear then [] else current steps ++ [step] := by
  rw [current, List.rtakeWhile_concat]
  cases step <;> rfl

theorem addedAs?_eq_some_iff {kind : NameKind} {step : Step} {name : String} :
    step.addedAs? kind = some name ↔ step = .add kind name := by
  cases step with
  | add other name' =>
    rw [addedAs?, Option.ite_none_right_eq_some, Option.some.injEq, Step.add.injEq]
  | clear => simp [addedAs?]

theorem mem_added_iff {kind : NameKind} {steps : List Step} {name : String} :
    name ∈ added kind steps ↔ .add kind name ∈ current steps := by
  rw [added, List.mem_toFinset, List.mem_filterMap]
  simp only [addedAs?_eq_some_iff, exists_eq_right]

end Step

theorem NameSet.has_iff {s : NameSet} {name : String} : s.has name = true ↔ name ∈ s.names := by
  rw [has, List.contains_iff_mem]

namespace Record

open Step

-- A record after steps, one by one.
def after (r : Record) (steps : List Step) : Record := steps.foldl perform r

theorem after_concat (r : Record) (steps : List Step) (step : Step) :
    r.after (steps ++ [step]) = step.perform (r.after steps) := by
  rw [after, List.foldl_concat]
  rfl

-- A record that lists what has been added does so after one more step as well.
theorem mem_perform {r : Record} {steps : List Step}
    (h : ∀ kind name, name ∈ (r.of kind).names ↔ name ∈ added kind steps) (step : Step)
    (kind : NameKind) (name : String) :
    name ∈ ((step.perform r).of kind).names ↔ name ∈ added kind (steps ++ [step]) := by
  rw [mem_added_iff, current_concat]
  cases step with
  | add kind' name' =>
    have hadd : name ∈ ((r.add kind' name').of kind).names ↔
        (kind = kind' ∧ name = name') ∨ name ∈ (r.of kind).names := mem_add
    have hsame : Step.add kind name = .add kind' name' ↔ kind = kind' ∧ name = name' := by
      rw [Step.add.injEq]
    rw [perform, insert, hadd, h, mem_added_iff, if_neg Step.noConfusion, List.mem_append,
      List.mem_singleton, hsame, or_comm]
  | clear =>
    rw [if_pos rfl]
    cases kind <;> simp [perform, clear, of, NameSet.empty]

theorem mem_after (steps : List Step) (kind : NameKind) (name : String) :
    name ∈ ((empty.after steps).of kind).names ↔ name ∈ added kind steps := by
  induction steps using List.reverseRecOn generalizing kind name with
  | nil => cases kind <;> simp [after, empty, of, NameSet.empty, added, current]
  | append_singleton steps step ih =>
    rw [after_concat]
    exact mem_perform ih step kind name

theorem length_after (steps : List Step) (kind : NameKind) :
    ((empty.after steps).of kind).names.length = (added kind steps).card := by
  have hnodup : ((empty.after steps).of kind).names.Nodup :=
    ((empty.after steps).of kind).increasing.imp fun hlt => String.ne_of_lt hlt
  have hset : ((empty.after steps).of kind).names.toFinset = added kind steps := by
    ext name
    rw [List.mem_toFinset, mem_after]
  rw [← hset, List.toFinset_card_of_nodup hnodup]

theorem isEmpty_iff {r : Record} : r.isEmpty = true ↔ r.size = 0 := by
  simp [isEmpty, size, NameSet.size]

-- An addition to one set is none to the other.
theorem of_insert_of_ne {kind other : NameKind} (h : other ≠ kind) (r : Record) (name : String) :
    (r.insert kind name).2.of other = r.of other := by
  cases kind with
  | component =>
    cases other with
    | component => exact absurd rfl h
    | directive => rfl
  | directive =>
    cases other with
    | component => rfl
    | directive => exact absurd rfl h

-- After any steps, a record lists for each kind just the names that have been added since the last
-- clearing, in increasing order, and tells of each name whether it is new. Neither the order of the
-- additions nor that some are repeated shows.
theorem after_lists_added (steps : List Step) :
    let r := empty.after steps
    (∀ kind, (r.of kind).names.Pairwise (· < ·) ∧
      ∀ name, name ∈ (r.of kind).names ↔ name ∈ added kind steps) ∧
    (∀ others, (∀ kind, added kind others = added kind steps) → empty.after others = r) ∧
    (∀ kind name, (r.insert kind name).1 = true ↔ name ∉ added kind steps) ∧
    (∀ kind other name, other ≠ kind → (r.insert kind name).2.of other = r.of other) ∧
    (∀ name, r.has name = true ↔
      name ∈ added .component steps ∨ name ∈ added .directive steps) ∧
    r.size = (r.of .component).names.length + (r.of .directive).names.length ∧
    r.size = (added .component steps).card + (added .directive steps).card ∧
    (r.isEmpty = true ↔ r.size = 0) := by
  intro r
  have hmem : ∀ kind name, name ∈ (r.of kind).names ↔ name ∈ added kind steps := mem_after steps
  have hsize : r.size = (r.of .component).names.length + (r.of .directive).names.length := rfl
  refine ⟨fun kind => ⟨(r.of kind).increasing, hmem kind⟩, fun others hsame => ?_,
    fun kind name => ?_, fun kind other name hne => of_insert_of_ne hne r name, fun name => ?_,
    hsize, ?_, isEmpty_iff⟩
  · refine ext_of_mem fun kind name => ?_
    rw [mem_after, hsame, hmem]
  · rw [insert, Bool.not_eq_true', ← Bool.not_eq_true, NameSet.has_iff, hmem]
  · rw [has, Bool.or_eq_true, NameSet.has_iff, NameSet.has_iff]
    exact or_congr (hmem .component name) (hmem .directive name)
  · rw [hsize, length_after, length_after]

-- What came before the clearing is gone, and a name of both kinds counts twice.
theorem after_lists_added_both_kinds :
    let steps := [.add .component "QCard", .clear, .add .component "QBtn", .add .directive "QBtn",
      .add .component "QBtn"]
    let others := [.add .directive "QBtn", .add .component "QBtn"]
    (∀ kind, added kind others = added kind steps) ∧ empty.after others = empty.after steps ∧
    NameKind.directive ≠ .component ∧
    ((empty.after steps).insert .component "QCard").2.of .directive =
      (empty.after steps).of .directive ∧
    (empty.after steps).size = 2 := by
  intro steps others
  have hsame (kind : NameKind) : added kind others = added kind steps := by
    cases kind <;> decide +kernel
  have hkinds : NameKind.directive ≠ .component := NameKind.noConfusion
  obtain ⟨-, hothers, -, hapart, -, -, hsize, -⟩ := after_lists_added steps
  exact ⟨hsame, hothers others hsame, hkinds, hapart .component .directive "QCard" hkinds,
    hsize.trans (by decide +kernel)⟩

end Record

end Treeshake.Usage
