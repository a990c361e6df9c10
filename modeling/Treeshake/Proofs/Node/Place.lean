import Mathlib.Data.List.Basic
import Treeshake.Node.Shape

namespace Treeshake.Node

def fieldsOf : Json → List (String × Json)
  | .object fields => fields
  | _ => []

theorem children_eq (node : Json) :
    children node = (fieldsOf node).flatMap fun field => held field.2 := by
  cases node <;> rfl

theorem sizeOf_lt_of_mem_fieldsOf {node : Json} {field : String × Json}
    (h : field ∈ fieldsOf node) : sizeOf field.2 < sizeOf node := by
  cases node with
  | object fields =>
    have hfield := List.sizeOf_lt_of_mem (show field ∈ fields from h)
    have hvalue : sizeOf field = 1 + sizeOf field.1 + sizeOf field.2 := rfl
    rw [Json.object.sizeOf_spec]
    omega
  | _ => cases h

theorem sizeOf_le_of_mem_held {value child : Json} (h : child ∈ held value) :
    sizeOf child ≤ sizeOf value := by
  cases value with
  | array items =>
    have hchild := List.sizeOf_lt_of_mem (List.mem_filter.mp h).1
    rw [Json.array.sizeOf_spec]
    omega
  | object fields =>
    rw [held] at h
    split at h
    · exact (List.mem_singleton.mp h ▸ Nat.le_refl _)
    · cases h
  | _ => cases h

theorem sizeOf_lt_of_mem_children {node child : Json} (h : child ∈ children node) :
    sizeOf child < sizeOf node := by
  rw [children_eq, List.mem_flatMap] at h
  obtain ⟨field, hfield, hheld⟩ := h
  exact Nat.lt_of_le_of_lt (sizeOf_le_of_mem_held hheld) (sizeOf_lt_of_mem_fieldsOf hfield)

-- What holds of a node as soon as it holds of its children holds of every node.
@[elab_as_elim]
theorem childInduction {motive : Json → Prop}
    (step : ∀ node, (∀ child ∈ children node, motive child) → motive node) (node : Json) :
    motive node :=
  step node fun child h =>
    have := sizeOf_lt_of_mem_children h
    childInduction step child
termination_by sizeOf node

-- A node, followed by the listings of its children.
def listing (node : Json) : List Json :=
  node :: (children node).attach.flatMap fun ⟨child, h⟩ =>
    have := sizeOf_lt_of_mem_children h
    listing child
termination_by sizeOf node

theorem listing_eq (node : Json) : listing node = node :: (children node).flatMap listing := by
  rw [listing, List.flatMap_subtype (g := listing) fun _ _ => rfl, List.unattach_attach]

theorem belowItems_eq (items : List Json) :
    belowItems items = (items.filter isNode).flatMap preorder := by
  induction items with
  | nil => rfl
  | cons item rest ih =>
    rw [belowItems, ih, List.filter_cons]
    cases isNode item <;> rfl

theorem belowFields_eq (fields : List (String × Json)) :
    belowFields fields = (fields.flatMap fun field => held field.2).flatMap preorder := by
  induction fields with
  | nil => rfl
  | cons field rest ih =>
    obtain ⟨name, value⟩ := field
    rw [List.flatMap_cons, List.flatMap_append, ← ih]
    cases value with
    | array items => rw [belowFields, belowItems_eq, held]
    | object fields =>
      rw [belowFields, held]
      cases isNode (.object fields) <;> simp [preorder]
    | _ => rw [belowFields] <;> simp [held]

theorem preorder_eq (node : Json) : preorder node = node :: (children node).flatMap preorder := by
  cases node with
  | object fields => rw [preorder, belowFields_eq, children]
  | _ => rw [preorder] <;> simp [children]

theorem listing_eq_preorder (node : Json) : listing node = preorder node := by
  induction node using childInduction with
  | step node ih =>
    rw [listing_eq, preorder_eq, List.cons.injEq]
    exact ⟨rfl, List.flatMap_congr ih⟩

theorem mem_preorder_of_child {node child target : Json} (hchild : child ∈ children node)
    (h : target ∈ preorder child) : target ∈ preorder node := by
  rw [preorder_eq]
  exact List.mem_cons_of_mem node (List.mem_flatMap.mpr ⟨child, hchild, h⟩)

theorem mem_preorder_self (node : Json) : node ∈ preorder node := by
  rw [preorder_eq]
  exact List.mem_cons_self

-- No node is found below itself.
theorem sizeOf_lt_of_mem_tail {node target : Json} (h : target ∈ (preorder node).tail) :
    sizeOf target < sizeOf node := by
  induction node using childInduction with
  | step node ih =>
    rw [preorder_eq, List.tail_cons, List.mem_flatMap] at h
    obtain ⟨child, hchild, htarget⟩ := h
    have hlt := sizeOf_lt_of_mem_children hchild
    rw [preorder_eq, List.mem_cons] at htarget
    rcases htarget with rfl | htarget
    · exact hlt
    · have hbelow : target ∈ (preorder child).tail := by
        rw [preorder_eq]
        exact htarget
      exact Nat.lt_trans (ih child hchild hbelow) hlt

-- A step down a tree: to which child of a node it leads, by which field, and whether it is the
-- first node there.
structure Step where
  index : Nat
  field : String
  first : Bool
deriving DecidableEq, Repr

-- The nodes that a field holds, with a mark on the first.
def marked (field : String × Json) : List (String × Bool × Json) :=
  match held field.2 with
  | [] => []
  | child :: rest => (field.1, true, child) :: rest.map (field.1, false, ·)

def steps (node : Json) : List (Step × Json) :=
  ((fieldsOf node).flatMap marked).zipIdx.map fun ((field, first, child), index) =>
    (⟨index, field, first⟩, child)

theorem marked_children (field : String × Json) :
    (marked field).map (·.2.2) = held field.2 := by
  unfold marked
  split
  · next h => rw [h]; rfl
  · next h => simp [h, Function.comp_def]

theorem steps_marked (node : Json) :
    (steps node).map (fun s => (s.1.field, s.1.first, s.2)) = (fieldsOf node).flatMap marked := by
  have hzip : (steps node).map (fun s => (s.1.field, s.1.first, s.2)) =
      ((fieldsOf node).flatMap marked).zipIdx.map Prod.fst := by
    rw [steps, List.map_map]
    rfl
  rw [hzip, List.zipIdx_map_fst]

theorem steps_children (node : Json) : (steps node).map Prod.snd = children node := by
  have hmarked : (steps node).map Prod.snd =
      ((steps node).map fun s => (s.1.field, s.1.first, s.2)).map (·.2.2) := by
    rw [List.map_map]
    rfl
  rw [hmarked, steps_marked, List.map_flatMap, children_eq]
  exact List.flatMap_congr fun field _ => marked_children field

theorem steps_indices (node : Json) :
    (steps node).map (·.1.index) = List.range (children node).length := by
  have hlength : (children node).length = ((fieldsOf node).flatMap marked).length := by
    rw [← steps_children, ← steps_marked, List.length_map, List.length_map]
  have hzip : (steps node).map (·.1.index) =
      ((fieldsOf node).flatMap marked).zipIdx.map Prod.snd := by
    rw [steps, List.map_map]
    rfl
  rw [hzip, hlength, List.zipIdx_map_snd, List.range_eq_range']

theorem mem_marked {field : String × Json} {m : String × Bool × Json} (h : m ∈ marked field) :
    m.1 = field.1 ∧ m.2.2 ∈ held field.2 := by
  rw [← marked_children]
  refine ⟨?_, List.mem_map_of_mem (f := (·.2.2)) h⟩
  unfold marked at h
  split at h
  · cases h
  · rcases List.mem_cons.mp h with rfl | h
    · rfl
    · obtain ⟨child, -, rfl⟩ := List.mem_map.mp h
      rfl

-- A step leads to a node that its field holds.
theorem exists_field_of_mem_steps {node child : Json} {step : Step}
    (h : (step, child) ∈ steps node) :
    ∃ field ∈ fieldsOf node, field.1 = step.field ∧ child ∈ held field.2 := by
  have hmarked : (step.field, step.first, child) ∈ (fieldsOf node).flatMap marked := by
    rw [← steps_marked]
    exact List.mem_map_of_mem (f := fun s => (s.1.field, s.1.first, s.2)) h
  obtain ⟨field, hfield, hmem⟩ := List.mem_flatMap.mp hmarked
  obtain ⟨hname, hchild⟩ := mem_marked hmem
  exact ⟨field, hfield, hname.symm, hchild⟩

theorem child_of_mem_steps {node child : Json} {step : Step} (h : (step, child) ∈ steps node) :
    child ∈ children node := by
  rw [← steps_children]
  exact List.mem_map_of_mem (f := Prod.snd) h

-- A node may stand in a tree more than once, so a place has the steps that lead there.
structure Place where
  path : List Step
  node : Json

def Place.below (step : Step) (place : Place) : Place := ⟨step :: place.path, place.node⟩

-- The places in the order of the tree.
def places (node : Json) : List Place :=
  ⟨[], node⟩ :: (steps node).attach.flatMap fun ⟨(step, child), h⟩ =>
    have := sizeOf_lt_of_mem_children (child_of_mem_steps h)
    (places child).map (·.below step)
termination_by sizeOf node

theorem places_eq (node : Json) :
    places node =
      ⟨[], node⟩ :: (steps node).flatMap fun (step, child) => (places child).map (·.below step) := by
  rw [places, List.flatMap_subtype (g := fun s => (places s.2).map (·.below s.1)) fun _ _ => rfl,
    List.unattach_attach]

-- The steps lead from the first node to the last, from each node to one of its children.
inductive Way : Json → List Step → Json → Prop
  | here (node : Json) : Way node [] node
  | down {node child target : Json} {step : Step} {path : List Step}
    (hstep : (step, child) ∈ steps node) (h : Way child path target) :
    Way node (step :: path) target

theorem Way.exists_of_mem {root target : Json} {step : Step} {path : List Step}
    (h : Way root path target) (hmem : step ∈ path) :
    ∃ node ∈ preorder root, ∃ child, (step, child) ∈ steps node := by
  induction h with
  | here node => cases hmem
  | @down node child target next path hnext h ih =>
    rcases List.mem_cons.mp hmem with rfl | hmem
    · exact ⟨node, mem_preorder_self node, child, hnext⟩
    · obtain ⟨below, hbelow, hstep⟩ := ih hmem
      exact ⟨below, mem_preorder_of_child (child_of_mem_steps hnext) hbelow, hstep⟩

theorem mem_places_iff {node target : Json} {path : List Step} :
    ⟨path, target⟩ ∈ places node ↔ Way node path target := by
  induction node using childInduction generalizing path with
  | step node ih =>
    rw [places_eq, List.mem_cons, List.mem_flatMap]
    constructor
    · rintro (heq | ⟨⟨step, child⟩, hstep, hbelow⟩)
      · cases heq
        exact .here _
      · obtain ⟨place, hplace, heq⟩ := List.mem_map.mp hbelow
        cases heq
        exact .down hstep ((ih child (child_of_mem_steps hstep)).mp hplace)
    · intro h
      cases h with
      | here => exact .inl rfl
      | @down _ child _ step _ hstep h =>
        have hplace := (ih child (child_of_mem_steps hstep)).mpr h
        exact .inr ⟨(step, child), hstep, List.mem_map_of_mem (f := (·.below step)) hplace⟩

theorem places_nodes (node : Json) : (places node).map Place.node = preorder node := by
  induction node using childInduction with
  | step node ih =>
    have hbelow : ∀ s ∈ steps node,
        ((places s.2).map (·.below s.1)).map Place.node = preorder s.2 := by
      intro s hs
      rw [List.map_map]
      exact ih s.2 (child_of_mem_steps hs)
    rw [places_eq, preorder_eq, List.map_cons, List.map_flatMap, List.flatMap_congr hbelow,
      ← steps_children, List.flatMap_map]

def Place.indices (place : Place) : List Nat := place.path.map Step.index

-- Each place comes before the places below it and those behind it.
theorem places_increasing (node : Json) :
    (places node).Pairwise fun a b => a.indices < b.indices := by
  induction node using childInduction with
  | step node ih =>
    rw [places_eq, List.pairwise_cons, List.pairwise_flatMap]
    refine ⟨?_, ?_, ?_⟩
    · intro place hplace
      obtain ⟨s, -, hbelow⟩ := List.mem_flatMap.mp hplace
      obtain ⟨below, -, rfl⟩ := List.mem_map.mp hbelow
      exact List.nil_lt_cons _ _
    · intro s hs
      rw [List.pairwise_map]
      refine (ih s.2 (child_of_mem_steps hs)).imp fun {a b} hlt => ?_
      exact List.cons_lt_cons_iff.mpr (.inr ⟨rfl, hlt⟩)
    · have hindices : (steps node).Pairwise fun s t => s.1.index < t.1.index := by
        rw [← List.pairwise_map, steps_indices]
        exact List.pairwise_lt_range
      refine hindices.imp fun {s t} hlt a ha b hb => ?_
      obtain ⟨a, -, rfl⟩ := List.mem_map.mp ha
      obtain ⟨b, -, rfl⟩ := List.mem_map.mp hb
      exact List.cons_lt_cons_iff.mpr (.inl hlt)

end Treeshake.Node
