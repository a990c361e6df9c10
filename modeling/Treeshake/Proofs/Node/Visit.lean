import Treeshake.Node.Binding
import Treeshake.Proofs.Node.Place
import Treeshake.Proofs.Node.Search

namespace Treeshake.Node

section Visit

variable {σ α : Type} (visitor : σ → Json → Option α × σ)

-- The visitor is called on these nodes one after the other, each time with what the call before
-- left. Only the last call may have a result.
inductive Visits : σ → List Json → Option α → σ → Prop
  | none (s : σ) : Visits s [] none s
  | result {s after : σ} {node : Json} {result : α} (h : visitor s node = (some result, after)) :
    Visits s [node] (some result) after
  | next {s between after : σ} {node : Json} {rest : List Json} {outcome : Option α}
    (h : visitor s node = (Option.none, between)) (hrest : Visits between rest outcome after) :
    Visits s (node :: rest) outcome after

-- The visitor, with a record of the nodes it is called on.
def recording (s : σ × List Json) (node : Json) : Option α × σ × List Json :=
  ((visitor s.1 node).1, (visitor s.1 node).2, s.2 ++ [node])

-- Shows nodes to a visitor until it has a result.
def visitAll (s : σ) : List Json → Option α × σ
  | [] => (none, s)
  | node :: rest => orOnward (visitor s node) (visitAll · rest)

theorem orOnward_assoc (outcome : Option α × σ) (more others : σ → Option α × σ) :
    orOnward (orOnward outcome more) others = orOnward outcome fun s => orOnward (more s) others := by
  obtain ⟨_ | result, s⟩ := outcome <;> rfl

theorem visitAll_append (s : σ) (front back : List Json) :
    visitAll visitor s (front ++ back) =
      orOnward (visitAll visitor s front) (visitAll visitor · back) := by
  induction front generalizing s with
  | nil => rfl
  | cons node front ih =>
    rw [List.cons_append, visitAll, visitAll, orOnward_assoc]
    exact congrArg (orOnward (visitor s node)) (funext ih)

theorem visitItems_eq (s : σ) (items : List Json) :
    visitItems visitor s items = visitAll visitor s (items.filter isNode) := by
  induction items generalizing s with
  | nil => rfl
  | cons item rest ih =>
    rw [visitItems, List.filter_cons]
    cases isNode item with
    | false => exact ih s
    | true => exact congrArg (orOnward (visitor s item)) (funext ih)

theorem visitFields_eq (s : σ) (fields : List (String × Json)) :
    visitFields visitor s fields =
      visitAll visitor s (fields.flatMap fun field => held field.2) := by
  induction fields generalizing s with
  | nil => rfl
  | cons field rest ih =>
    obtain ⟨name, value⟩ := field
    rw [List.flatMap_cons, visitAll_append]
    cases value with
    | array items =>
      rw [visitFields, visitItems_eq]
      exact congrArg (orOnward _) (funext ih)
    | object fields =>
      rw [visitFields, held]
      cases isNode (.object fields) with
      | false => exact ih s
      | true =>
        rw [if_pos rfl, if_pos rfl, visitAll, orOnward_assoc]
        exact congrArg (orOnward _) (funext ih)
    | _ =>
      rw [visitFields]
      · exact ih s
      all_goals simp

theorem visitChildren_eq (s : σ) (node : Json) :
    visitChildren visitor s node = visitAll visitor s (children node) := by
  cases node with
  | object fields => exact visitFields_eq visitor s fields
  | _ => rfl

-- The calls end with the first result, or go through all nodes if there is none.
theorem exists_visits (s : σ) (record nodes : List Json) :
    ∃ called passed, nodes = called ++ passed ∧
      Visits visitor s called (visitAll visitor s nodes).1 (visitAll visitor s nodes).2 ∧
      ((visitAll visitor s nodes).1 = none → passed = []) ∧
      visitAll (recording visitor) (s, record) nodes =
        ((visitAll visitor s nodes).1, (visitAll visitor s nodes).2, record ++ called) := by
  induction nodes generalizing s record with
  | nil => exact ⟨[], [], rfl, .none s, fun _ => rfl, by rw [List.append_nil]; rfl⟩
  | cons node rest ih =>
    rcases hnode : visitor s node with ⟨_ | result, between⟩
    · have hfirst : visitAll visitor s (node :: rest) = visitAll visitor between rest := by
        rw [visitAll, hnode, orOnward]
      have hrecording : visitAll (recording visitor) (s, record) (node :: rest) =
          visitAll (recording visitor) (between, record ++ [node]) rest := by
        rw [visitAll, recording, hnode, orOnward]
      obtain ⟨called, passed, hrest, hvisits, hnone, hrecord⟩ := ih between (record ++ [node])
      rw [hfirst, hrecording, hrecord]
      refine ⟨node :: called, passed, ?_, .next hnode hvisits, hnone, ?_⟩
      · rw [hrest, List.cons_append]
      · rw [List.append_assoc, List.singleton_append]
    · have hfirst : visitAll visitor s (node :: rest) = (some result, between) := by
        rw [visitAll, hnode, orOnward]
      have hrecording : visitAll (recording visitor) (s, record) (node :: rest) =
          (some result, between, record ++ [node]) := by
        rw [visitAll, recording, hnode, orOnward]
      rw [hfirst, hrecording]
      exact ⟨[node], rest, rfl, .result hnode, nofun, rfl⟩

end Visit

section Search

variable (p : Json → Bool)

-- Searches a child and ends with what is found.
def searching (s : Unit) (child : Json) : Option Json × Unit := (findFirst child p, s)

-- Adds what is found in a child to what is found so far, and never ends.
def gathering (found : List Json) (child : Json) : Option Unit × List Json :=
  (none, found ++ findAll child p)

-- Looks in a child for the first node that gives anything, and ends with what it gives.
def seeking {α : Type} (give : Json → Option α) (s : Unit) (child : Json) : Option α × Unit :=
  ((preorder child).findSome? give, s)

theorem visitAll_seeking {α : Type} (give : Json → Option α) (nodes : List Json) :
    (visitAll (seeking give) () nodes).1 = (nodes.flatMap preorder).findSome? give := by
  induction nodes with
  | nil => rfl
  | cons node rest ih =>
    rw [visitAll, seeking, List.flatMap_cons, List.findSome?_append, ← ih]
    cases (preorder node).findSome? give <;> rfl

theorem visitAll_searching (nodes : List Json) :
    (visitAll (searching p) () nodes).1 = (nodes.flatMap preorder).find? p := by
  have hseeking : searching p = seeking (Option.guard p) := by
    funext s child
    rw [searching, seeking, findFirst_eq_find?, List.findSome?_guard]
  rw [hseeking, visitAll_seeking, List.findSome?_guard]

theorem visitAll_gathering (found nodes : List Json) :
    visitAll (gathering p) found nodes = (none, found ++ (nodes.flatMap preorder).filter p) := by
  induction nodes generalizing found with
  | nil => rw [List.flatMap_nil, List.filter_nil, List.append_nil, visitAll]
  | cons node rest ih =>
    rw [visitAll, gathering, orOnward, ih, findAll, List.flatMap_cons, List.filter_append,
      List.append_assoc]

theorem findFirst_visits (root : Json) :
    findFirst root p =
      if p root then some root else (visitChildren (searching p) () root).1 := by
  rw [visitChildren_eq, visitAll_searching, findFirst_eq_find?, preorder_eq, List.find?_cons]
  cases p root <;> rfl

-- The name that an export goes by is looked up by visits too: in a node itself, if it is an import
-- of the module, and else in its children.
theorem localNameOf?_visits (root : Json) (source name : String) :
    localNameOf? root source name =
      (if isImport root && importSource? root == some source then
        (specifiers root).findSome? (boundBy? name) else none).or
      (visitChildren (fun s child => (localNameOf? child source name, s)) () root).1 := by
  have hchildren := visitAll_seeking (fun node =>
    if isImport node && importSource? node == some source then
      (specifiers node).findSome? (boundBy? name) else none) (children root)
  rw [visitChildren_eq]
  refine Eq.trans ?_ (congrArg (Option.or _) hchildren.symm)
  rw [localNameOf?, preorder_eq, List.findSome?_cons]
  split
  · next h => rw [h, Option.some_or]
  · next h => rw [h, Option.none_or]

theorem findAll_visits (found : List Json) (root : Json) :
    visitChildren (gathering p) (if p root then found ++ [root] else found) root =
      (none, found ++ findAll root p) := by
  rw [visitChildren_eq, visitAll_gathering, findAll, preorder_eq, List.filter_cons]
  cases p root <;> simp

-- Both searches go through a tree by visits alone, and follow its listing by children. The listing
-- has each node of the tree once: the root before all others and not again, and the others in the
-- order of the tree. A visit goes through the children of a node up to the first for which the
-- visitor has a result.
theorem searches_follow_listing (root : Json) {σ α : Type} (visitor : σ → Json → Option α × σ)
    (s : σ) :
    findAll root p = (listing root).filter p ∧
    findFirst root p = ((listing root).filter p).head? ∧
    (findFirst root p = none ↔ (listing root).filter p = []) ∧
    (∀ found, visitChildren (gathering p) (if p root then found ++ [root] else found) root =
      (none, found ++ findAll root p)) ∧
    (findFirst root p = if p root then some root else (visitChildren (searching p) () root).1) ∧
    (places root).map Place.node = listing root ∧
    (places root).Pairwise (fun a b => a.indices < b.indices) ∧
    (∀ path node, ⟨path, node⟩ ∈ places root ↔ Way root path node) ∧
    root ∉ (listing root).tail ∧
    ∃ called passed, children root = called ++ passed ∧
      Visits visitor s called (visitChildren visitor s root).1 (visitChildren visitor s root).2 ∧
      ((visitChildren visitor s root).1 = none → passed = []) ∧
      visitChildren (recording visitor) (s, []) root =
        ((visitChildren visitor s root).1, (visitChildren visitor s root).2, called) := by
  have hall : findAll root p = (listing root).filter p := by
    rw [findAll, listing_eq_preorder]
  have hfirst : findFirst root p = ((listing root).filter p).head? := by
    rw [findFirst_eq_head?, hall]
  have hplaces : (places root).map Place.node = listing root := by
    rw [places_nodes, listing_eq_preorder]
  have hroot : root ∉ (listing root).tail := by
    rw [listing_eq_preorder]
    exact fun h => Nat.lt_irrefl _ (sizeOf_lt_of_mem_tail h)
  refine ⟨hall, hfirst, ?_, (findAll_visits p · root), findFirst_visits p root, hplaces,
    places_increasing root, fun _ _ => mem_places_iff, hroot, ?_⟩
  · rw [hfirst, List.head?_eq_none_iff]
  · simpa only [visitChildren_eq, List.nil_append] using exists_visits visitor s [] (children root)

end Search

end Treeshake.Node
