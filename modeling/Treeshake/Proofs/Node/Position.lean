import Treeshake.Node.Binding
import Treeshake.Node.Invocation
import Treeshake.Proofs.Node.Place

namespace Treeshake.Node

def positionFields : List String := ["start", "end", "range", "loc"]

mutual

-- A value without positions, at any depth.
def unplaced : Json → Json
  | .object fields => .object (unplacedFields fields)
  | .array items => .array (unplacedItems items)
  | value => value

def unplacedFields : List (String × Json) → List (String × Json)
  | [] => []
  | (name, value) :: rest =>
    if name ∈ positionFields then unplacedFields rest
    else (name, unplaced value) :: unplacedFields rest

def unplacedItems : List Json → List Json
  | [] => []
  | item :: rest => unplaced item :: unplacedItems rest

end

-- No position holds a node, so that none leads farther into the tree.
def PlainPositions (tree : Json) : Prop :=
  ∀ node ∈ preorder tree, ∀ field ∈ fieldsOf node, field.1 ∈ positionFields → held field.2 = []

instance (tree : Json) : Decidable (PlainPositions tree) :=
  decidable_of_iff (∀ node ∈ preorder tree, ∀ field ∈ fieldsOf node,
    field.1 ∈ positionFields → (held field.2).isEmpty = true) (by simp [PlainPositions])

section Value

variable {name : String}

theorem unplacedItems_eq (items : List Json) : unplacedItems items = items.map unplaced := by
  induction items with
  | nil => rfl
  | cons item rest ih => rw [unplacedItems, ih, List.map_cons]

theorem unplaced_array (items : List Json) :
    unplaced (.array items) = .array (items.map unplaced) := by
  rw [unplaced, unplacedItems_eq]

theorem lookup_unplacedFields (h : name ∉ positionFields) (fields : List (String × Json)) :
    (unplacedFields fields).lookup name = (fields.lookup name).map unplaced := by
  induction fields with
  | nil => rfl
  | cons field rest ih =>
    obtain ⟨key, value⟩ := field
    rw [unplacedFields]
    by_cases hkey : key ∈ positionFields
    · have hne : (name == key) = false := beq_eq_false_iff_ne.mpr fun heq => h (heq ▸ hkey)
      rw [if_pos hkey, ih, List.lookup_cons, hne]
    · rw [if_neg hkey, List.lookup_cons, List.lookup_cons, ih]
      cases name == key <;> rfl

theorem field?_unplaced (h : name ∉ positionFields) (value : Json) :
    (unplaced value).field? name = (value.field? name).map unplaced := by
  cases value with
  | object fields => exact lookup_unplacedFields h fields
  | _ => rfl

theorem string?_unplaced (value : Json) : (unplaced value).string? = value.string? := by
  cases value <;> rfl

theorem items?_unplaced (value : Json) :
    (unplaced value).items? = value.items?.map (List.map unplaced) := by
  cases value with
  | array items => rw [unplaced_array]; rfl
  | _ => rfl

-- A text in a field that is no position.
theorem bind_string?_unplaced (h : name ∉ positionFields) (value : Json) :
    ((unplaced value).field? name).bind Json.string? = (value.field? name).bind Json.string? := by
  rw [field?_unplaced h, Option.bind_map]
  exact congrArg _ (funext string?_unplaced)

-- The items in a field that is no position.
theorem bind_items?_unplaced (h : name ∉ positionFields) (value : Json) :
    ((unplaced value).field? name).bind Json.items? =
      ((value.field? name).bind Json.items?).map (List.map unplaced) := by
  rw [field?_unplaced h, Option.bind_map, Option.map_bind]
  exact congrArg _ (funext items?_unplaced)

theorem isNode_eq_isSome (value : Json) : isNode value = (value.field? "type").isSome := by
  cases value with
  | object fields =>
    change (fields.any fun field => field.1 == "type") = (fields.lookup "type").isSome
    induction fields with
    | nil => rfl
    | cons field rest ih =>
      rw [List.any_cons, List.lookup_cons, ih, BEq.comm]
      cases "type" == field.1 <;> rfl
  | _ => rfl

theorem isNode_unplaced (value : Json) : isNode (unplaced value) = isNode value := by
  rw [isNode_eq_isSome, isNode_eq_isSome, field?_unplaced (by decide), Option.isSome_map]

theorem held_unplaced (value : Json) : held (unplaced value) = (held value).map unplaced := by
  cases value with
  | array items =>
    rw [unplaced_array, held, held, List.filter_map]
    exact congrArg (List.map unplaced ·) (List.filter_congr fun item _ => isNode_unplaced item)
  | object fields =>
    have hnode := isNode_unplaced (.object fields)
    rw [unplaced] at hnode ⊢
    rw [held, held, hnode]
    split <;> simp [unplaced]
  | _ => rfl

end Value

section Tree

theorem fieldsOf_unplaced (node : Json) :
    fieldsOf (unplaced node) = unplacedFields (fieldsOf node) := by
  cases node <;> rfl

theorem children_unplaced {node : Json}
    (h : ∀ field ∈ fieldsOf node, field.1 ∈ positionFields → held field.2 = []) :
    children (unplaced node) = (children node).map unplaced := by
  rw [children_eq, children_eq, fieldsOf_unplaced]
  generalize fieldsOf node = fields at h ⊢
  induction fields with
  | nil => rfl
  | cons field rest ih =>
    obtain ⟨key, value⟩ := field
    rw [List.forall_mem_cons] at h
    obtain ⟨hvalue, hrest⟩ := h
    rw [unplacedFields, List.flatMap_cons, List.map_append, ← ih hrest]
    by_cases hkey : key ∈ positionFields
    · rw [if_pos hkey, hvalue hkey, List.map_nil, List.nil_append]
    · rw [if_neg hkey, List.flatMap_cons, held_unplaced]

theorem preorder_unplaced {tree : Json} (h : PlainPositions tree) :
    preorder (unplaced tree) = (preorder tree).map unplaced := by
  induction tree using childInduction with
  | step node ih =>
    have hchildren : ∀ child ∈ children node,
        preorder (unplaced child) = (preorder child).map unplaced := by
      intro child hchild
      exact ih child hchild fun target htarget => h target (mem_preorder_of_child hchild htarget)
    rw [preorder_eq, preorder_eq, children_unplaced (h node (mem_preorder_self node)),
      List.flatMap_map, List.flatMap_congr hchildren, List.map_cons, List.map_flatMap]

end Tree

section Node

variable (node : Json)

theorem type?_unplaced : type? (unplaced node) = type? node :=
  bind_string?_unplaced (by decide) node

theorem identifier?_unplaced : identifier? (unplaced node) = identifier? node := by
  rw [identifier?, identifier?, type?_unplaced, bind_string?_unplaced (by decide)]

-- A name in a field that is no position.
theorem bind_identifier?_unplaced {name : String} (h : name ∉ positionFields) :
    ((unplaced node).field? name).bind identifier? = (node.field? name).bind identifier? := by
  rw [field?_unplaced h, Option.bind_map]
  exact congrArg _ (funext identifier?_unplaced)

theorem importSource?_unplaced : importSource? (unplaced node) = importSource? node := by
  have hvalue (source : Json) : ((unplaced source).field? "value").bind Json.string? =
      (source.field? "value").bind Json.string? := bind_string?_unplaced (by decide) source
  change ((unplaced node).field? "source").bind _ = (node.field? "source").bind _
  rw [field?_unplaced (by decide), Option.bind_map]
  exact congrArg _ (funext hvalue)

theorem importedName?_unplaced : importedName? (unplaced node) = importedName? node := by
  have himported (imported : Json) :
      (identifier? (unplaced imported) <|>
        ((unplaced imported).field? "value").bind Json.string?) =
      (identifier? imported <|> (imported.field? "value").bind Json.string?) := by
    rw [identifier?_unplaced, bind_string?_unplaced (by decide)]
  change ((unplaced node).field? "imported").bind _ = (node.field? "imported").bind _
  rw [field?_unplaced (by decide), Option.bind_map]
  exact congrArg _ (funext himported)

theorem localName?_unplaced : localName? (unplaced node) = localName? node :=
  bind_identifier?_unplaced node (by decide)

theorem specifiers_unplaced : specifiers (unplaced node) = (specifiers node).map unplaced := by
  rw [specifiers, specifiers, bind_items?_unplaced (by decide)]
  cases (node.field? "specifiers").bind Json.items? <;> rfl

theorem isImport_unplaced : isImport (unplaced node) = isImport node := by
  rw [isImport, isImport, type?_unplaced]

theorem boundBy?_unplaced (name : String) : boundBy? name (unplaced node) = boundBy? name node := by
  rw [boundBy?, boundBy?, type?_unplaced, importedName?_unplaced, localName?_unplaced]

theorem binding?_unplaced (source : String) :
    binding? source (unplaced node) = binding? source node := by
  rw [binding?, binding?, type?_unplaced, importedName?_unplaced, localName?_unplaced]

theorem isCallTo_unplaced (name : String) :
    isCallTo name (unplaced node) = isCallTo name node := by
  rw [isCallTo, isCallTo, type?_unplaced, bind_identifier?_unplaced node (by decide)]

-- The text of a literal.
def literalText? (literal : Json) : Option String :=
  if type? literal = some "Literal" then
    ((literal.field? "value").bind Json.string?).map fun value =>
      ((literal.field? "raw").bind Json.string?).getD ("\"" ++ value ++ "\"")
  else none

theorem literalArgument?_eq (call : Json) :
    literalArgument? call =
      ((((call.field? "arguments").bind Json.items?).bind List.head?).bind literalText?) := by
  have hliteral (first : Json) : (do
      if type? first != some "Literal" then none
      let value ← (← first.field? "value").string?
      return ((first.field? "raw").bind Json.string?).getD ("\"" ++ value ++ "\"")) =
      literalText? first := by
    unfold literalText?
    by_cases htype : type? first = some "Literal"
    · cases first.field? "value" with
      | none => simp [htype]
      | some value => cases hvalue : value.string? <;> simp [htype, hvalue]
    · simp [htype]
  rw [Option.bind_assoc, Option.bind_assoc, ← funext hliteral]
  rfl

theorem literalText?_unplaced : literalText? (unplaced node) = literalText? node := by
  rw [literalText?, literalText?, type?_unplaced, bind_string?_unplaced (by decide),
    bind_string?_unplaced (by decide)]

theorem literalArgument?_unplaced : literalArgument? (unplaced node) = literalArgument? node := by
  rw [literalArgument?_eq, literalArgument?_eq, bind_items?_unplaced (by decide), Option.bind_map]
  cases (node.field? "arguments").bind Json.items? with
  | none => rfl
  | some items =>
    cases items with
    | nil => rfl
    | cons first rest => exact literalText?_unplaced first

-- A call may tell where it stands, but what it is about does not change.
theorem invocation?_unplaced (name : String) :
    (invocation? name (unplaced node)).map Invocation.value =
      (invocation? name node).map Invocation.value := by
  rw [invocation?, invocation?, literalArgument?_unplaced, Option.map_map, Option.map_map]
  rfl

end Node

section Import

variable {tree : Json}

theorem localNameOf?_unplaced (h : PlainPositions tree) (source name : String) :
    localNameOf? (unplaced tree) source name = localNameOf? tree source name := by
  have hnode (node : Json) :
      (if isImport (unplaced node) && importSource? (unplaced node) == some source then
        (specifiers (unplaced node)).findSome? (boundBy? name) else none) =
      if isImport node && importSource? node == some source then
        (specifiers node).findSome? (boundBy? name) else none := by
    rw [isImport_unplaced, importSource?_unplaced, specifiers_unplaced, List.findSome?_map]
    simp only [Function.comp_def, boundBy?_unplaced]
  rw [localNameOf?, localNameOf?, preorder_unplaced h, List.findSome?_map]
  exact congrArg (List.findSome? · (preorder tree)) (funext hnode)

theorem bindings_unplaced (h : PlainPositions tree) : bindings (unplaced tree) = bindings tree := by
  have himports : findAll (unplaced tree) isImport = (findAll tree isImport).map unplaced := by
    rw [findAll, findAll, preorder_unplaced h, List.filter_map]
    simp only [Function.comp_def, isImport_unplaced]
  rw [bindings, bindings, himports, List.flatMap_map]
  refine List.flatMap_congr fun declaration _ => ?_
  rw [importSource?_unplaced]
  cases importSource? declaration with
  | none => rfl
  | some source =>
    simp only [specifiers_unplaced, List.filterMap_map, Function.comp_def, binding?_unplaced]

end Import

end Treeshake.Node
