import Treeshake.Proofs.Ecma.Names

namespace Treeshake.Ecma

-- Whether the part at an index, of so many, is a target: the first part of an assignment is one,
-- and so are the parts of targets, apart from keys, defaults, and what members are taken of.
def Form.targets (inTarget : Bool) (form : Form) (count index : Nat) : Bool :=
  match inTarget, form with
  | false, .assign _ | false, .update | false, .each => index == 0
  | true, .group | true, .array _ | true, .object _ | true, .spread => true
  | true, .property => index + 1 == count
  | true, .parts => index == 0
  | _, _ => false

-- A name is marked as written if and only if it stands in a target, and has no parts there.
def Form.Fits (inTarget : Bool) (count : Nat) : Form → Prop
  | .write .. => inTarget = true ∧ count = 0
  | .use .. | .shorthand .. => inTarget = false
  | _ => True

mutual

def Tree.Placed (inTarget : Bool) : Tree → Prop
  | .node form parts => form.Fits inTarget parts.length ∧
    Tree.PlacedAll (form.targets inTarget parts.length) 0 parts

def Tree.PlacedAll (targets : Nat → Bool) (index : Nat) : List Tree → Prop
  | [] => True
  | tree :: rest => tree.Placed (targets index) ∧ Tree.PlacedAll targets (index + 1) rest

end

namespace Tree

theorem placed_node {inTarget : Bool} {form : Form} {parts : List Tree} :
    (node form parts).Placed inTarget ↔ form.Fits inTarget parts.length ∧
      PlacedAll (form.targets inTarget parts.length) 0 parts := by
  rw [Placed]

@[simp]
theorem placedAll_nil (targets : Nat → Bool) (index : Nat) : PlacedAll targets index [] := trivial

@[simp]
theorem placedAll_cons {targets : Nat → Bool} {index : Nat} {tree : Tree} {rest : List Tree} :
    PlacedAll targets index (tree :: rest) ↔
      tree.Placed (targets index) ∧ PlacedAll targets (index + 1) rest := by
  rw [PlacedAll]

-- Where all parts are of one sort.
theorem placedAll_of_const {targets : Nat → Bool} {index : Nat} {parts : List Tree} {b : Bool}
    (h : ∀ i, index ≤ i → targets i = b) :
    PlacedAll targets index parts ↔ ∀ tree ∈ parts, tree.Placed b := by
  induction parts generalizing index with
  | nil => exact iff_of_true (placedAll_nil targets index) (List.forall_mem_nil _)
  | cons tree rest ih =>
    rw [placedAll_cons, h index (Nat.le_refl _), ih fun i hi => h i (by omega)]
    simp

end Tree

-- A form that stands for no name and has no target among its parts.
def Form.isPlain : Form → Bool
  | .use .. | .shorthand .. | .cover .. | .write .. | .assign _ | .update | .each => false
  | _ => true

namespace Tree

section Value

variable {form : Form} {parts : List Tree}

theorem placed_of_plain (h : form.isPlain = true) :
    (node form parts).Placed false ↔ ∀ tree ∈ parts, tree.Placed false := by
  have htargets (index : Nat) : form.targets false parts.length index = false := by
    cases form <;> first | rfl | cases h
  have hfits : form.Fits false parts.length := by
    cases form <;> trivial
  rw [placed_node, placedAll_of_const fun index _ => htargets index]
  simp [hfits]

theorem names_of_plain (h : form.isPlain = true) : (node form parts).names = namesAll parts := by
  have hname : form.name? = none := by
    cases form <;> first | rfl | cases h
  simp [hname]

theorem placed_use (space : Space) (name : String) (span : Text.Span) :
    (leaf (.use space name span)).Placed false := by
  simp [leaf, placed_node, Form.Fits]

theorem placed_shorthand (name : String) (span : Text.Span) :
    (leaf (.shorthand name span)).Placed false := by
  simp [leaf, placed_node, Form.Fits]

theorem placed_cover {name : String} {span : Text.Span} :
    (node (.cover name span) parts).Placed false ↔ ∀ tree ∈ parts, tree.Placed false := by
  have htargets (index : Nat) :
      (Form.cover name span).targets false parts.length index = false := rfl
  rw [placed_node, placedAll_of_const fun index _ => htargets index]
  simp [Form.Fits]

theorem placed_assign {plain : Bool} {target value : Tree} :
    (node (.assign plain) [target, value]).Placed false ↔
      target.Placed true ∧ value.Placed false := by
  simp [placed_node, Form.Fits, Form.targets]

theorem placed_update {target : Tree} :
    (node .update [target]).Placed false ↔ target.Placed true := by
  simp [placed_node, Form.Fits, Form.targets]

theorem placed_each {target source : Tree} :
    (node .each [target, source]).Placed false ↔ target.Placed true ∧ source.Placed false := by
  simp [placed_node, Form.Fits, Form.targets]

end Value

section Target

-- A target is made of an expression: of its names, which it may write.
structure Converts (tree target : Tree) : Prop where
  names : target.names.Sublist tree.names
  placed : tree.Placed false → target.Placed true

structure ConvertsAll (trees targets : List Tree) : Prop where
  names : (namesAll targets).Sublist (namesAll trees)
  placed : (∀ tree ∈ trees, tree.Placed false) → ∀ target ∈ targets, target.Placed true

theorem ConvertsAll.cons {tree target : Tree} {trees targets : List Tree}
    (h : Converts tree target) (hrest : ConvertsAll trees targets) :
    ConvertsAll (tree :: trees) (target :: targets) := by
  refine ⟨by simpa using h.names.append hrest.names, fun hplaced => ?_⟩
  rw [List.forall_mem_cons] at hplaced ⊢
  exact ⟨h.placed hplaced.1, hrest.placed hplaced.2⟩

-- A form whose parts are targets in a target.
theorem ConvertsAll.node {form : Form} {trees targets : List Tree} (h : ConvertsAll trees targets)
    (hplain : form.isPlain = true) (hfits : ∀ count, form.Fits true count)
    (htargets : ∀ count index, form.targets true count index = true) :
    Converts (.node form trees) (.node form targets) := by
  refine ⟨by simpa only [names_of_plain hplain] using h.names, fun hplaced => ?_⟩
  rw [placed_of_plain hplain] at hplaced
  rw [placed_node, placedAll_of_const fun index _ => htargets _ index]
  exact ⟨hfits _, h.placed hplaced⟩

theorem ConvertsAll.single {tree target : Tree} (h : Converts tree target) :
    ConvertsAll [tree] [target] :=
  .cons h ⟨List.Sublist.refl _, by simp⟩

-- A place whose parts are no targets themselves.
theorem converts_self {form : Form} {parts : List Tree} (hplain : form.isPlain = true)
    (hfits : ∀ count, form.Fits true count)
    (htargets : ∀ count index, form.targets true count index = false) :
    Converts (.node form parts) (.node form parts) := by
  refine ⟨List.Sublist.refl _, fun hplaced => ?_⟩
  rw [placed_of_plain hplain] at hplaced
  rw [placed_node, placedAll_of_const fun index _ => htargets _ index]
  exact ⟨hfits _, hplaced⟩

theorem placed_write (name : String) (span : Text.Span) :
    (leaf (.write name span)).Placed true := by
  simp [leaf, placed_node, Form.Fits]

theorem place?_converts {tree target : Tree} (h : tree.place? = some target) :
    Converts tree target := by
  induction tree using place?.induct generalizing target with
  | case1 space name span parts =>
    obtain rfl := Option.some.inj h
    exact ⟨by simp [names_leaf, Form.name?], fun _ => placed_write name span⟩
  | case2 parts =>
    obtain rfl := Option.some.inj h
    exact converts_self rfl (fun _ => trivial) fun _ _ => rfl
  | case3 value ih =>
    obtain ⟨inner, hinner, rfl⟩ := Option.map_eq_some_iff.mp h
    exact (ConvertsAll.single (ih hinner)).node rfl (fun _ => trivial) fun _ _ => rfl
  | case4 parts =>
    obtain ⟨-, heq⟩ := Option.ite_none_right_eq_some.mp h
    obtain rfl := Option.some.inj heq
    exact converts_self rfl (fun _ => trivial) fun _ _ => rfl
  | case5 parts =>
    obtain ⟨-, heq⟩ := Option.ite_none_right_eq_some.mp h
    obtain rfl := Option.some.inj heq
    exact converts_self rfl (fun _ => trivial) fun _ _ => rfl
  | case6 parts =>
    obtain ⟨-, heq⟩ := Option.ite_none_right_eq_some.mp h
    obtain rfl := Option.some.inj heq
    exact converts_self rfl (fun _ => trivial) fun _ _ => rfl
  | case7 parts =>
    obtain ⟨-, heq⟩ := Option.ite_none_right_eq_some.mp h
    obtain rfl := Option.some.inj heq
    exact converts_self rfl (fun _ => trivial) fun _ _ => rfl
  | case8 tree => simp_all [place?]

theorem converts_hole (parts : List Tree) : Converts (node .hole parts) (leaf .hole) := by
  refine ⟨by simp [names_leaf, Form.name?], fun _ => ?_⟩
  simp [leaf, placed_node, Form.Fits]

-- A target with a default was read as an assignment.
theorem converts_default (parts : List Tree) : Converts (node (.assign true) parts) (of parts) := by
  refine ⟨by simp [of, Form.name?], fun hplaced => ?_⟩
  rw [placed_node] at hplaced
  exact placed_node.mpr ⟨trivial, hplaced.2⟩

theorem converts_shorthand (name : String) (span : Text.Span) (parts : List Tree) :
    Converts (node (.shorthand name span) parts) (leaf (.write name span)) :=
  ⟨by simp [names_leaf, Form.name?], fun _ => placed_write name span⟩

theorem converts_cover (name : String) (span : Text.Span) (parts : List Tree) :
    Converts (node (.cover name span) parts) (of (leaf (.write name span) :: parts)) := by
  refine ⟨by simp [names_leaf, of, Form.name?], fun hplaced => ?_⟩
  rw [placed_cover] at hplaced
  have hdefault (index : Nat) (hindex : 1 ≤ index) :
      Form.targets true .parts (leaf (.write name span) :: parts).length index = false :=
    beq_false_of_ne (by omega)
  refine placed_node.mpr ⟨trivial, placedAll_cons.mpr ⟨placed_write name span, ?_⟩⟩
  exact (placedAll_of_const hdefault).mpr hplaced

-- The last part of a property is its value, and a key before it is no target.
theorem Converts.value {value target : Tree} (h : Converts value target) :
    Converts (node .property [value]) (node .property [target]) := by
  refine ⟨by simpa [Form.name?] using h.names, fun hplaced => ?_⟩
  rw [placed_of_plain rfl] at hplaced
  simpa [placed_node, Form.Fits, Form.targets] using h.placed (by simpa using hplaced)

theorem Converts.keyed {key value target : Tree} (h : Converts value target) :
    Converts (node .property [key, value]) (node .property [key, target]) := by
  refine ⟨by simpa [Form.name?] using h.names, fun hplaced => ?_⟩
  rw [placed_of_plain rfl] at hplaced
  have hkey : key.Placed false := hplaced key (by simp)
  simpa [placed_node, Form.Fits, Form.targets, hkey] using h.placed (hplaced value (by simp))

theorem convertsAll_nil : ConvertsAll [] [] := ⟨List.Sublist.refl _, by simp⟩

-- The last part of a list takes the rest.
theorem convertsAll_spread {value : Tree} {made : Option Tree}
    (hmade : ∀ target, made = some target → Converts value target) {targets : List Tree}
    (h : (made.bind fun target => some [node .spread [target]]) = some targets) :
    ConvertsAll [node .spread [value]] targets := by
  obtain ⟨target, htarget, heq⟩ := Option.bind_eq_some_iff.mp h
  obtain rfl := Option.some.inj heq
  have hparts := ConvertsAll.single (hmade target htarget)
  exact .single (hparts.node rfl (fun _ => trivial) fun _ _ => rfl)

theorem convertsAll_of_bind {tree : Tree} {trees : List Tree} {first : Option Tree}
    {others : Option (List Tree)} (hfirst : ∀ target, first = some target → Converts tree target)
    (hothers : ∀ targets, others = some targets → ConvertsAll trees targets) {targets : List Tree}
    (h : (first.bind fun head => others.bind fun tail => some (head :: tail)) = some targets) :
    ConvertsAll (tree :: trees) targets := by
  obtain ⟨head, hhead, hmore⟩ := Option.bind_eq_some_iff.mp h
  obtain ⟨tail, htail, heq⟩ := Option.bind_eq_some_iff.mp hmore
  obtain rfl := Option.some.inj heq
  exact .cons (hfirst head hhead) (hothers tail htail)

-- By the cases of the five functions that make targets of each other's parts.
theorem target?_converts_all :
    (∀ tree, ∀ target, target? tree = some target → Converts tree target) ∧
    (∀ comma fields, ∀ targets, fields? comma fields = some targets → ConvertsAll fields targets) ∧
    (∀ tree, ∀ target, field? tree = some target → Converts tree target) ∧
    (∀ tree, ∀ target, element? tree = some target → Converts tree target) ∧
    ∀ comma items, ∀ targets, elements? comma items = some targets → ConvertsAll items targets := by
  apply target?.mutual_induct
  -- an expression
  case case1 =>
    intro comma items ih target h
    obtain ⟨inner, hinner, rfl⟩ := Option.map_eq_some_iff.mp h
    exact (ih inner hinner).node rfl (fun _ => trivial) fun _ _ => rfl
  case case2 =>
    intro comma fields ih target h
    obtain ⟨inner, hinner, rfl⟩ := Option.map_eq_some_iff.mp h
    exact (ih inner hinner).node rfl (fun _ => trivial) fun _ _ => rfl
  case case3 =>
    intro tree harray hobject target h
    rw [target?.eq_3 tree harray hobject] at h
    exact place?_converts h
  -- a field
  case case4 =>
    intro name span parts target h
    obtain rfl := Option.some.inj h
    exact converts_shorthand name span parts
  case case5 =>
    intro name span parts target h
    obtain rfl := Option.some.inj h
    exact converts_cover name span parts
  case case6 =>
    intro value ih target h
    obtain ⟨inner, hinner, heq⟩ := Option.bind_eq_some_iff.mp h
    obtain rfl := Option.some.inj heq
    exact (ih inner hinner).value
  case case7 =>
    intro key value ih target h
    obtain ⟨inner, hinner, heq⟩ := Option.bind_eq_some_iff.mp h
    obtain rfl := Option.some.inj heq
    exact (ih inner hinner).keyed
  case case8 =>
    intro tree hshorthand hcover hvalue hkeyed target h
    rw [field?.eq_5 tree hshorthand hcover hvalue hkeyed] at h
    cases h
  -- an element
  case case9 =>
    intro parts target h
    obtain rfl := Option.some.inj h
    exact converts_hole parts
  case case10 =>
    intro parts target h
    obtain rfl := Option.some.inj h
    exact converts_default parts
  case case11 =>
    intro comma items ih target h
    obtain ⟨inner, hinner, rfl⟩ := Option.map_eq_some_iff.mp h
    exact (ih inner hinner).node rfl (fun _ => trivial) fun _ _ => rfl
  case case12 =>
    intro comma fields ih target h
    obtain ⟨inner, hinner, rfl⟩ := Option.map_eq_some_iff.mp h
    exact (ih inner hinner).node rfl (fun _ => trivial) fun _ _ => rfl
  case case13 =>
    intro tree hhole hdefault harray hobject target h
    rw [element?.eq_5 tree hhole hdefault harray hobject] at h
    exact place?_converts h
  -- fields, of which the last may take the rest
  case case14 =>
    intro comma targets h
    obtain rfl := Option.some.inj h
    exact convertsAll_nil
  case case15 =>
    intro value targets h
    cases h
  case case16 =>
    intro comma value hcomma targets h
    rw [fields?, if_neg hcomma] at h
    exact convertsAll_spread (fun _ => place?_converts) h
  case case17 =>
    intro comma field rest hlast ihfield ihrest targets h
    rw [fields?.eq_3 comma field rest hlast] at h
    exact convertsAll_of_bind ihfield ihrest h
  -- elements, likewise
  case case18 =>
    intro comma targets h
    obtain rfl := Option.some.inj h
    exact convertsAll_nil
  case case19 =>
    intro value targets h
    cases h
  case case20 =>
    intro comma value hcomma ih targets h
    rw [elements?, if_neg hcomma] at h
    exact convertsAll_spread ih h
  case case21 =>
    intro comma item rest hlast ihitem ihrest targets h
    rw [elements?.eq_3 comma item rest hlast] at h
    exact convertsAll_of_bind ihitem ihrest h

theorem target?_converts {tree target : Tree} (h : tree.target? = some target) :
    Converts tree target :=
  target?_converts_all.1 tree target h

end Target

end Tree

end Treeshake.Ecma
