import Treeshake.Ecma.Scope

namespace Treeshake.Ecma

section Equality

mutual

def Tree.decEq : (a b : Tree) → Decidable (a = b)
  | .node form parts, .node form' parts' =>
    if hform : form = form' then
      match Tree.decEqAll parts parts' with
      | .isTrue hparts => .isTrue (by rw [hform, hparts])
      | .isFalse hparts => .isFalse (by simp [hparts])
    else .isFalse (by simp [hform])

def Tree.decEqAll : (a b : List Tree) → Decidable (a = b)
  | [], [] => .isTrue rfl
  | [], _ :: _ => .isFalse (by simp)
  | _ :: _, [] => .isFalse (by simp)
  | tree :: rest, tree' :: rest' =>
    match Tree.decEq tree tree', Tree.decEqAll rest rest' with
    | .isTrue htree, .isTrue hrest => .isTrue (by rw [htree, hrest])
    | .isFalse htree, _ => .isFalse (by simp [htree])
    | _, .isFalse hrest => .isFalse (by simp [hrest])

end

instance : DecidableEq Tree := Tree.decEq

end Equality

-- A form without its place in the source.
def Form.bare : Form → Form
  | .use space name _ => .use space name default
  | .shorthand name _ => .shorthand name default
  | .cover name _ => .cover name default
  | .write name _ => .write name default
  | form => form

mutual

def Tree.bare : Tree → Tree
  | .node form parts => .node form.bare (Tree.bareAll parts)

def Tree.bareAll : List Tree → List Tree
  | [] => []
  | tree :: rest => tree.bare :: Tree.bareAll rest

end

mutual

-- A tree with literals for the free names that are replaced, given what is known around it. A
-- shorthand field becomes one with a key.
def Tree.fill (replaced : String → Bool) (known : List Known) : Tree → Tree
  | .node (.use space name span) parts =>
    if replaced name && !resolves known space name then .of (Tree.fillAll replaced known parts)
    else .node (.use space name span) parts
  | .node (.shorthand name span) parts =>
    if replaced name && !resolves known .value name then
      .node .property [.of (Tree.fillAll replaced known parts)]
    else .node (.shorthand name span) parts
  | .node form parts =>
    .node form (Tree.fillAll replaced (Tree.opens form parts ++ known) parts)

def Tree.fillAll (replaced : String → Bool) (known : List Known) : List Tree → List Tree
  | [] => []
  | tree :: rest => tree.fill replaced known :: Tree.fillAll replaced known rest

end

namespace Tree

-- What a node declares depends on its parts only through what these declare.
theorem declared_congr {parts parts' : List Tree}
    (h : ∀ reach, declaredAll reach parts = declaredAll reach parts') (form : Form)
    (reach : Reach) : (node form parts).declared reach = (node form parts').declared reach := by
  cases form with
  | scope r => cases reach <;> cases r <;> simp [declared, h]
  | bind => simp [declared]
  | _ => simp [declared, h]

theorem opens_congr {parts parts' : List Tree}
    (h : ∀ reach, declaredAll reach parts = declaredAll reach parts') (form : Form) :
    opens form parts = opens form parts' := by
  cases form with
  | scope reach => cases reach <;> simp [opens, h]
  | _ => rfl

section Bare

theorem declared_bare_all :
    (∀ (tree : Tree) (reach : Reach), tree.bare.declared reach = tree.declared reach) ∧
    ∀ (parts : List Tree) (reach : Reach),
      declaredAll reach (bareAll parts) = declaredAll reach parts := by
  apply bare.mutual_induct
  case case1 =>
    intro form parts ih reach
    have hform : (node form.bare (bareAll parts)).declared reach =
        (node form (bareAll parts)).declared reach := by
      cases form <;> simp [Form.bare, declared]
    rw [bare, hform]
    exact declared_congr ih form reach
  case case2 =>
    intro reach
    rfl
  case case3 =>
    intro tree rest ih ihrest reach
    rw [bareAll, declaredAll, declaredAll, ih, ihrest]

theorem mentions_bare_all :
    (∀ (tree : Tree) (known : List Known),
      (tree.bare.mentions known).map (·.name) = (tree.mentions known).map (·.name)) ∧
    ∀ (parts : List Tree) (known : List Known),
      (mentionsAll known (bareAll parts)).map (·.name) =
        (mentionsAll known parts).map (·.name) := by
  apply bare.mutual_induct
  case case1 =>
    intro form parts ih known
    have hopens := opens_congr (declared_bare_all.2 parts)
    cases form <;> simp only [bare, Form.bare, mentions, hopens, ih]
    case use space name span => cases resolves known space name <;> rfl
    case shorthand name span => cases resolves known .value name <;> rfl
    all_goals rfl
  case case2 =>
    intro known
    rfl
  case case3 =>
    intro tree rest ih ihrest known
    rw [bareAll, mentionsAll, mentionsAll, List.map_append, List.map_append, ih, ihrest]

end Bare

section Fill

variable (replaced : String → Bool)

theorem declared_fill_all :
    (∀ (known : List Known) (tree : Tree) (reach : Reach),
      (tree.fill replaced known).declared reach = tree.declared reach) ∧
    ∀ (known : List Known) (parts : List Tree) (reach : Reach),
      declaredAll reach (fillAll replaced known parts) = declaredAll reach parts := by
  apply fill.mutual_induct
  case case1 =>
    intro known space name span parts hread ih reach
    rw [fill, if_pos hread, of]
    simp only [declared, ih]
  case case2 =>
    intro known space name span parts hread reach
    rw [fill, if_neg hread]
  case case3 =>
    intro known name span parts hread ih reach
    rw [fill, if_pos hread, of]
    simp only [declared, declaredAll, ih, List.append_nil]
  case case4 =>
    intro known name span parts hread reach
    rw [fill, if_neg hread]
  case case5 =>
    intro known form parts huse hshorthand ih reach
    rw [fill.eq_3 _ _ form parts huse hshorthand]
    exact declared_congr ih form reach
  case case6 =>
    intro known reach
    rfl
  case case7 =>
    intro known tree rest ih ihrest reach
    rw [fillAll, declaredAll, declaredAll, ih, ihrest]

-- No replaced name is left to be read.
theorem mentions_fill_all :
    (∀ (known : List Known) (tree : Tree),
      ∀ m ∈ (tree.fill replaced known).mentions known, replaced m.name = false) ∧
    ∀ (known : List Known) (parts : List Tree),
      ∀ m ∈ mentionsAll known (fillAll replaced known parts), replaced m.name = false := by
  apply fill.mutual_induct
  case case1 =>
    intro known space name span parts hread ih
    rw [fill, if_pos hread, of]
    simpa only [mentions, opens, List.nil_append] using ih
  case case2 =>
    intro known space name span parts hread m hm
    rw [fill, if_neg hread, mentions] at hm
    split at hm
    · cases hm
    · next hfree =>
      obtain rfl := List.mem_singleton.mp hm
      simpa [hfree] using hread
  case case3 =>
    intro known name span parts hread ih
    rw [fill, if_pos hread, of]
    simpa only [mentions, mentionsAll, opens, List.nil_append, List.append_nil] using ih
  case case4 =>
    intro known name span parts hread m hm
    rw [fill, if_neg hread, mentions] at hm
    split at hm
    · cases hm
    · next hfree =>
      obtain rfl := List.mem_singleton.mp hm
      simpa [hfree] using hread
  case case5 =>
    intro known form parts huse hshorthand ih
    have hopens := opens_congr
      ((declared_fill_all replaced).2 (opens form parts ++ known) parts) form
    rw [fill.eq_3 _ _ form parts huse hshorthand, mentions.eq_3 _ _ _ huse hshorthand, hopens]
    exact ih
  case case6 =>
    intro known m hm
    cases hm
  case case7 =>
    intro known tree rest ih ihrest m hm
    rw [fillAll, mentionsAll, List.mem_append] at hm
    exact hm.elim (ih m) (ihrest m)

variable {replaced} in
-- A script that differs from a filled one in places only reads no replaced name.
theorem not_replaced_of_bare_eq {tree tree' : Tree}
    (h : tree'.bare = (tree.fill replaced []).bare) :
    ∀ m ∈ tree'.mentions [], replaced m.name = false := by
  intro m hm
  have hnames : (tree'.mentions []).map (·.name) =
      ((tree.fill replaced []).mentions []).map (·.name) := by
    rw [← mentions_bare_all.1 tree', h, mentions_bare_all.1]
  have hmem : m.name ∈ (tree'.mentions []).map (·.name) := List.mem_map_of_mem hm
  rw [hnames] at hmem
  obtain ⟨m', hm', hname⟩ := List.mem_map.mp hmem
  rw [← hname]
  exact (mentions_fill_all replaced).1 [] tree m' hm'

end Fill

end Tree

end Treeshake.Ecma
