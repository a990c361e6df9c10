import Treeshake.Ecma.Scope
import Treeshake.Proofs.Ecma.Placement

namespace Treeshake.Ecma

section Declares

-- A tree declares a name for the nearest scope around it that reaches so far. Declarations for a
-- body pass through the blocks inside it.
inductive Declares : Reach → Tree → Known → Prop
  | bind (reach : Reach) (space : Space) (name : String) (parts : List Tree) :
    Declares reach (.node (.bind reach space name) parts) ⟨name, space⟩
  | part {reach : Reach} {form : Form} {parts : List Tree} {tree : Tree} {known : Known}
    (hbind : ∀ reach space name, form ≠ .bind reach space name)
    (hscope : ∀ reach, form ≠ .scope reach) (hmem : tree ∈ parts)
    (h : Declares reach tree known) : Declares reach (.node form parts) known
  | block {parts : List Tree} {tree : Tree} {known : Known} (hmem : tree ∈ parts)
    (h : Declares .body tree known) : Declares .body (.node (.scope .block) parts) known

variable {reach : Reach} {known : Known}

theorem declares_bind_iff {r : Reach} {space : Space} {name : String} {parts : List Tree} :
    Declares reach (.node (.bind r space name) parts) known ↔
      r = reach ∧ known = ⟨name, space⟩ := by
  constructor
  · intro h
    cases h with
    | bind => exact ⟨rfl, rfl⟩
    | part hbind => exact absurd rfl (hbind r space name)
  · rintro ⟨rfl, rfl⟩
    exact .bind r space name parts

theorem declares_scope_iff {r : Reach} {parts : List Tree} :
    Declares reach (.node (.scope r) parts) known ↔
      reach = .body ∧ r = .block ∧ ∃ tree ∈ parts, Declares .body tree known := by
  constructor
  · intro h
    cases h with
    | part _ hscope => exact absurd rfl (hscope r)
    | block hmem h => exact ⟨rfl, rfl, _, hmem, h⟩
  · rintro ⟨rfl, rfl, tree, hmem, h⟩
    exact .block hmem h

theorem declares_part_iff {form : Form} {parts : List Tree}
    (hbind : ∀ reach space name, form ≠ .bind reach space name)
    (hscope : ∀ reach, form ≠ .scope reach) :
    Declares reach (.node form parts) known ↔ ∃ tree ∈ parts, Declares reach tree known := by
  constructor
  · intro h
    cases h with
    | bind reach space name => exact absurd rfl (hbind reach space name)
    | part _ _ hmem h => exact ⟨_, hmem, h⟩
    | block => exact absurd rfl (hscope .block)
  · rintro ⟨tree, hmem, h⟩
    exact .part hbind hscope hmem h

theorem mem_declared_all :
    (∀ (reach : Reach) (tree : Tree), known ∈ tree.declared reach ↔ Declares reach tree known) ∧
    ∀ (reach : Reach) (parts : List Tree),
      known ∈ Tree.declaredAll reach parts ↔ ∃ tree ∈ parts, Declares reach tree known := by
  apply Tree.declared.mutual_induct
  case case1 =>
    intro r space name parts
    simp [Tree.declared, declares_bind_iff]
  case case2 =>
    intro reach r space name parts hne
    simp [Tree.declared, declares_bind_iff, hne]
  case case3 =>
    intro parts ih
    rw [Tree.declared, ih, declares_scope_iff]
    simp
  case case4 =>
    intro reach r parts hne
    rw [Tree.declared.eq_3 reach r parts hne, declares_scope_iff]
    simp only [List.not_mem_nil, false_iff]
    rintro ⟨hreach, hr, -⟩
    exact hne hreach hr
  case case5 =>
    intro reach form parts hbind hscope ih
    rw [Tree.declared.eq_4 reach form parts hbind hscope, ih, declares_part_iff hbind hscope]
  case case6 =>
    intro reach
    simp [Tree.declaredAll]
  case case7 =>
    intro reach tree rest ih ihrest
    rw [Tree.declaredAll, List.mem_append, ih, ihrest]
    simp

theorem mem_declaredAll_iff {parts : List Tree} :
    known ∈ Tree.declaredAll reach parts ↔ ∃ tree ∈ parts, Declares reach tree known :=
  mem_declared_all.2 reach parts

end Declares

-- A scope around a name: how far it reaches, and its parts.
structure Surrounding where
  reach : Reach
  parts : List Tree

namespace Surrounding

-- A scope knows what is declared in it for a block, and a whole body what is declared for bodies.
def Knows (s : Surrounding) (known : Known) : Prop :=
  ∃ tree ∈ s.parts, Declares .block tree known ∨ s.reach = .body ∧ Declares .body tree known

def known (s : Surrounding) : List Known := Tree.opens (.scope s.reach) s.parts

theorem mem_known_iff {s : Surrounding} {known : Known} : known ∈ s.known ↔ s.Knows known := by
  obtain ⟨reach, parts⟩ := s
  cases reach with
  | block => simp [Surrounding.known, Tree.opens, Knows, mem_declaredAll_iff]
  | body =>
    simp only [Surrounding.known, Tree.opens, Knows, List.mem_append, mem_declaredAll_iff, true_and]
    rw [← exists_or]
    simp only [and_or_left]

end Surrounding

-- A name that a script refers to. It is written if it stands in a target, and a field if it stands
-- for the key and the value of one.
structure Reference where
  name : String
  span : Text.Span
  space : Space
  written : Bool
  field : Bool
  around : List Surrounding

namespace Reference

-- No scope around the name knows something that it can mean.
def Free (r : Reference) : Prop :=
  ∀ s ∈ r.around, ∀ known, s.Knows known → known.name = r.name → r.space.meets known.space = false

theorem free_iff {r : Reference} :
    r.Free ↔ resolves (r.around.flatMap Surrounding.known) r.space r.name = false := by
  simp only [Free, resolves, List.any_eq_false, List.mem_flatMap, Surrounding.mem_known_iff,
    Bool.and_eq_true, beq_iff_eq, not_and, Bool.not_eq_true]
  constructor
  · rintro h known ⟨s, hs, hknown⟩ hname
    exact h s hs known hknown hname
  · intro h s hs known hknown hname
    exact h known ⟨s, hs, hknown⟩ hname

instance (r : Reference) : Decidable r.Free := decidable_of_iff _ free_iff.symm

-- A free name that is not written is read.
def mention? (r : Reference) : Option Mention :=
  if r.written = false ∧ r.Free then some ⟨r.name, r.span, r.field⟩ else none

end Reference

def Form.reference? (written : Bool) (around : List Surrounding) : Form → Option Reference
  | .use space name span => some ⟨name, span, space, written, false, around⟩
  | .shorthand name span => some ⟨name, span, .value, written, true, around⟩
  | .write name span => some ⟨name, span, .value, written, false, around⟩
  | _ => none

def Form.surround (form : Form) (parts : List Tree) (around : List Surrounding) :
    List Surrounding :=
  match form with
  | .scope reach => ⟨reach, parts⟩ :: around
  | _ => around

mutual

-- The names that a tree refers to, in their order, from where they stand.
def Tree.references (inTarget : Bool) (around : List Surrounding) : Tree → List Reference
  | .node form parts =>
    match form.reference? inTarget around with
    | some reference => [reference]
    | none => Tree.referencesAll (form.targets inTarget parts.length) 0
        (form.surround parts around) parts

def Tree.referencesAll (targets : Nat → Bool) (index : Nat) (around : List Surrounding) :
    List Tree → List Reference
  | [] => []
  | tree :: rest =>
    tree.references (targets index) around ++ Tree.referencesAll targets (index + 1) around rest

end

namespace Tree

theorem opens_append_known (form : Form) (parts : List Tree) (around : List Surrounding) :
    opens form parts ++ around.flatMap Surrounding.known =
      (form.surround parts around).flatMap Surrounding.known := by
  cases form with
  | scope reach => cases reach <;> rfl
  | _ => rfl

theorem mentions_of_reference {inTarget : Bool} {around : List Surrounding} {form : Form}
    {parts : List Tree} {reference : Reference}
    (h : form.reference? inTarget around = some reference)
    (hfits : form.Fits inTarget parts.length) :
    (node form parts).mentions (around.flatMap Surrounding.known) =
      reference.mention?.toList := by
  have hread {space : Space} {name : String} {span : Text.Span} {field : Bool} :
      (if resolves (around.flatMap Surrounding.known) space name then []
        else [(⟨name, span, field⟩ : Mention)]) =
      (Reference.mk name span space false field around).mention?.toList := by
    simp only [Reference.mention?, Reference.free_iff]
    cases resolves (around.flatMap Surrounding.known) space name <;> simp
  cases form <;> cases h
  case use space name span =>
    obtain rfl : inTarget = false := hfits
    rw [mentions]
    exact hread
  case shorthand name span =>
    obtain rfl : inTarget = false := hfits
    rw [mentions]
    exact hread
  case write name span =>
    obtain ⟨rfl, hparts⟩ := hfits
    obtain rfl := List.eq_nil_of_length_eq_zero hparts
    simp [mentions, mentionsAll, Reference.mention?]

-- What a script mentions is what it refers to, where names are marked as their places ask for.
theorem mentions_all :
    (∀ (inTarget : Bool) (around : List Surrounding) (tree : Tree), tree.Placed inTarget →
      tree.mentions (around.flatMap Surrounding.known) =
        (tree.references inTarget around).filterMap Reference.mention?) ∧
    ∀ (targets : Nat → Bool) (index : Nat) (around : List Surrounding) (parts : List Tree),
      PlacedAll targets index parts →
      mentionsAll (around.flatMap Surrounding.known) parts =
        (referencesAll targets index around parts).filterMap Reference.mention? := by
  apply references.mutual_induct
  case case1 =>
    intro inTarget around form parts reference href hplaced
    rw [placed_node] at hplaced
    rw [mentions_of_reference href hplaced.1, references, href]
    cases h : reference.mention? <;> simp [h]
  case case2 =>
    intro inTarget around form parts href ih hplaced
    rw [placed_node] at hplaced
    have huse (space : Space) (name : String) (span : Text.Span) : form ≠ .use space name span := by
      rintro rfl
      cases href
    have hshorthand (name : String) (span : Text.Span) : form ≠ .shorthand name span := by
      rintro rfl
      cases href
    rw [mentions.eq_3 _ form parts huse hshorthand, opens_append_known, references, href]
    exact ih hplaced.2
  case case3 =>
    intro targets index around _
    simp [mentionsAll, referencesAll]
  case case4 =>
    intro targets index around tree rest ih ihrest hplaced
    rw [placedAll_cons] at hplaced
    rw [mentionsAll, referencesAll, List.filterMap_append, ih hplaced.1, ihrest hplaced.2]

theorem mentions_eq {tree : Tree} (h : tree.Placed false) :
    tree.mentions [] = (tree.references false []).filterMap Reference.mention? :=
  mentions_all.1 false [] tree h

-- References are names of the tree, in their order.
theorem references_sublist_all :
    (∀ (inTarget : Bool) (around : List Surrounding) (tree : Tree),
      ((tree.references inTarget around).map fun r => (r.name, r.span)).Sublist tree.names) ∧
    ∀ (targets : Nat → Bool) (index : Nat) (around : List Surrounding) (parts : List Tree),
      ((referencesAll targets index around parts).map fun r => (r.name, r.span)).Sublist
        (namesAll parts) := by
  apply references.mutual_induct
  case case1 =>
    intro inTarget around form parts reference href
    have hname : form.name? = some (reference.name, reference.span) := by
      cases form <;> cases href
      all_goals rfl
    simp [references, href, hname]
  case case2 =>
    intro inTarget around form parts href ih
    rw [references, href, names_node]
    exact ih.trans (List.sublist_append_right _ _)
  case case3 =>
    intro targets index around
    simp [referencesAll]
  case case4 =>
    intro targets index around tree rest ih ihrest
    rw [referencesAll, List.map_append, namesAll_cons]
    exact ih.append ihrest

end Tree

end Treeshake.Ecma
