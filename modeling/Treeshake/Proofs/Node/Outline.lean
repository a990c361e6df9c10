import Treeshake.Node.Outline
import Treeshake.Proofs.Node.Place
import Treeshake.Proofs.Text.Lines
import Treeshake.Proofs.Usage.Contribution

namespace Treeshake

namespace Decimal

theorem break_not_mem_digits (n : Nat) : '\n' ∉ Nat.toDigits 10 n := by
  intro h
  exact absurd (Nat.isDigit_of_mem_toDigits (by decide) (by decide) h) (by decide)

-- A number is written in digits, zeros, a point, an exponent mark and its sign.
theorem break_not_mem_scientific (s : Scientific) : '\n' ∉ s.render.toList := by
  have hdigits := break_not_mem_digits s.digits
  have htake (n : Nat) : '\n' ∉ (Nat.toDigits 10 s.digits).take n :=
    fun h => hdigits (List.mem_of_mem_take h)
  have hdrop (n : Nat) : '\n' ∉ (Nat.toDigits 10 s.digits).drop n :=
    fun h => hdigits (List.mem_of_mem_drop h)
  have htail : '\n' ∉ (Nat.toDigits 10 s.digits).tail := fun h => hdigits (List.mem_of_mem_tail h)
  simp only [Scientific.render]
  split_ifs <;> simp [String.toList_append, hdigits, htake, hdrop, htail, break_not_mem_digits]

theorem break_not_mem_double (x : Float) : '\n' ∉ (render x).toList := by
  simp only [render, String.toList_append, List.mem_append, break_not_mem_scientific, or_false]
  split_ifs <;> simp

end Decimal

theorem Json.break_not_mem_number (n : Number) : '\n' ∉ (Json.renderNumber n).toList := by
  cases n with
  | natural n => simp [Json.renderNumber, Decimal.break_not_mem_digits]
  | negative n => simp [Json.renderNumber, Decimal.break_not_mem_digits]
  | real bits =>
    rw [Json.renderNumber, Json.renderReal]
    split_ifs
    · simp
    · exact Decimal.break_not_mem_double _

namespace Node

-- Neither the names of the fields nor the texts in them have line breaks.
def Unbroken (node : Json) : Prop :=
  ∀ field ∈ fieldsOf node, '\n' ∉ field.1.toList ∧
    ∀ text ∈ field.2.string?, '\n' ∉ text.toList

instance (node : Json) : Decidable (Unbroken node) :=
  inferInstanceAs (Decidable (∀ field ∈ fieldsOf node, _ ∧ _))

-- The line of a node, which tells its type and its plain fields.
def header (depth : Nat) (node : Json) : List Char :=
  (indent (2 * depth)).toList ++ ((type? node).getD "?").toList ++
    (inlineFields (fieldsOf node)).toList

-- The line over the nodes that a field holds.
def label (depth : Nat) (field : String) : List Char :=
  (indent (2 * depth + 1)).toList ++ '(' :: field.toList ++ [')']

-- The lines for a place in the part of a tree that starts at some depth: one for the node, and one
-- for the field that it is the first node of.
def Place.linesAt (base : Nat) (place : Place) : List (List Char) :=
  let depth := base + place.path.length
  match place.path.getLast? with
  | some step =>
    (if step.first then [label (depth - 1) step.field] else []) ++ [header depth place.node]
  | none => [header depth place.node]

def Place.lines (place : Place) : List (List Char) := place.linesAt 0

-- No hidden field leads to the place.
def Place.Shown (place : Place) : Prop := ∀ step ∈ place.path, step.field ∉ hiddenFields

instance (place : Place) : Decidable place.Shown :=
  inferInstanceAs (Decidable (∀ step ∈ place.path, _))

section Lines

variable {step : Step} {place : Place} {base : Nat}

theorem shown_below : (place.below step).Shown ↔ step.field ∉ hiddenFields ∧ place.Shown :=
  List.forall_mem_cons

theorem linesAt_here (base : Nat) (node : Json) :
    Place.linesAt base ⟨[], node⟩ = [header base node] := rfl

theorem linesAt_step (base : Nat) (step : Step) (node : Json) :
    Place.linesAt base ⟨[step], node⟩ =
      (if step.first then [label base step.field] else []) ++ [header (base + 1) node] := rfl

-- Farther down, the lines are those of the same place seen from the step.
theorem linesAt_below (h : place.path ≠ []) :
    (place.below step).linesAt base = place.linesAt (base + 1) := by
  obtain ⟨path, node⟩ := place
  obtain ⟨next, path, rfl⟩ := List.exists_cons_of_ne_nil h
  have hlength : base + (step :: next :: path).length = base + 1 + (next :: path).length := by
    simp only [List.length_cons]
    omega
  simp only [Place.linesAt, Place.below, List.getLast?_cons_cons, hlength]

-- The lines of all places that are shown below a node.
def shownLines (base : Nat) (node : Json) : List (List Char) :=
  ((places node).filter (·.Shown)).flatMap (·.linesAt base)

theorem path_ne_nil_of_mem_tail {node : Json} (h : place ∈ (places node).tail) :
    place.path ≠ [] := by
  rw [places_eq, List.tail_cons, List.mem_flatMap] at h
  obtain ⟨s, -, hbelow⟩ := h
  obtain ⟨below, -, rfl⟩ := List.mem_map.mp hbelow
  exact List.cons_ne_nil _ _

theorem places_cons (node : Json) : places node = ⟨[], node⟩ :: (places node).tail := by
  rw [places_eq, List.tail_cons]

theorem shownLines_cons (base : Nat) (node : Json) :
    shownLines base node =
      header base node :: ((places node).tail.filter (·.Shown)).flatMap (·.linesAt base) := by
  have hshown : Place.Shown ⟨[], node⟩ := nofun
  rw [shownLines, places_cons, List.filter_cons, if_pos (decide_eq_true hshown), List.flatMap_cons,
    linesAt_here, List.tail_cons, List.singleton_append]

theorem shownLines_below (base : Nat) (step : Step) (child : Json) :
    (((places child).map (·.below step)).filter (·.Shown)).flatMap (·.linesAt base) =
      if step.field ∈ hiddenFields then []
      else (if step.first then [label base step.field] else []) ++ shownLines (base + 1) child := by
  rw [List.filter_map, List.flatMap_map]
  by_cases hhidden : step.field ∈ hiddenFields
  · simp [Function.comp_def, shown_below, hhidden]
  have hfilter : (places child).filter ((·.Shown) ∘ (·.below step)) =
      ⟨[], child⟩ :: (places child).tail.filter (·.Shown) := by
    have hshown : Place.Shown (Place.below step ⟨[], child⟩) := shown_below.mpr ⟨hhidden, nofun⟩
    rw [places_cons, List.filter_cons, Function.comp_apply, if_pos (decide_eq_true hshown),
      List.tail_cons]
    simp only [Function.comp_def, shown_below, hhidden, not_false_eq_true, true_and]
  have htail : ∀ place ∈ (places child).tail.filter (·.Shown),
      (place.below step).linesAt base = place.linesAt (base + 1) :=
    fun place hplace => linesAt_below (path_ne_nil_of_mem_tail (List.mem_filter.mp hplace).1)
  rw [if_neg hhidden, hfilter, List.flatMap_cons, List.flatMap_congr htail, shownLines_cons,
    Place.below, linesAt_step, List.append_assoc, List.singleton_append]

theorem marked_lines (base : Nat) (field : String × Json) :
    ((marked field).flatMap fun m =>
      if m.1 ∈ hiddenFields then []
      else (if m.2.1 then [label base m.1] else []) ++ shownLines (base + 1) m.2.2) =
      if field.1 ∈ hiddenFields ∨ held field.2 = [] then []
      else label base field.1 :: (held field.2).flatMap (shownLines (base + 1)) := by
  unfold marked
  by_cases hhidden : field.1 ∈ hiddenFields
  · cases held field.2 <;> simp [hhidden]
  · cases held field.2 <;> simp [hhidden, List.flatMap_map]

-- The lines of a node and, field by field, of its children.
theorem shownLines_eq (base : Nat) (node : Json) :
    shownLines base node = header base node :: (fieldsOf node).flatMap fun field =>
      if field.1 ∈ hiddenFields ∨ held field.2 = [] then []
      else label base field.1 :: (held field.2).flatMap (shownLines (base + 1)) := by
  have hmarked : ((steps node).flatMap fun s =>
      (((places s.2).map (·.below s.1)).filter (·.Shown)).flatMap (·.linesAt base)) =
      ((steps node).map fun s => (s.1.field, s.1.first, s.2)).flatMap fun m =>
        if m.1 ∈ hiddenFields then []
        else (if m.2.1 then [label base m.1] else []) ++ shownLines (base + 1) m.2.2 := by
    rw [List.flatMap_map]
    exact List.flatMap_congr fun s _ => shownLines_below base s.1 s.2
  rw [shownLines_cons, places_eq, List.tail_cons, List.filter_flatMap, List.flatMap_assoc, hmarked,
    steps_marked, List.flatMap_assoc]
  exact congrArg _ (List.flatMap_congr fun field _ => marked_lines base field)

end Lines

section Text

theorem exists_object_of_mem_held {value child : Json} (h : child ∈ held value) :
    ∃ fields, child = .object fields := by
  cases value with
  | array items =>
    have hnode := (List.mem_filter.mp h).2
    cases child with
    | object fields => exact ⟨fields, rfl⟩
    | _ => cases hnode
  | object fields =>
    rw [held] at h
    split at h
    · exact ⟨fields, List.mem_singleton.mp h⟩
    · cases h
  | _ => cases h

theorem outlineItems_eq (depth : Nat) (items : List Json) :
    (outlineItems depth items).toList =
      (items.filter isNode).flatMap fun item => (outlineAt depth item).toList := by
  induction items with
  | nil => rfl
  | cons item rest ih =>
    rw [outlineItems, String.toList_append, ih, List.filter_cons]
    cases isNode item <;> rfl

theorem outlineFields_eq (depth : Nat) (fields : List (String × Json)) :
    (outlineFields depth fields).toList = fields.flatMap fun field =>
      if field.1 ∈ hiddenFields ∨ held field.2 = [] then []
      else (fieldLine field.1 depth).toList ++
        (held field.2).flatMap fun child => (outlineAt (depth + 2) child).toList := by
  induction fields with
  | nil => rfl
  | cons field rest ih =>
    obtain ⟨name, value⟩ := field
    rw [List.flatMap_cons, ← ih]
    cases value with
    | array items =>
      have hempty : (hiddenFields.contains name || !items.any isNode) = true ↔
          name ∈ hiddenFields ∨ held (.array items) = [] := by
        simp [held, List.filter_eq_nil_iff]
      rw [outlineFields, String.toList_append]
      by_cases h : name ∈ hiddenFields ∨ held (.array items) = []
      · rw [if_pos (hempty.mpr h), if_pos h]
        rfl
      · rw [if_neg (mt hempty.mp h), if_neg h, String.toList_append, outlineItems_eq, held]
    | object fields =>
      by_cases hnode : isNode (.object fields) = true
      · by_cases h : name ∈ hiddenFields <;> simp [outlineFields, outlineAt, held, hnode, h]
      · simp [outlineFields, held, hnode]
    | _ => rw [outlineFields] <;> simp [held]

theorem headLine_eq (base : Nat) (fields : List (String × Json)) :
    (headLine fields (2 * base)).toList = header base (.object fields) ++ ['\n'] := by
  simp [headLine, header, fieldsOf]

theorem fieldLine_eq (base : Nat) (field : String) :
    (fieldLine field (2 * base)).toList = label base field ++ ['\n'] := by
  simp [fieldLine, label]

theorem outlineAt_eq (base : Nat) (fields : List (String × Json)) :
    (outlineAt (2 * base) (.object fields)).toList =
      (shownLines base (.object fields)).flatMap (· ++ ['\n']) := by
  generalize hroot : Json.object fields = root
  induction root using childInduction generalizing base fields with
  | step root ih =>
    subst hroot
    have hchildren : ∀ field ∈ fields, ∀ child ∈ held field.2,
        (outlineAt (2 * base + 2) child).toList =
          (shownLines (base + 1) child).flatMap (· ++ ['\n']) := by
      intro field hfield child hchild
      obtain ⟨below, hbelow⟩ := exists_object_of_mem_held hchild
      have hmem : child ∈ children (.object fields) := by
        rw [children_eq]
        exact List.mem_flatMap.mpr ⟨field, hfield, hchild⟩
      exact ih child hmem (base + 1) below hbelow.symm
    have hfields : ∀ field ∈ fields,
        (if field.1 ∈ hiddenFields ∨ held field.2 = [] then []
          else (fieldLine field.1 (2 * base)).toList ++
            (held field.2).flatMap fun child => (outlineAt (2 * base + 2) child).toList) =
        (if field.1 ∈ hiddenFields ∨ held field.2 = [] then []
          else label base field.1 :: (held field.2).flatMap (shownLines (base + 1))).flatMap
          (· ++ ['\n']) := by
      intro field hfield
      split_ifs
      · rfl
      · rw [fieldLine_eq, List.flatMap_cons, List.flatMap_assoc,
          List.flatMap_congr (hchildren field hfield)]
    rw [outlineAt, String.toList_append, headLine_eq, outlineFields_eq, shownLines_eq,
      List.flatMap_cons, List.flatMap_assoc]
    exact congrArg _ (List.flatMap_congr hfields)

end Text

section Unbroken

variable {node : Json} {base : Nat}

theorem mem_fieldsOf_of_field? {name : String} {value : Json} (h : node.field? name = some value) :
    (name, value) ∈ fieldsOf node := by
  cases node with
  | object fields =>
    obtain ⟨front, back, hfields, -⟩ := List.lookup_eq_some_iff.mp h
    simp [fieldsOf, hfields]
  | _ => cases h

theorem break_not_mem_indent (depth : Nat) : '\n' ∉ (indent depth).toList := by
  simp [indent]

theorem Unbroken.not_mem_type (h : Unbroken node) : '\n' ∉ ((type? node).getD "?").toList := by
  cases htype : type? node with
  | none => decide
  | some name =>
    obtain ⟨value, hvalue, hname⟩ := Option.bind_eq_some_iff.mp htype
    exact (h _ (mem_fieldsOf_of_field? hvalue)).2 name hname

theorem toList_joined (texts : List String) :
    ("".intercalate texts).toList = texts.flatMap String.toList := by
  rw [String.toList_intercalate]
  cases texts with
  | nil => rfl
  | cons text texts =>
    rw [List.map_cons, Text.intercalate_cons, List.flatMap_map]
    rfl

theorem Unbroken.not_mem_inlineFields (h : Unbroken node) :
    '\n' ∉ (inlineFields (fieldsOf node)).toList := by
  have hfield : ∀ field ∈ fieldsOf node, '\n' ∉ (inlineField field.1 field.2).toList := by
    intro field hfield
    obtain ⟨hname, htext⟩ := h field hfield
    cases hvalue : field.2 with
    | string text => simp [inlineField, hname, htext text (hvalue ▸ rfl)]
    | number n => simp [inlineField, hname, Json.break_not_mem_number]
    | bool b => cases b <;> simp [inlineField, hname]
    | _ => simp [inlineField]
  intro hmem
  rw [inlineFields, toList_joined, List.flatMap_map, List.mem_flatMap] at hmem
  obtain ⟨⟨name, value⟩, hshown, hmem⟩ := hmem
  dsimp only at hmem
  split_ifs at hmem
  · simp at hmem
  · exact hfield (name, value) hshown hmem

theorem Unbroken.not_mem_header (h : Unbroken node) (depth : Nat) : '\n' ∉ header depth node := by
  simp [header, break_not_mem_indent, h.not_mem_type, h.not_mem_inlineFields]

theorem break_not_mem_label (depth : Nat) {name : String} (h : '\n' ∉ name.toList) :
    '\n' ∉ label depth name := by
  simp [label, break_not_mem_indent, h]

theorem break_not_mem_shownLines (h : ∀ target ∈ preorder node, Unbroken target) :
    ∀ line ∈ shownLines base node, '\n' ∉ line := by
  induction node using childInduction generalizing base with
  | step node ih =>
    have hnode := h node (mem_preorder_self node)
    intro line hline
    rw [shownLines_eq, List.mem_cons, List.mem_flatMap] at hline
    rcases hline with rfl | ⟨field, hfield, hline⟩
    · exact hnode.not_mem_header base
    split_ifs at hline
    · cases hline
    rw [List.mem_cons, List.mem_flatMap] at hline
    rcases hline with rfl | ⟨child, hchild, hline⟩
    · exact break_not_mem_label base (hnode field hfield).1
    · have hmem : child ∈ children node := by
        rw [children_eq]
        exact List.mem_flatMap.mpr ⟨field, hfield, hchild⟩
      exact ih child hmem (fun target htarget => h target (mem_preorder_of_child hmem htarget))
        line hline

end Unbroken

section Shown

theorem shown_of_held_nil {root : Json}
    (h : ∀ node ∈ preorder root, ∀ field ∈ fieldsOf node, field.1 ∈ hiddenFields →
      held field.2 = []) :
    ∀ place ∈ places root, place.Shown := by
  intro place hplace step hstep hhidden
  obtain ⟨node, hnode, child, hchild⟩ := (mem_places_iff.mp hplace).exists_of_mem hstep
  obtain ⟨field, hfield, hname, hheld⟩ := exists_field_of_mem_steps hchild
  rw [h node hnode field hfield (hname ▸ hhidden)] at hheld
  cases hheld

theorem nodup_places (root : Json) : (places root).Nodup := by
  refine (places_increasing root).imp fun {a b} hlt heq => ?_
  subst heq
  exact List.lt_irrefl a.indices hlt

-- The lines of an outline are those of a part of the places, in the order of the tree: of all that
-- no hidden field leads to, and of none that positions or comments lead to. Nothing is missing if no
-- hidden field holds a node.
theorem outline_lines (fields : List (String × Json))
    (h : ∀ node ∈ preorder (.object fields), Unbroken node) :
    let root := Json.object fields
    (places root).map Place.node = findAll root (fun _ => true) ∧ (places root).Nodup ∧
    ∃ shown : List Place, shown.Sublist (places root) ∧
      Text.pieces ['\n'] (outline root).toList = shown.flatMap Place.lines ++ [[]] ∧
      (∀ place ∈ places root, place.Shown → place ∈ shown) ∧
      (∀ place ∈ shown, ∀ step ∈ place.path, step.field ∈ hiddenFields → step.field = "value") ∧
      ((∀ node ∈ preorder root, ∀ field ∈ fieldsOf node, field.1 ∈ hiddenFields →
        held field.2 = []) → shown = places root) := by
  intro root
  have hnodes : (places root).map Place.node = findAll root (fun _ => true) := by
    rw [places_nodes, findAll, List.filter_true]
  have hlines : Text.pieces ['\n'] (outline root).toList =
      ((places root).filter (·.Shown)).flatMap Place.lines ++ [[]] := by
    have htext := outlineAt_eq 0 fields
    have hnone : ∀ line ∈ shownLines 0 root, '\n' ∉ line := break_not_mem_shownLines h
    have hbreaks := Text.pieces_whole_lines hnone
    rw [← htext] at hbreaks
    exact hbreaks
  refine ⟨hnodes, nodup_places root, (places root).filter (·.Shown), List.filter_sublist, hlines,
    ?_, ?_, ?_⟩
  · intro place hplace hshown
    exact List.mem_filter.mpr ⟨hplace, decide_eq_true hshown⟩
  · intro place hplace step hstep hhidden
    have hshown : place.Shown := of_decide_eq_true (List.mem_filter.mp hplace).2
    exact absurd hhidden (hshown step hstep)
  · intro hnone
    exact List.filter_eq_self.mpr fun place hplace =>
      decide_eq_true (shown_of_held_nil hnone place hplace)

def comment : Json := .object [("type", .string "Line"), ("value", .string " entry")]

def entry : Json :=
  .object [("type", .string "ExpressionStatement"), ("expression", identifier "app")]

-- A script of one statement, with a comment before it.
def commented : List (String × Json) :=
  [("type", .string "Program"), ("sourceType", .string "module"),
    ("leadingComments", .array [comment]), ("body", .array [entry])]

theorem comment_mem_places :
    ⟨[⟨0, "leadingComments", true⟩], comment⟩ ∈ places (.object commented) := by
  have hstep : (⟨0, "leadingComments", true⟩, comment) ∈ steps (.object commented) :=
    List.mem_of_getElem? (i := 0) rfl
  exact mem_places_iff.mpr (.down hstep (.here comment))

theorem outline_commented : Text.pieces ['\n'] (outline (.object commented)).toList =
    ["Program sourceType:module".toList, "  (body)".toList, "    ExpressionStatement".toList,
      "      (expression)".toList, "        Identifier name:app".toList] ++ [[]] := by
  decide +kernel

-- The statement and its name have a line each, below a label each, and the comment has none.
theorem outline_lines_commented :
    (∀ node ∈ preorder (.object commented), Unbroken node) ∧
    ∃ shown : List Place, shown.Sublist (places (.object commented)) ∧
      Text.pieces ['\n'] (outline (.object commented)).toList =
        shown.flatMap Place.lines ++ [[]] ∧
      shown.flatMap Place.lines =
        ["Program sourceType:module".toList, "  (body)".toList, "    ExpressionStatement".toList,
          "      (expression)".toList, "        Identifier name:app".toList] ∧
      ⟨[], .object commented⟩ ∈ shown ∧ ⟨[⟨1, "body", true⟩], entry⟩ ∈ shown ∧
      ⟨[⟨1, "body", true⟩, ⟨0, "expression", true⟩], identifier "app"⟩ ∈ shown ∧
      ⟨[⟨0, "leadingComments", true⟩], comment⟩ ∈ places (.object commented) ∧
      ⟨[⟨0, "leadingComments", true⟩], comment⟩ ∉ shown := by
  have h : ∀ node ∈ preorder (.object commented), Unbroken node := by decide +kernel
  obtain ⟨-, -, shown, hsub, hlines, hall, hhidden, -⟩ := outline_lines commented h
  have hentry : (⟨1, "body", true⟩, entry) ∈ steps (.object commented) :=
    List.mem_of_getElem? (i := 1) rfl
  have hname : (⟨0, "expression", true⟩, identifier "app") ∈ steps entry :=
    List.mem_of_getElem? (i := 0) rfl
  have hshown : shown.flatMap Place.lines = _ :=
    List.append_cancel_right (hlines.symm.trans outline_commented)
  refine ⟨h, shown, hsub, hlines, hshown, ?_, ?_, ?_, comment_mem_places, fun hmem => ?_⟩
  · exact hall _ (mem_places_iff.mpr (.here _)) (by decide)
  · exact hall _ (mem_places_iff.mpr (.down hentry (.here _))) (by decide)
  · exact hall _ (mem_places_iff.mpr (.down hentry (.down hname (.here _)))) (by decide)
  · exact absurd (hhidden _ hmem _ List.mem_cons_self (by decide)) (by decide)

-- The comment is in the tree, and no line of the outline tells of it.
theorem comment_is_left_out :
    ¬∀ fields, (∀ node ∈ preorder (.object fields), Unbroken node) →
      Text.pieces ['\n'] (outline (.object fields)).toList =
        (places (.object fields)).flatMap Place.lines ++ [[]] := by
  intro hall
  have hlines := hall commented (by decide +kernel)
  have hheader : header 1 comment ∈ (places (.object commented)).flatMap Place.lines ++ [[]] := by
    refine List.mem_append_left _ (List.mem_flatMap.mpr ⟨_, comment_mem_places, ?_⟩)
    exact List.mem_of_getElem? (i := 1) rfl
  rw [← hlines, outline_commented] at hheader
  exact absurd hheader (by decide +kernel)

end Shown

end Node

end Treeshake
