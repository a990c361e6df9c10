import Treeshake.Proofs.Json.Literal
import Treeshake.Proofs.Json.Put

namespace Treeshake.Json

-- A field as it stands in the text of an object.
def fieldText (field : String × Json) : List Char :=
  (literal field.1).toList ++ ':' :: field.2.render.toList

namespace Reader

theorem peek_cons {c : Char} (h : isBlank c = false) (text : List Char) :
    peek (c :: text) = .ok (some c, c :: text) := by
  rw [peek, List.dropWhile_cons_of_neg (by simp [h])]
  rfl

theorem value_of_scalar {depth : Nat} {c : Char} {text rest : List Char} {v : Json}
    (hblank : isBlank c = false) (h : scalar? c (c :: text) = .ok (some v, rest)) :
    value depth (c :: text) = .ok (v, rest) := by
  have hwith (container : Char → Reader Json) :
      valueWith container (c :: text) = .ok (v, rest) := by
    rw [valueWith, bind_of_ok (peek_cons hblank text)]
    change (scalar? c >>= _) (c :: text) = _
    rw [bind_of_ok h]
    rfl
  cases depth with
  | zero => exact hwith _
  | succ depth => exact hwith _

theorem value_of_brace {depth : Nat} {text rest : List Char} {fields : List (String × Json)}
    (h : fieldsFrom (value depth) true [] (text.length + 1) text = .ok (fields, rest)) :
    value (depth + 1) ('\x7b' :: text) = .ok (.object fields, rest) := by
  change (fieldsFrom (value depth) true [] (text.length + 1) >>=
    fun fields => pure (Json.object fields)) text = _
  rw [bind_of_ok h]
  rfl

-- The rest of a literal, and what is made of its text.
theorem string_then {α : Type} (make : String → α) (text : String) (rest : List Char) :
    (string >>= fun s => pure (make s) : Reader α) (text.toList.flatMap escape ++ '"' :: rest) =
      .ok (make text, rest) := by
  rw [bind_of_ok (string_flatMap_escape text rest)]
  rfl

theorem scalar_literal (text : String) (rest : List Char) :
    scalar? '"' ((literal text).toList ++ rest) = .ok (some (.string text), rest) := by
  rw [toList_literal]
  exact string_then (fun s => some (Json.string s)) text rest

section Fields

theorem anotherField_first (name : String) (rest : List Char) :
    anotherField true ((literal name).toList ++ rest) = .ok (some name, rest) := by
  rw [toList_literal]
  exact string_then some name rest

theorem anotherField_next (name : String) (rest : List Char) :
    anotherField false (',' :: ((literal name).toList ++ rest)) = .ok (some name, rest) := by
  rw [toList_literal]
  exact string_then some name rest

theorem anotherField_end (first : Bool) (rest : List Char) :
    anotherField first ('\x7d' :: rest) = .ok (none, '\x7d' :: rest) := by
  cases first <;> rfl

variable {item : Reader Json} {first : Bool} {done : List (String × Json)}

theorem fieldsFrom_field {name : String} {v : Json} {text rest : List Char}
    (hname : anotherField first text = .ok (some name, ':' :: (v.render.toList ++ rest)))
    (hitem : item (v.render.toList ++ rest) = .ok (v, rest)) (fuel : Nat) :
    fieldsFrom item first done (fuel + 1) text =
      fieldsFrom item false (Json.put name v done) fuel rest := by
  rw [fieldsFrom, bind_of_ok hname]
  change (colon >>= fun _ => item >>= fun v => fieldsFrom item false (Json.put name v done) fuel)
    (':' :: (v.render.toList ++ rest)) = _
  rw [bind_of_ok rfl]
  change (item >>= fun v => fieldsFrom item false (Json.put name v done) fuel)
    (v.render.toList ++ rest) = _
  rw [bind_of_ok hitem]

theorem fieldsFrom_end (fuel : Nat) (rest : List Char) :
    fieldsFrom item first done (fuel + 1) ('\x7d' :: rest) = .ok (done, rest) := by
  rw [fieldsFrom, bind_of_ok (anotherField_end first rest)]
  rfl

-- The fields behind the first one. No name comes twice, so each field is put behind the others.
theorem fieldsFrom_flatMap {fields : List (String × Json)} {fuel : Nat} {rest : List Char}
    (hnames : ((done ++ fields).map Prod.fst).Nodup)
    (hitem : ∀ field ∈ fields, ∀ rest, item (field.2.render.toList ++ rest) = .ok (field.2, rest))
    (hfuel : fields.length < fuel) :
    fieldsFrom item false done fuel
      (fields.flatMap (fun field => ',' :: fieldText field) ++ '\x7d' :: rest) =
        .ok (done ++ fields, rest) := by
  induction fields generalizing done fuel with
  | nil =>
    obtain ⟨fuel, rfl⟩ := Nat.exists_eq_add_one_of_ne_zero (Nat.ne_zero_of_lt hfuel)
    rw [List.append_nil]
    exact fieldsFrom_end fuel rest
  | cons field fields ih =>
    obtain ⟨fuel, rfl⟩ := Nat.exists_eq_add_one_of_ne_zero (Nat.ne_zero_of_lt hfuel)
    have hnew : ∀ other ∈ done, other.1 ≠ field.1 := by
      rw [List.map_append, List.nodup_append] at hnames
      intro other hother
      exact hnames.2.2 other.1 (List.mem_map_of_mem hother) field.1 (by simp)
    have htext : (field :: fields).flatMap (fun field => ',' :: fieldText field) ++ '\x7d' :: rest =
        ',' :: ((literal field.1).toList ++ ':' :: (field.2.render.toList ++
          (fields.flatMap (fun field => ',' :: fieldText field) ++ '\x7d' :: rest))) := by
      simp [fieldText]
    have hassoc : done ++ field :: fields = (done ++ [field]) ++ fields := by simp
    rw [htext, fieldsFrom_field (anotherField_next field.1 _)
      (hitem field List.mem_cons_self _), put_of_new hnew, hassoc]
    exact ih (hassoc ▸ hnames) (fun other hother => hitem other (List.mem_cons_of_mem field hother))
      (Nat.lt_of_succ_lt_succ hfuel)

end Fields

end Reader

-- Nothing behind the text of the value is taken with it.
def ReadsBack (depth : Nat) (v : Json) : Prop :=
  ∀ rest, Reader.value depth (v.render.toList ++ rest) = .ok (v, rest)

variable {depth : Nat}

theorem readsBack_bool (b : Bool) : ReadsBack depth (.bool b) := by
  intro rest
  cases b <;> exact Reader.value_of_scalar rfl rfl

theorem readsBack_string (text : String) : ReadsBack depth (.string text) := by
  intro rest
  have hscalar := Reader.scalar_literal text rest
  rw [toList_literal] at hscalar
  rw [render, toList_literal]
  exact Reader.value_of_scalar rfl hscalar

theorem map_renderFields (fields : List (String × Json)) :
    (renderFields fields).map String.toList = fields.map fieldText := by
  induction fields with
  | nil => rfl
  | cons field fields ih =>
    have hfield : (literal field.1 ++ ":" ++ field.2.render).toList = fieldText field := by
      simp [fieldText]
    rw [renderFields, List.map_cons, List.map_cons, hfield, ih]

theorem render_object (field : String × Json) (fields : List (String × Json)) (rest : List Char) :
    (object (field :: fields)).render.toList ++ rest =
      '\x7b' :: (fieldText field ++
        (fields.flatMap (fun field => ',' :: fieldText field) ++ '\x7d' :: rest)) := by
  rw [render, String.toList_append, String.toList_append, String.toList_intercalate,
    map_renderFields, List.map_cons, Text.intercalate_cons, List.flatMap_map]
  simp

theorem readsBack_object {fields : List (String × Json)} (hnames : (fields.map Prod.fst).Nodup)
    (h : ∀ field ∈ fields, ReadsBack depth field.2) : ReadsBack (depth + 1) (.object fields) := by
  intro rest
  cases fields with
  | nil => rfl
  | cons field fields =>
    have hfields (fuel : Nat) (hfuel : fields.length < fuel) :
        Reader.fieldsFrom (Reader.value depth) true [] (fuel + 1)
          (fieldText field ++
            (fields.flatMap (fun field => ',' :: fieldText field) ++ '\x7d' :: rest)) =
          .ok (field :: fields, rest) := by
      have hfirst := h field List.mem_cons_self
      rw [fieldText, List.append_assoc, List.cons_append,
        Reader.fieldsFrom_field (Reader.anotherField_first field.1 _) (hfirst _) fuel]
      exact Reader.fieldsFrom_flatMap hnames
        (fun other hother => h other (List.mem_cons_of_mem field hother)) hfuel
    have hcount := Text.length_le_flatMap (fun field => ',' :: fieldText field)
      (fun _ => List.cons_ne_nil _ _) fields
    rw [render_object]
    apply Reader.value_of_brace
    apply hfields
    rw [List.length_append, List.length_append, List.length_cons]
    omega

theorem parse_render {v : Json} (h : ReadsBack depthLimit v) : parse v.render = .ok v := by
  have hvalue := h []
  rw [List.append_nil] at hvalue
  rw [parse, Reader.run']
  change (·.1) <$> (Reader.value depthLimit >>= fun v => Reader.finish >>= fun _ => pure v)
    v.render.toList = _
  rw [Reader.bind_of_ok hvalue]
  rfl

end Treeshake.Json
