import Treeshake.Proofs.Ecma.Spelling
import Treeshake.Sentinel.Table

namespace Treeshake.Sentinel

open Ecma Text

-- A character that names of constants have.
def IsCapital (x : Char) : Prop := x = '_' ∨ x.isUpper = true

instance (x : Char) : Decidable (IsCapital x) := inferInstanceAs (Decidable (_ ∨ _))

-- A character that no spelling of a name in capitals has.
def IsForeign (x : Char) : Prop := ¬IsCapital x ∧ x ≠ '\\' ∧ ¬IsEscapeMark x

instance (x : Char) : Decidable (IsForeign x) := inferInstanceAs (Decidable (_ ∧ _ ∧ _))

section Spelling

variable {name spelled front back before behind : List Char}

theorem not_mem_of_isForeign {x : Char} (hspelling : Spelling name spelled)
    (hname : ∀ y ∈ name, IsCapital y) (hx : IsForeign x) : x ∉ spelled := by
  intro hmem
  obtain ⟨hcapital, hslash, hmark⟩ := hx
  rcases hspelling.mem hmem with hmem | heq | h
  · exact hcapital (hname x hmem)
  · exact hslash heq
  · exact hmark h

-- A word around a foreign character: letters up to it, which would continue a name, and no capitals
-- behind it, which could begin one.
theorem apart_of_word (word : List Char) (x : Char) {rest : List Char}
    (hcut : front ++ (word ++ x :: rest ++ back) = before ++ (spelled ++ behind))
    (hspelling : Spelling name spelled) (hname : ∀ y ∈ name, IsCapital y) (hne : spelled ≠ [])
    (hends : ∀ y more, behind = y :: more → continuesName y = false) (hx : IsForeign x)
    (hword : (word ++ [x]).all continuesName)
    (hrest : rest.all fun y => !decide (IsCapital y) && y != '\\') :
    byteLength before + byteLength spelled ≤ byteLength front ∨
      byteLength front + byteLength (word ++ x :: rest) ≤ byteLength before := by
  have hcut' : (front ++ word) ++ x :: (rest ++ back) = before ++ (spelled ++ behind) := by
    simpa using hcut
  rcases exists_beside (not_mem_of_isForeign hspelling hname hx) hcut' with
    ⟨gap, hfront, hbehind⟩ | ⟨gap, hbefore, hback⟩
  · -- A spelling that ends inside the word would be continued by the next letter.
    rw [← List.append_assoc] at hfront
    rcases List.append_eq_append_iff.mp hfront with ⟨passed, -, hpassed⟩ | ⟨gap', hfront', -⟩
    · have hmore : ∃ y more, behind = y :: more ∧ y ∈ word ++ [x] := by
        cases gap with
        | nil => exact ⟨x, _, hbehind, by simp⟩
        | cons y gap => exact ⟨y, _, hbehind, by simp [hpassed]⟩
      obtain ⟨y, more, hstop, hy⟩ := hmore
      exact absurd (List.all_eq_true.mp hword y hy) (by simp [hends y more hstop])
    · rw [hfront', byteLength_append, byteLength_append]
      omega
  · -- A spelling that begins inside the word would have its first character there.
    rcases List.append_eq_append_iff.mp hback with ⟨passed, hgap, -⟩ | ⟨more, hrest', hmore⟩
    · rw [hbefore, hgap]
      simp only [byteLength_append, byteLength_cons]
      omega
    · obtain ⟨y, spelled, rfl⟩ := List.exists_cons_of_ne_nil hne
      rcases List.cons_eq_append_iff.mp hmore with ⟨rfl, -⟩ | ⟨more, rfl, -⟩
      · rw [hbefore, hrest', List.append_nil]
        simp only [byteLength_append, byteLength_cons]
        omega
      · have hy := List.all_eq_true.mp hrest y (by simp [hrest'])
        simp only [Bool.and_eq_true, Bool.not_eq_true', decide_eq_false_iff_not, bne_iff_ne] at hy
        rcases hspelling.head with heq | hmem
        · exact absurd heq hy.2
        · exact absurd (hname y hmem) hy.1

-- A name may only stand between the quotes of a text, or outside.
theorem apart_or_inside_of_quoted {quoted : List Char}
    (hcut : front ++ ('"' :: quoted ++ ['"'] ++ back) = before ++ (spelled ++ behind))
    (hspelling : Spelling name spelled) (hname : ∀ y ∈ name, IsCapital y) :
    (byteLength before + byteLength spelled ≤ byteLength front ∨
      byteLength front + byteLength ('"' :: quoted ++ ['"']) ≤ byteLength before) ∨
    byteLength front < byteLength before ∧
      byteLength before + byteLength spelled <
        byteLength front + byteLength ('"' :: quoted ++ ['"']) := by
  have hquote : '"' ∉ spelled := not_mem_of_isForeign hspelling hname (by decide)
  have hpos := '"'.utf8Size_pos
  have hcut' : front ++ '"' :: (quoted ++ '"' :: back) = before ++ (spelled ++ behind) := by
    simpa using hcut
  rcases exists_beside hquote hcut' with ⟨gap, hfront, -⟩ | ⟨gap, hbefore, hquoted⟩
  · left; left
    rw [hfront, byteLength_append, byteLength_append]
    omega
  rcases exists_beside hquote hquoted with ⟨gap', hgap, -⟩ | ⟨gap', hgap, -⟩
  · right
    rw [hbefore, hgap]
    simp only [byteLength_append, byteLength]
    omega
  · left; right
    rw [hbefore, hgap]
    simp only [byteLength_append, byteLength]
    omega

end Spelling

namespace Table

variable {release name literal : String} {settings : Settings} {target : Target}

theorem mem_entries_of_get? {table : Table} (h : table.get? name = some literal) :
    (name, literal) ∈ table.entries := by
  rw [get?, List.lookup_eq_some_iff] at h
  obtain ⟨front, back, hentries, -⟩ := h
  simp [hentries]

theorem exists_value_of_get? (h : (ofBuild release settings target).get? name = some literal) :
    ∃ value, (name, value) ∈ values release settings target ∧ literal = value.render := by
  obtain ⟨⟨name', value⟩, hmem, heq⟩ := List.mem_map.mp (mem_entries_of_get? h)
  obtain ⟨rfl, rfl⟩ := Prod.mk.inj heq
  exact ⟨value, hmem, rfl⟩

theorem isCapital_of_get? (h : (ofBuild release settings target).get? name = some literal) :
    ∀ x ∈ name.toList, IsCapital x := by
  obtain ⟨value, hmem, -⟩ := exists_value_of_get? h
  have hnames : name ∈ [version, ssr, ssrServer, ssrClient, ssrPwa] :=
    List.mem_map_of_mem (f := Prod.fst) hmem
  have hcapitals : [version, ssr, ssrServer, ssrClient, ssrPwa].all fun name =>
      name.toList.all (IsCapital ·) := by decide
  intro x hx
  exact of_decide_eq_true (List.all_eq_true.mp (List.all_eq_true.mp hcapitals name hnames) x hx)

-- A constant is a truth value or the release.
theorem literal_of_get? (h : (ofBuild release settings target).get? name = some literal) :
    literal = "true" ∨ literal = "false" ∨ name = version ∧ literal = Json.literal release := by
  obtain ⟨value, hmem, rfl⟩ := exists_value_of_get? h
  have htruth (b : Bool) : (Json.bool b).render = "true" ∨ (Json.bool b).render = "false" := by
    cases b <;> simp [Json.render]
  simp only [values, List.mem_cons, List.not_mem_nil, or_false, Prod.mk.injEq] at hmem
  rcases hmem with ⟨rfl, rfl⟩ | ⟨-, rfl⟩ | ⟨-, rfl⟩ | ⟨-, rfl⟩ | ⟨-, rfl⟩
  · exact .inr (.inr ⟨rfl, rfl⟩)
  all_goals exact (htruth _).imp_right .inl

end Table

end Treeshake.Sentinel
