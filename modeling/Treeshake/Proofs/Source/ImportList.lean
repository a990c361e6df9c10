import Treeshake.Proofs.Text.Pieces
import Treeshake.Proofs.Text.Trim
import Treeshake.Source.Import

namespace Treeshake.Source.Import

open Barrel (Blanks)

def IsNameChar (c : Char) : Prop := Unicode.isWord c = true ∨ c = '$'

-- What a list can name: word characters and dollar signs.
def IsName (word : List Char) : Prop := word ≠ [] ∧ ∀ c ∈ word, IsNameChar c

-- The import of one name as it is written, with the break at its end.
def Specifier.text (path : String) (s : Specifier) : List Char :=
  "import \x7b ".toList ++ (s.imported ++ (" as ".toList ++ (s.bound ++
    (" \x7d from '".toList ++ (path.toList ++ "';\n".toList)))))

theorem line_eq (path : String) : line path = Specifier.text path := by
  funext s
  delta line Specifier.text
  rw [String.toList_append, String.toList_append]
  simp only [List.append_assoc]

-- The part of an item behind its first name, from the blanks before `as` on.
structure Renaming where
  before : List Char
  after : List Char
  bound : List Char
  before_blank : Blanks before
  before_ne : before ≠ []
  after_blank : Blanks after
  after_ne : after ≠ []
  bound_name : IsName bound

structure Item where
  lead : List Char
  name : List Char
  renamed : Option Renaming
  trail : List Char
  lead_blank : Blanks lead
  name_name : IsName name
  trail_blank : Blanks trail

def Renaming.text (r : Renaming) : List Char := r.before ++ "as".toList ++ r.after ++ r.bound

def Item.text (i : Item) : List Char :=
  i.lead ++ i.name ++ (i.renamed.elim [] Renaming.text) ++ i.trail

-- What the item says: its name, and the name that it gets.
def Item.specifier (i : Item) : Specifier := ⟨i.name, i.renamed.elim i.name Renaming.bound⟩

-- Plain spaces touch a word on both sides, and the word is `as`.
def ReadsAs (before word after : List Char) : Prop :=
  ∃ front rest, before = front ++ [' '] ∧ word = "as".toList ∧ after = ' ' :: rest

-- The reader sees the `as` that is meant, before and behind no other one. A second one behind it
-- makes the new name the old one, which does no harm if they are the same.
def Item.Spaced (i : Item) : Prop :=
  match i.renamed with
  | none => ¬ReadsAs i.lead i.name i.trail
  | some r =>
    ReadsAs r.before "as".toList r.after ∧ ¬ReadsAs i.lead i.name r.before ∧
      (ReadsAs r.after.tail r.bound i.trail → r.bound = i.name)

instance (c : Char) : Decidable (IsNameChar c) := inferInstanceAs (Decidable (_ ∨ _))

instance (word : List Char) : Decidable (IsName word) := inferInstanceAs (Decidable (_ ∧ _))

theorem IsNameChar.not_blank {c : Char} (h : IsNameChar c) : Unicode.isBlank c = false := by
  rcases h with hword | rfl
  · exact Unicode.isBlank_eq_false_of_isWord hword
  · decide

theorem IsName.not_blank {word : List Char} (h : IsName word) :
    ∀ c ∈ word, Unicode.isBlank c = false := fun c hc => (h.2 c hc).not_blank

theorem head_not_blank {word : List Char} (h : ∀ c ∈ word, Unicode.isBlank c = false)
    (hne : word ≠ []) (rest : List Char) :
    ∀ c ∈ (word ++ rest).head?, Unicode.isBlank c = false := by
  cases word with
  | nil => exact absurd rfl hne
  | cons d word => simpa using h d

theorem specifier?_of_empty_piece {item front : List Char} {others : List (List Char)}
    (h : Text.pieces " as ".toList item = front :: others) (hfront : Blanks front) :
    specifier? item = none := by
  rw [specifier?, h, List.map_cons, Text.trim_blanks hfront]
  rfl

theorem specifier?_of_piece {item front : List Char}
    (h : Text.pieces " as ".toList item = [front]) (hfront : Text.trim front ≠ []) :
    specifier? item = some ⟨Text.trim front, Text.trim front⟩ := by
  have hfull : (Text.trim front).isEmpty = false := by simpa using hfront
  rw [specifier?, h]
  simp [hfull]

theorem specifier?_of_two_pieces {item front second : List Char} {others : List (List Char)}
    (h : Text.pieces " as ".toList item = front :: second :: others)
    (hfront : Text.trim front ≠ []) :
    specifier? item = some ⟨Text.trim front,
      if Text.trim second = [] then Text.trim front else Text.trim second⟩ := by
  have hfull : (Text.trim front).isEmpty = false := by simpa using hfront
  rw [specifier?, h]
  by_cases hsecond : Text.trim second = []
  · simp [hfull, hsecond, Option.filter]
  · simp [hfull, hsecond, Option.filter]

theorem imported_eq_trim {item front : List Char} {others : List (List Char)} {s : Specifier}
    (h : Text.pieces " as ".toList item = front :: others) (hread : specifier? item = some s) :
    s.imported = Text.trim front := by
  rw [specifier?, h, List.map_cons] at hread
  simp only [Option.ite_none_left_eq_some, Option.some.injEq] at hread
  rw [← hread.2]

-- Two separators share no more than the space between them.
theorem prefix_of_prefix_append {after behind : List Char} (hne : after ≠ [])
    (h : " as ".toList <+: after ++ (" as ".toList ++ behind)) :
    " as ".toList <+: after ++ [' '] := by
  rcases after with _ | ⟨a, _ | ⟨b, _ | ⟨c, after⟩⟩⟩
  · exact absurd rfl hne
  · simp at h
  · simp at h
  · cases after with
    | nil => simpa using h
    | cons d after => simpa using h

theorem cutFirst_of_absent {front behind : List Char}
    (h : ¬" as ".toList <:+: front ++ [' ']) : Text.CutFirst " as ".toList front behind := by
  rintro before after rfl hne hfront
  apply h
  rw [List.append_assoc]
  exact (prefix_of_prefix_append hne hfront).isInfix.trans (List.suffix_append _ _).isInfix

theorem blanks_space {blanks : List Char} (h : Blanks blanks) : Blanks (blanks ++ [' ']) := by
  intro c hc
  rcases List.mem_append.mp hc with hc | hc
  · exact h c hc
  · rw [List.mem_singleton.mp hc]
    decide

theorem blanks_of_append {front rest : List Char} (h : Blanks (front ++ rest)) : Blanks front :=
  fun c hc => h c (List.mem_append_left rest hc)

theorem blanks_of_cons {c : Char} {rest : List Char} (h : Blanks (c :: rest)) : Blanks rest :=
  fun d hd => h d (List.mem_cons_of_mem c hd)

theorem not_infix_of_blanks {blanks : List Char} (h : Blanks blanks) :
    ¬" as ".toList <:+: blanks := by
  intro hin
  have hblank := h 'a' (hin.subset (by decide))
  revert hblank
  decide

theorem pieces_blanks {blanks : List Char} (h : Blanks blanks) (behind : List Char) :
    Text.pieces " as ".toList (blanks ++ (" as ".toList ++ behind)) =
      blanks :: Text.pieces " as ".toList behind := by
  apply Text.pieces_of_cutFirst (by decide)
  apply cutFirst_of_absent
  exact not_infix_of_blanks (blanks_space h)

-- Between blanks a name reads as the separator only if it is `as` with a space on both sides.
theorem infix_iff_readsAs {before word after : List Char} (hbefore : Blanks before)
    (hword : IsName word) (hafter : Blanks after) :
    " as ".toList <:+: before ++ word ++ after ↔ ReadsAs before word after := by
  constructor
  · rintro ⟨front, rest, h⟩
    have hmeet : (front ++ [' ']) ++ ('a' :: 's' :: ' ' :: rest) = before ++ (word ++ after) := by
      simpa using h
    -- the space in front of `as` is the last of the blanks, since no name holds it
    have hfront : before = front ++ [' '] := by
      rcases List.append_eq_append_iff.mp hmeet with ⟨more, hmore, hrest⟩ | ⟨more, hmore, hrest⟩
      · cases more with
        | nil => simpa using hmore
        | cons c more =>
          obtain ⟨rfl, -⟩ := List.cons.inj hrest
          exact absurd (hbefore 'a' (by rw [hmore]; simp)) (by decide)
      · by_cases hnone : more = []
        · rw [hmore, hnone, List.append_nil]
        have hspace : ' ' ∈ more := by
          have hlast := congrArg List.getLast? hmore
          rw [List.getLast?_concat, List.getLast?_append_of_ne_nil before hnone] at hlast
          exact List.mem_of_getLast? hlast.symm
        rcases List.append_eq_append_iff.mp hrest with ⟨gap, -, hback⟩ | ⟨gap, hgap, -⟩
        · exact absurd (hafter 'a' (by rw [hback]; simp)) (by decide)
        · exact absurd (hword.not_blank ' ' (by rw [hgap]; simp [hspace])) (by decide)
    subst hfront
    have hword' : "as".toList ++ ' ' :: rest = word ++ after := List.append_cancel_left hmeet
    have hspan := Text.span_unique (p := fun c => !Unicode.isBlank c) hword' (by decide)
      (fun c hc => by simp [hword.not_blank c hc]) (by simp; decide)
      (fun c hc => by simp [hafter c (List.mem_of_mem_head? hc)])
    exact ⟨front, rest, rfl, hspan.1.symm, hspan.2.symm⟩
  · rintro ⟨front, rest, rfl, rfl, rfl⟩
    exact ⟨front, rest, by simp⟩

theorem specifier?_of_readsAs {lead word rest : List Char} (hlead : Blanks lead)
    (h : ∃ after, ReadsAs lead word after ∧ after <+: rest) :
    specifier? (lead ++ word ++ rest) = none := by
  obtain ⟨_, ⟨front, gap, rfl, rfl, rfl⟩, more, rfl⟩ := h
  have hfront := blanks_of_append hlead
  have htext : front ++ [' '] ++ "as".toList ++ (' ' :: gap ++ more) =
      front ++ (" as ".toList ++ (gap ++ more)) := by simp
  rw [htext, specifier?_of_empty_piece (pieces_blanks hfront _) hfront]

theorem specifier?_plain {lead name trail : List Char} (hlead : Blanks lead) (hname : IsName name)
    (htrail : Blanks trail) (h : ¬ReadsAs lead name trail) :
    specifier? (lead ++ name ++ trail) = some ⟨name, name⟩ := by
  have htrim := Text.trim_name hlead htrail hname.not_blank
  rw [← infix_iff_readsAs hlead hname htrail] at h
  have hread := specifier?_of_piece (Text.pieces_of_absent h) (htrim.symm ▸ hname.1)
  rwa [htrim] at hread

section Renamed

variable {lead name gap rest bound trail : List Char} (hlead : Blanks lead) (hname : IsName name)
  (hgap : Blanks gap) (hrest : Blanks rest) (hbound : IsName bound) (htrail : Blanks trail)
  (h : ¬ReadsAs lead name (gap ++ [' ']))

include hlead hname hgap h in
theorem pieces_renamed (behind : List Char) :
    Text.pieces " as ".toList (lead ++ name ++ gap ++ (" as ".toList ++ behind)) =
      (lead ++ name ++ gap) :: Text.pieces " as ".toList behind := by
  rw [← infix_iff_readsAs hlead hname (blanks_space hgap), ← List.append_assoc] at h
  exact Text.pieces_of_cutFirst (by decide) (cutFirst_of_absent h)

include hlead hname hgap hrest hbound htrail h in
theorem specifier?_renamed (hplain : ¬ReadsAs rest bound trail) :
    specifier? (lead ++ name ++ gap ++ (" as ".toList ++ (rest ++ bound ++ trail))) =
      some ⟨name, bound⟩ := by
  have hfront := Text.trim_name hlead hgap hname.not_blank
  have hsecond := Text.trim_name hrest htrail hbound.not_blank
  rw [← infix_iff_readsAs hrest hbound htrail] at hplain
  have hpieces := pieces_renamed hlead hname hgap h (rest ++ bound ++ trail)
  rw [Text.pieces_of_absent hplain] at hpieces
  have hread := specifier?_of_two_pieces hpieces (hfront.symm ▸ hname.1)
  rwa [hfront, hsecond, if_neg hbound.1] at hread

include hlead hname hgap hrest h in
-- A new name that reads as `as` once more is nothing to the reader, which keeps the old name.
theorem specifier?_renamed_as (has : ReadsAs rest bound trail) :
    specifier? (lead ++ name ++ gap ++ (" as ".toList ++ (rest ++ bound ++ trail))) =
      some ⟨name, name⟩ := by
  obtain ⟨front, more, rfl, rfl, rfl⟩ := has
  have hblank := blanks_of_append hrest
  have htext : front ++ [' '] ++ "as".toList ++ ' ' :: more =
      front ++ (" as ".toList ++ more) := by simp
  have hfront := Text.trim_name hlead hgap hname.not_blank
  have hpieces := pieces_renamed hlead hname hgap h (front ++ (" as ".toList ++ more))
  rw [pieces_blanks hblank] at hpieces
  have hread := specifier?_of_two_pieces hpieces (hfront.symm ▸ hname.1)
  rw [htext]
  rwa [hfront, Text.trim_blanks hblank, if_pos rfl] at hread

end Renamed

-- An item whose first name is read as it is written has a separator behind that name.
theorem readsAs_of_imported {lead name before after behind : List Char} {s : Specifier}
    (hlead : Blanks lead) (hname : IsName name) (hbefore : Blanks before) (hafter : after ≠ [])
    (hread : specifier? (lead ++ (name ++ (before ++ ("as".toList ++ (after ++ behind))))) = some s)
    (hs : s.imported = name) : ReadsAs before "as".toList after := by
  have halign (front rest : List Char) (hfront : Blanks front)
      (h : lead ++ (name ++ (before ++ ("as".toList ++ (after ++ behind)))) =
        front ++ (name ++ rest)) :
      before ++ ("as".toList ++ (after ++ behind)) = rest := by
    have hspan := Text.span_unique h hlead hfront (head_not_blank hname.not_blank hname.1 _)
      (head_not_blank hname.not_blank hname.1 _)
    exact List.append_cancel_left hspan.2
  by_cases hin :
      " as ".toList <:+: lead ++ (name ++ (before ++ ("as".toList ++ (after ++ behind))))
  · obtain ⟨first, rest, htext, hcut⟩ := Text.exists_cutFirst_of_present (by decide) hin
    rw [htext] at hread
    have hfirst := imported_eq_trim (Text.pieces_of_cutFirst (by decide) hcut) hread
    obtain ⟨front, trail, hfront, htrail, hparts⟩ := Text.exists_trim first
    rw [← hfirst, hs] at hparts
    have hrest := halign front (trail ++ (" as ".toList ++ rest)) hfront
      (by rw [htext, hparts]; simp)
    have hmeet : before ++ ("as".toList ++ (after ++ behind)) =
        trail ++ [' '] ++ ("as ".toList ++ rest) := by simpa using hrest
    have hspan := Text.span_unique hmeet hbefore (blanks_space htrail) (by simp; decide)
      (by simp; decide)
    obtain ⟨rfl, hafterwards⟩ := hspan
    cases after with
    | nil => exact absurd rfl hafter
    | cons c after =>
      have hc : c = ' ' := by
        simp at hafterwards
        exact hafterwards.1
      exact ⟨trail, after, rfl, rfl, by rw [hc]⟩
  · have hwhole := imported_eq_trim (Text.pieces_of_absent hin) hread
    obtain ⟨front, trail, hfront, htrail, hparts⟩ :=
      Text.exists_trim (lead ++ (name ++ (before ++ ("as".toList ++ (after ++ behind)))))
    rw [← hwhole, hs, List.append_assoc] at hparts
    have hrest := halign front trail hfront (by simpa using hparts)
    exact absurd (htrail 'a' (by rw [← hrest]; simp)) (by decide)

-- An item is read as it is written exactly if it is spaced so that the reader sees its `as`.
theorem specifier?_eq_iff (i : Item) : specifier? i.text = some i.specifier ↔ i.Spaced := by
  obtain ⟨lead, name, renamed, trail, hlead, hname, htrail⟩ := i
  cases renamed with
  | none =>
    simp only [Item.text, Item.specifier, Item.Spaced, Option.elim_none, List.append_nil]
    constructor
    · intro hread has
      rw [specifier?_of_readsAs hlead ⟨trail, has, List.prefix_refl _⟩] at hread
      cases hread
    · exact specifier?_plain hlead hname htrail
  | some r =>
    obtain ⟨before, after, bound, hbefore, -, hafter, hne, hbound⟩ := r
    simp only [Item.text, Item.specifier, Item.Spaced, Option.elim_some, Renaming.text]
    have htext (gap rest : List Char) :
        lead ++ name ++ (gap ++ [' '] ++ "as".toList ++ ' ' :: rest ++ bound) ++ trail =
          lead ++ name ++ gap ++ (" as ".toList ++ (rest ++ bound ++ trail)) := by simp
    have hshape : lead ++ name ++ (before ++ "as".toList ++ after ++ bound) ++ trail =
        lead ++ (name ++ (before ++ ("as".toList ++ (after ++ (bound ++ trail))))) := by simp
    constructor
    · intro hread
      have hfirst : ¬ReadsAs lead name before := by
        intro has
        rw [List.append_assoc _ _ trail, specifier?_of_readsAs hlead
          ⟨before, has, by simp⟩] at hread
        cases hread
      have has : ReadsAs before "as".toList after :=
        readsAs_of_imported hlead hname hbefore hne (by rw [← hshape]; exact hread) rfl
      refine ⟨has, hfirst, fun hagain => ?_⟩
      obtain ⟨gap, rest, rfl, -, rfl⟩ := has
      have hgap := blanks_of_append hbefore
      have hrest := blanks_of_cons hafter
      have hkept := specifier?_renamed_as hlead hname hgap hrest hfirst hagain
      rw [htext, hkept] at hread
      simpa using hread.symm
    · rintro ⟨⟨gap, rest, rfl, -, rfl⟩, hfirst, hagain⟩
      have hgap := blanks_of_append hbefore
      have hrest := blanks_of_cons hafter
      rw [htext]
      by_cases has : ReadsAs rest bound trail
      · have hsame : bound = name := hagain has
        rw [specifier?_renamed_as hlead hname hgap hrest hfirst has, hsame]
      · exact specifier?_renamed hlead hname hgap hrest hbound htrail hfirst has

-- Items between commas, and blanks behind a last comma if there is one.
def listText (items : List Item) (closing : Option (List Char)) : List Char :=
  [','].intercalate (items.map Item.text ++ closing.toList)

theorem comma_not_mem_blanks {blanks : List Char} (h : Blanks blanks) : ',' ∉ blanks :=
  fun hmem => absurd (h ',' hmem) (by decide)

theorem comma_not_mem_name {word : List Char} (h : IsName word) : ',' ∉ word := by
  intro hmem
  rcases h.2 ',' hmem with hword | hdollar
  · revert hword
    decide
  · revert hdollar
    decide

theorem Item.comma_not_mem (i : Item) : ',' ∉ i.text := by
  have hlead := comma_not_mem_blanks i.lead_blank
  have hname := comma_not_mem_name i.name_name
  have htrail := comma_not_mem_blanks i.trail_blank
  rw [Item.text]
  cases i.renamed with
  | none => simp [hlead, hname, htrail]
  | some r =>
    have hbefore := comma_not_mem_blanks r.before_blank
    have hafter := comma_not_mem_blanks r.after_blank
    have hbound := comma_not_mem_name r.bound_name
    simp [Renaming.text, hlead, hname, htrail, hbefore, hafter, hbound]

theorem IsNameChar.listed {c : Char} (h : IsNameChar c) : isListed c = true := by
  rcases h with hword | rfl
  · simp [isListed, hword]
  · decide

theorem listed_of_blanks {blanks : List Char} (h : Blanks blanks) :
    ∀ c ∈ blanks, isListed c = true :=
  fun c hc => by simp [isListed, h c hc]

theorem Item.listed (i : Item) : ∀ c ∈ i.text, isListed c = true := by
  have hlead := listed_of_blanks i.lead_blank
  have htrail := listed_of_blanks i.trail_blank
  intro c hc
  simp only [Item.text, List.mem_append] at hc
  rcases hc with ((hc | hc) | hc) | hc
  · exact hlead c hc
  · exact (i.name_name.2 c hc).listed
  · cases hrenamed : i.renamed with
    | none => simp [hrenamed] at hc
    | some r =>
      simp only [hrenamed, Option.elim_some, Renaming.text, List.mem_append] at hc
      rcases hc with ((hc | hc) | hc) | hc
      · exact listed_of_blanks r.before_blank c hc
      · revert c
        decide
      · exact listed_of_blanks r.after_blank c hc
      · exact (r.bound_name.2 c hc).listed
  · exact htrail c hc

theorem listed_listText {items : List Item} {closing : Option (List Char)}
    (hclosing : ∀ blanks ∈ closing, Blanks blanks) :
    ∀ c ∈ listText items closing, isListed c = true := by
  intro c hc
  rcases Text.mem_intercalate hc with rfl | ⟨part, hpart, hc⟩
  · decide
  · rcases List.mem_append.mp hpart with hitem | hlast
    · obtain ⟨i, -, rfl⟩ := List.mem_map.mp hitem
      exact i.listed c hc
    · exact listed_of_blanks (hclosing part (by simpa using hlast)) c hc

theorem listText_ne_nil {items : List Item} (hitems : items ≠ []) (closing : Option (List Char)) :
    listText items closing ≠ [] := by
  cases items with
  | nil => exact absurd rfl hitems
  | cons i items =>
    have hname := i.name_name.1
    rw [listText, List.map_cons, List.cons_append]
    cases items.map Item.text ++ closing.toList with
    | nil => simp [List.intercalate, Item.text, hname]
    | cons next parts => simp

theorem specifier?_of_blanks {blanks : List Char} (h : Blanks blanks) : specifier? blanks = none :=
  specifier?_of_empty_piece (Text.pieces_of_absent (not_infix_of_blanks h)) h

theorem specifiers_listText {items : List Item} {closing : Option (List Char)}
    (hclosing : ∀ blanks ∈ closing, Blanks blanks) :
    specifiers (listText items closing) = items.filterMap fun i => specifier? i.text := by
  by_cases hnone : items.map Item.text ++ closing.toList = []
  · obtain ⟨hitems, -⟩ := List.append_eq_nil_iff.mp hnone
    rw [listText, hnone, List.map_eq_nil_iff.mp hitems]
    rfl
  have hcommas : ∀ part ∈ items.map Item.text ++ closing.toList, ',' ∉ part := by
    intro part hpart
    rcases List.mem_append.mp hpart with hitem | hlast
    · obtain ⟨i, -, rfl⟩ := List.mem_map.mp hitem
      exact i.comma_not_mem
    · exact comma_not_mem_blanks (hclosing part (by simpa using hlast))
  have hend : closing.toList.filterMap specifier? = [] := by
    rw [List.filterMap_eq_nil_iff]
    intro blanks hblanks
    exact specifier?_of_blanks (hclosing blanks (by simpa using hblanks))
  rw [specifiers, listText, Text.pieces_intercalate hnone hcommas, List.filterMap_append, hend,
    List.append_nil, List.filterMap_map]
  rfl

-- A list is read as it is written exactly if every item is spaced well. Otherwise an item is lost
-- or is read as another one.
theorem specifiers_listText_eq_iff {items : List Item} {closing : Option (List Char)}
    (hclosing : ∀ blanks ∈ closing, Blanks blanks) :
    specifiers (listText items closing) = items.map Item.specifier ↔ ∀ i ∈ items, i.Spaced := by
  rw [specifiers_listText hclosing]
  simp only [← specifier?_eq_iff]
  exact List.filterMap_eq_map_iff_forall_eq_some

end Treeshake.Source.Import
