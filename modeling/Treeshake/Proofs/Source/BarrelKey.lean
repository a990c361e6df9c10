import Mathlib.Data.List.TakeWhile
import Treeshake.Source.Barrel

namespace Treeshake.Source.Barrel

def Blanks (text : List Char) : Prop := ∀ c ∈ text, Unicode.isBlank c = true

-- A property of the members of a list is tried on these, not on every character that there is.
instance (priority := high) decidableForallMem {α : Type} {p : α → Prop} [DecidablePred p]
    (list : List α) : Decidable (∀ x ∈ list, p x) := List.decidableBAll p list

instance (text : List Char) : Decidable (Blanks text) := inferInstanceAs (Decidable (∀ c ∈ text, _))

-- A mark and a word, which blanks may set apart.
def IsKey (mark : Char) (word key : List Char) : Prop :=
  ∃ blanks, Blanks blanks ∧ key = mark :: (blanks ++ word)

-- A word in front of the text goes no further.
def EndsWord (text : List Char) : Prop := ∀ c ∈ text.head?, Unicode.isWord c = false

-- A key in front of the text has a value of its own.
def Expanded (text : List Char) : Prop :=
  ∃ blanks rest, Blanks blanks ∧ text = blanks ++ ':' :: rest

def StartsWithKey (mark : Char) (word text behind : List Char) : Prop :=
  ∃ key, IsKey mark word key ∧ text = key ++ behind ∧ EndsWord behind

-- The first components key of a text, told without the functions that seek it: with what precedes
-- it and what stands behind it.
def FirstKey (text through behind : List Char) : Prop :=
  ∃ front key, IsKey '\x7b' componentsKey.toList key ∧ EndsWord behind ∧
    through = front ++ key ∧ text = through ++ behind ∧
    ∀ front' rest behind', text = front' ++ rest →
      StartsWithKey '\x7b' componentsKey.toList rest behind' → front.length ≤ front'.length

-- A components key stands somewhere in a text.
def HasKey (text : List Char) : Prop :=
  ∃ front rest behind, text = front ++ rest ∧
    StartsWithKey '\x7b' componentsKey.toList rest behind

-- A directives key that comes next and has no value of its own.
def NextKey (text through behind : List Char) : Prop :=
  ∃ blanks key, Blanks blanks ∧ IsKey ',' directivesKey.toList key ∧ EndsWord behind ∧
    ¬Expanded behind ∧ through = blanks ++ key ∧ text = through ++ behind

theorem trimStart_append {blanks text : List Char} (hblanks : Blanks blanks)
    (htext : ∀ c ∈ text.head?, Unicode.isBlank c = false) :
    Text.trimStart (blanks ++ text) = text := by
  rw [Text.trimStart, List.dropWhile_append_of_pos hblanks]
  cases text with
  | nil => rfl
  | cons c rest => exact List.dropWhile_cons_of_neg (by simp [htext c rfl])

theorem exists_blanks (text : List Char) :
    ∃ blanks, Blanks blanks ∧ text = blanks ++ Text.trimStart text :=
  ⟨text.takeWhile Unicode.isBlank, fun _ hc => List.mem_takeWhile_imp hc,
    List.takeWhile_append_dropWhile.symm⟩

theorem isExpanded_iff {text : List Char} : isExpanded text = true ↔ Expanded text := by
  rw [isExpanded, beq_iff_eq]
  constructor
  · intro h
    obtain ⟨blanks, hblanks, htext⟩ := exists_blanks text
    obtain ⟨rest, hrest⟩ := List.head?_eq_some_iff.mp h
    exact ⟨blanks, rest, hblanks, hrest ▸ htext⟩
  · rintro ⟨blanks, rest, hblanks, rfl⟩
    rw [trimStart_append hblanks (by simp; decide)]
    rfl

theorem afterWord?_eq_some_iff {word text behind : List Char} :
    afterWord? word text = some behind ↔ text = word ++ behind ∧ EndsWord behind := by
  simp only [afterWord?, Option.ite_none_right_eq_some, Bool.and_eq_true, List.isPrefixOf_iff_prefix,
    Bool.not_eq_true', Option.some.injEq]
  constructor
  · rintro ⟨⟨⟨rest, rfl⟩, hend⟩, hrest⟩
    rw [List.drop_left] at hend hrest
    subst hrest
    exact ⟨rfl, by simpa [EndsWord, Option.any_eq_false] using hend⟩
  · rintro ⟨rfl, hend⟩
    rw [List.drop_left]
    exact ⟨⟨List.prefix_append _ _, by simpa [EndsWord, Option.any_eq_false] using hend⟩, rfl⟩

-- The word starts where the blanks end, so there is one way only to read a key.
theorem afterKey?_eq_some_iff {mark first : Char} {word text behind : List Char}
    (hfirst : Unicode.isBlank first = false) :
    afterKey? mark (first :: word) text = some behind ↔
      StartsWithKey mark (first :: word) text behind := by
  constructor
  · intro h
    cases text with
    | nil => simp [afterKey?] at h
    | cons c rest =>
      simp only [afterKey?, Option.ite_none_right_eq_some, afterWord?_eq_some_iff] at h
      obtain ⟨rfl, hword, hend⟩ := h
      obtain ⟨blanks, hblanks, hrest⟩ := exists_blanks rest
      refine ⟨c :: (blanks ++ first :: word), ⟨blanks, hblanks, rfl⟩, ?_, hend⟩
      rw [hrest, hword]
      simp
  · rintro ⟨_, ⟨blanks, hblanks, rfl⟩, rfl, hend⟩
    have htrim : Text.trimStart (blanks ++ (first :: word ++ behind)) = first :: word ++ behind :=
      trimStart_append hblanks (by simpa using hfirst)
    simp only [List.cons_append, List.append_assoc, afterKey?, if_true]
    rw [← List.cons_append, htrim]
    exact afterWord?_eq_some_iff.mpr ⟨rfl, hend⟩

theorem componentsKey_iff {text behind : List Char} :
    afterKey? '\x7b' componentsKey.toList text = some behind ↔
      StartsWithKey '\x7b' componentsKey.toList text behind :=
  afterKey?_eq_some_iff (by decide)

theorem directivesKey_iff {text behind : List Char} :
    afterKey? ',' directivesKey.toList text = some behind ↔
      StartsWithKey ',' directivesKey.toList text behind :=
  afterKey?_eq_some_iff (by decide)

theorem take_front (front back : List Char) :
    (front ++ back).take ((front ++ back).length - back.length) = front := by
  simp

-- A directives key that comes next, with the blanks before it.
def IsNextKey (through : List Char) : Prop :=
  ∃ blanks key, Blanks blanks ∧ IsKey ',' directivesKey.toList key ∧ through = blanks ++ key

-- Nothing that a key starts with could be blank, so the blanks before it are all there are.
theorem splitAtDirectives?_append {through behind : List Char} (hthrough : IsNextKey through)
    (hend : EndsWord behind) :
    splitAtDirectives? (through ++ behind) =
      if isExpanded behind then none else some (through, behind) := by
  obtain ⟨blanks, key, hblanks, hkey, rfl⟩ := hthrough
  have htrim : Text.trimStart (blanks ++ (key ++ behind)) = key ++ behind := by
    obtain ⟨inner, -, rfl⟩ := hkey
    exact trimStart_append hblanks (by simp; decide)
  have hafter : afterKey? ',' directivesKey.toList (key ++ behind) = some behind :=
    directivesKey_iff.mpr ⟨key, hkey, rfl, hend⟩
  rw [splitAtDirectives?, List.append_assoc, htrim, hafter]
  simp only
  rw [← List.append_assoc, take_front]

theorem splitAtDirectives?_eq_some_iff {text through behind : List Char} :
    splitAtDirectives? text = some (through, behind) ↔ NextKey text through behind := by
  constructor
  · intro h
    unfold splitAtDirectives? at h
    split at h
    · next rest hrest =>
      obtain ⟨key, hkey, htrim, hend⟩ := directivesKey_iff.mp hrest
      obtain ⟨blanks, hblanks, htext⟩ := exists_blanks text
      rw [htrim, ← List.append_assoc] at htext
      split at h
      · cases h
      · next hexpanded =>
        rw [htext, take_front] at h
        obtain ⟨rfl, rfl⟩ := Prod.mk.inj (Option.some.inj h)
        exact ⟨blanks, key, hblanks, hkey, hend, mt isExpanded_iff.mpr hexpanded, rfl, htext⟩
    · cases h
  · rintro ⟨blanks, key, hblanks, hkey, hend, hexpanded, rfl, rfl⟩
    rw [splitAtDirectives?_append ⟨blanks, key, hblanks, hkey, rfl⟩ hend,
      if_neg (mt isExpanded_iff.mp hexpanded)]

theorem firstKey_cons {c : Char} {text through behind : List Char}
    (hc : ∀ rest, ¬StartsWithKey '\x7b' componentsKey.toList (c :: text) rest) :
    FirstKey (c :: text) through behind ↔
      ∃ tail, through = c :: tail ∧ FirstKey text tail behind := by
  constructor
  · rintro ⟨front, key, hkey, hend, rfl, htext, hleast⟩
    cases front with
    | nil => exact absurd ⟨key, hkey, by simpa using htext, hend⟩ (hc behind)
    | cons d front =>
      simp only [List.cons_append, List.cons.injEq] at htext
      obtain ⟨rfl, rfl⟩ := htext
      refine ⟨front ++ key, rfl, front, key, hkey, hend, rfl, rfl, ?_⟩
      intro front' rest behind' hsplit hstart
      have hle := hleast (c :: front') rest behind' (by rw [hsplit]; rfl) hstart
      simpa using hle
  · rintro ⟨tail, rfl, front, key, hkey, hend, rfl, rfl, hleast⟩
    refine ⟨c :: front, key, hkey, hend, rfl, rfl, ?_⟩
    intro front' rest behind' hsplit hstart
    cases front' with
    | nil =>
      rw [List.nil_append] at hsplit
      exact absurd (hsplit ▸ hstart) (hc behind')
    | cons d front' =>
      have hle := hleast front' rest behind' (List.cons.inj hsplit).2 hstart
      simpa using hle

theorem firstKey_of_startsWithKey {text through behind rest : List Char}
    (hstart : StartsWithKey '\x7b' componentsKey.toList text rest) :
    FirstKey text through behind ↔
      text = through ++ behind ∧ IsKey '\x7b' componentsKey.toList through ∧ EndsWord behind := by
  constructor
  · rintro ⟨front, key, hkey, hend, rfl, htext, hleast⟩
    have hempty : front = [] := by simpa using hleast [] text rest rfl hstart
    subst hempty
    exact ⟨htext, by simpa using hkey, hend⟩
  · rintro ⟨htext, hkey, hend⟩
    exact ⟨[], through, hkey, hend, rfl, htext, fun _ _ _ _ _ => Nat.zero_le _⟩

theorem splitAtComponents?_eq_some_iff {text through behind : List Char} :
    splitAtComponents? text = some (through, behind) ↔ FirstKey text through behind := by
  induction text generalizing through with
  | nil =>
    constructor
    · intro h
      cases h
    · rintro ⟨front, key, ⟨inner, -, rfl⟩, -, rfl, htext, -⟩
      simp at htext
  | cons c text ih =>
    rw [splitAtComponents?]
    cases hafter : afterKey? '\x7b' componentsKey.toList (c :: text) with
    | some rest =>
      have hstart := componentsKey_iff.mp hafter
      rw [firstKey_of_startsWithKey hstart]
      simp only [Option.some.injEq, Prod.mk.injEq]
      constructor
      · rintro ⟨rfl, rfl⟩
        obtain ⟨key, hkey, htext, hend⟩ := hstart
        rw [htext, take_front]
        exact ⟨rfl, hkey, hend⟩
      · rintro ⟨htext, hkey, hend⟩
        have hsame := hafter.symm.trans (componentsKey_iff.mpr ⟨through, hkey, htext, hend⟩)
        cases hsame
        exact ⟨by rw [htext, take_front], rfl⟩
    | none =>
      have hnone (rest : List Char) :
          ¬StartsWithKey '\x7b' componentsKey.toList (c :: text) rest := by
        intro hstart
        rw [componentsKey_iff.mpr hstart] at hafter
        cases hafter
      rw [firstKey_cons hnone]
      simp only [Option.map_eq_some_iff, Prod.exists, Prod.mk.injEq]
      constructor
      · rintro ⟨tail, behind, htail, rfl, rfl⟩
        exact ⟨tail, rfl, ih.mp htail⟩
      · rintro ⟨tail, rfl, htail⟩
        exact ⟨tail, behind, ih.mpr htail, rfl, rfl⟩

-- The functions that seek a key find one place, so there is but one.
theorem FirstKey.unique {text through behind through' behind' : List Char}
    (h : FirstKey text through behind) (h' : FirstKey text through' behind') :
    through = through' ∧ behind = behind' := by
  have hsplit := splitAtComponents?_eq_some_iff.mpr h
  rw [splitAtComponents?_eq_some_iff.mpr h'] at hsplit
  simpa [eq_comm] using hsplit

theorem NextKey.unique {text through behind through' behind' : List Char}
    (h : NextKey text through behind) (h' : NextKey text through' behind') :
    through = through' ∧ behind = behind' := by
  have hsplit := splitAtDirectives?_eq_some_iff.mpr h
  rw [splitAtDirectives?_eq_some_iff.mpr h'] at hsplit
  simpa [eq_comm] using hsplit

theorem hasKey_nil : ¬HasKey [] := by
  rintro ⟨front, rest, behind, hsplit, _, ⟨blanks, -, rfl⟩, rfl, -⟩
  simp at hsplit

theorem hasKey_cons {c : Char} {text : List Char} :
    HasKey (c :: text) ↔
      (∃ behind, StartsWithKey '\x7b' componentsKey.toList (c :: text) behind) ∨ HasKey text := by
  constructor
  · rintro ⟨front, rest, behind, hsplit, hstart⟩
    cases front with
    | nil => exact .inl ⟨behind, (List.nil_append rest ▸ hsplit) ▸ hstart⟩
    | cons d front => exact .inr ⟨front, rest, behind, (List.cons.inj hsplit).2, hstart⟩
  · rintro (⟨behind, hstart⟩ | ⟨front, rest, behind, rfl, hstart⟩)
    · exact ⟨[], c :: text, behind, rfl, hstart⟩
    · exact ⟨c :: front, rest, behind, rfl, hstart⟩

theorem splitAtComponents?_isSome_iff {text : List Char} :
    (splitAtComponents? text).isSome = true ↔ HasKey text := by
  induction text with
  | nil => simp [splitAtComponents?, hasKey_nil]
  | cons c text ih =>
    simp only [hasKey_cons, ← componentsKey_iff, splitAtComponents?]
    cases afterKey? '\x7b' componentsKey.toList (c :: text) with
    | some behind => simp
    | none => simpa using ih

-- The value of a key as it is written: all names behind the same front, between brackets.
def listing (front : String) (names : List String) : List Char :=
  (": [" ++ ", ".intercalate (names.map (front ++ ·)) ++ "]").toList

theorem memberList_components (names : List String) :
    memberList componentsKey names = listing "components." names := rfl

theorem memberList_directives (names : List String) :
    memberList directivesKey names = listing "directives." names := rfl

-- A text with a list of members behind its directives key, if that key comes next.
inductive WithDirectives (names : List String) : List Char → List Char → Prop where
  | listed {text through behind : List Char} (h : NextKey text through behind) :
      WithDirectives names text (through ++ listing "directives." names ++ behind)
  | plain {text : List Char} (h : ∀ through behind, ¬NextKey text through behind) :
      WithDirectives names text text

theorem withDirectives_iff {names : List String} {text tail : List Char} :
    WithDirectives names text tail ↔ tail = expandDirectives names text := by
  rw [expandDirectives]
  cases hsplit : splitAtDirectives? text with
  | some pair =>
    obtain ⟨through, behind⟩ := pair
    have hnext := splitAtDirectives?_eq_some_iff.mp hsplit
    simp only [memberList_directives]
    constructor
    · intro h
      cases h with
      | listed h =>
        obtain ⟨rfl, rfl⟩ := hnext.unique h
        rfl
      | plain h => exact absurd hnext (h through behind)
    · rintro rfl
      exact .listed hnext
  | none =>
    have hnone (through behind : List Char) : ¬NextKey text through behind := by
      intro h
      rw [splitAtDirectives?_eq_some_iff.mpr h] at hsplit
      cases hsplit
    constructor
    · intro h
      cases h with
      | listed h => exact absurd h (hnone _ _)
      | plain h => rfl
    · rintro rfl
      exact .plain hnone

theorem NextKey.withDirectives_iff {names : List String} {text through behind tail : List Char}
    (h : NextKey text through behind) :
    WithDirectives names text tail ↔ tail = through ++ listing "directives." names ++ behind := by
  constructor
  · intro hlisted
    cases hlisted with
    | listed h' =>
      obtain ⟨rfl, rfl⟩ := h.unique h'
      rfl
    | plain hnone => exact absurd h (hnone through behind)
  · rintro rfl
    exact .listed h

theorem expand_eq_expanded_iff {source text : String} {components directives : List String} :
    expand source components directives = .expanded text ↔
      ∃ through behind tail, FirstKey source.toList through behind ∧ ¬Expanded behind ∧
        WithDirectives directives behind tail ∧
        text = String.ofList (through ++ listing "components." components ++ tail) := by
  unfold expand
  cases hsplit : splitAtComponents? source.toList with
  | none =>
    constructor
    · intro h
      cases h
    · rintro ⟨through, behind, -, hkey, -⟩
      rw [splitAtComponents?_eq_some_iff.mpr hkey] at hsplit
      cases hsplit
  | some pair =>
    obtain ⟨through, behind⟩ := pair
    have hkey := splitAtComponents?_eq_some_iff.mp hsplit
    by_cases hexpanded : Expanded behind
    · simp only [isExpanded_iff.mpr hexpanded, if_true]
      constructor
      · intro h
        cases h
      · rintro ⟨through', behind', -, hkey', hexpanded', -⟩
        obtain ⟨rfl, rfl⟩ := hkey.unique hkey'
        exact absurd hexpanded hexpanded'
    · simp only [mt isExpanded_iff.mp hexpanded, Bool.false_eq_true, if_false,
        Outcome.expanded.injEq, memberList_components]
      constructor
      · rintro rfl
        exact ⟨through, behind, _, hkey, hexpanded, withDirectives_iff.mpr rfl, rfl⟩
      · rintro ⟨through', behind', tail, hkey', -, htail, rfl⟩
        obtain ⟨rfl, rfl⟩ := hkey.unique hkey'
        rw [withDirectives_iff.mp htail]

theorem hasKey_iff (source : String) (components directives : List String) :
    HasKey source.toList ↔ expand source components directives ≠ .noKey := by
  rw [← splitAtComponents?_isSome_iff, expand]
  cases splitAtComponents? source.toList with
  | none => simp
  | some pair =>
    obtain ⟨through, behind⟩ := pair
    cases hexpanded : isExpanded behind <;> simp [hexpanded]

-- Both lists stand behind their keys.
theorem expanded_text {source text : String} {components directives : List String}
    {through behind through' behind' : List Char} (hkey : FirstKey source.toList through behind)
    (hnext : NextKey behind through' behind')
    (h : expand source components directives = .expanded text) :
    text = String.ofList (through ++ listing "components." components ++
      (through' ++ listing "directives." directives ++ behind')) := by
  obtain ⟨front, rest, tail, hkey', -, htail, rfl⟩ := expand_eq_expanded_iff.mp h
  obtain ⟨rfl, rfl⟩ := hkey.unique hkey'
  rw [hnext.withDirectives_iff.mp htail]

end Treeshake.Source.Barrel
