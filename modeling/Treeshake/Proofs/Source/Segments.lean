import Treeshake.Proofs.Source.Declaration

namespace Treeshake.Source

open Pattern
open Barrel (Blanks)

inductive Segment where
  | char (c : Char)
  | declaration (d : Declaration)

def Segment.text : Segment → List Char
  | .char c => [c]
  | .declaration d => d.text

def textOf (segments : List Segment) : List Char := segments.flatMap Segment.text

-- Declarations are found from the left, and none inside another.
inductive Segmented (names : NameKind → List (List Char)) : List Char → List Segment → Prop
  | nil : Segmented names [] []
  | char {c : Char} {text : List Char} {segments : List Segment}
      (hnone : ∀ d rest, ¬Declares names (c :: text) d rest)
      (h : Segmented names text segments) : Segmented names (c :: text) (.char c :: segments)
  | declaration {text rest : List Char} {d : Declaration} {segments : List Segment}
      (hd : Declares names text d rest) (h : Segmented names rest segments) :
      Segmented names text (.declaration d :: segments)

variable {names : NameKind → List (List Char)} {text : List Char} {segments : List Segment}

theorem Segmented.textOf_eq (h : Segmented names text segments) : textOf segments = text := by
  induction h with
  | nil => rfl
  | char _ _ ih => simpa [textOf, Segment.text] using ih
  | declaration hd _ ih => rw [hd.1, ← ih]; rfl

theorem Segmented.ofList (h : Segmented names text segments) :
    Segmented names (String.ofList text).toList segments := by
  rwa [String.toList_ofList]

theorem Declaration.text_ne_nil (d : Declaration) : d.text ≠ [] := by
  obtain ⟨tail, htext, -⟩ := d.quiet .component []
  simp [htext]

theorem not_declares_of_head {c : Char} (hc : c ≠ 'c') (text : List Char) (d : Declaration)
    (rest : List Char) : ¬Declares names (c :: text) d rest := by
  intro hd
  obtain ⟨tail, htext, -⟩ := d.quiet .component []
  have heq := hd.1
  rw [htext, List.cons_append] at heq
  exact hc (List.cons.inj heq).1

theorem Segmented.of_append {front back : List Segment}
    (h : Segmented names text (front ++ back)) : Segmented names (textOf back) back := by
  induction front generalizing text with
  | nil => exact h.textOf_eq ▸ h
  | cons s front ih =>
    cases h with
    | char _ h => exact ih h
    | declaration _ h => exact ih h

theorem Segmented.length_le (h : Segmented names text segments) :
    segments.length ≤ text.length := by
  induction h with
  | nil => exact Nat.le_refl _
  | char _ _ ih => simpa using ih
  | @declaration text rest d segments hd _ ih =>
    have hpos := List.length_pos_of_ne_nil d.text_ne_nil
    rw [hd.1, List.length_append, List.length_cons]
    omega

theorem exists_segmented (names : NameKind → List (List Char)) (text : List Char) :
    ∃ segments, Segmented names text segments := by
  induction hlen : text.length using Nat.strong_induction_on generalizing text with
  | _ n ih =>
    by_cases hfound : ∃ d rest, Declares names text d rest
    · obtain ⟨d, rest, hd⟩ := hfound
      have hshort : rest.length < n := by
        have hpos := List.length_pos_of_ne_nil d.text_ne_nil
        rw [← hlen, hd.1, List.length_append]
        omega
      obtain ⟨segments, h⟩ := ih rest.length hshort rest rfl
      exact ⟨_, .declaration hd h⟩
    · cases text with
      | nil => exact ⟨[], .nil⟩
      | cons c text =>
        obtain ⟨segments, h⟩ := ih text.length (by simp [← hlen]) text rfl
        exact ⟨_, .char (fun d rest hd => hfound ⟨d, rest, hd⟩) h⟩

section Kinds

-- The segments that one kind of declaration makes: those of the other kind are plain text.
def spell (kind : NameKind) : Segment → List Segment
  | .char c => [.char c]
  | .declaration d => if d.kind = kind then [.declaration d] else d.text.map .char

theorem segmented_chars {kind : NameKind} {w rest : List Char} (hw : Quiet kind w rest)
    (h : Segmented (ofKind kind names) rest segments) :
    Segmented (ofKind kind names) (w ++ rest) (w.map .char ++ segments) := by
  induction w with
  | nil => exact h
  | cons c w ih =>
    refine .char (fun d rest' hd => ?_) (ih fun a b hab => hw (c :: a) b (by simp [hab]))
    obtain ⟨hkind, hd⟩ := declares_ofKind_iff.mp hd
    exact hw [] (c :: w) rfl (by simp) (hkind ▸ hd.opening)

theorem Segmented.spell (h : Segmented names text segments) (kind : NameKind) :
    Segmented (ofKind kind names) text (segments.flatMap (spell kind)) := by
  induction h with
  | nil => exact .nil
  | char hnone _ ih =>
    exact .char (fun d rest hd => hnone d rest (declares_ofKind_iff.mp hd).2) ih
  | @declaration text rest d segments hd h ih =>
    by_cases hkind : d.kind = kind
    · simp only [List.flatMap_cons, Source.spell, hkind, if_true]
      exact .declaration (declares_ofKind_iff.mpr ⟨hkind, hd⟩) ih
    · obtain ⟨tail, htext, hquiet⟩ := d.quiet kind rest
      simp only [List.flatMap_cons, Source.spell, hkind, if_false, htext, List.map_cons,
        List.cons_append]
      rw [hd.1, htext, List.cons_append]
      refine .char (fun d' rest' hd' => ?_) (segmented_chars hquiet ih)
      obtain ⟨hkind', hd'⟩ := declares_ofKind_iff.mp hd'
      have hopening := hd.opening
      rw [hd.1, htext, List.cons_append] at hopening
      exact hkind ((opening_unique hopening hd'.opening).trans hkind')

end Kinds

section Removal

def Segment.IsBlank : Segment → Prop
  | .char c => Unicode.isBlank c = true
  | .declaration _ => False

-- What a statement may stand behind.
def Segment.Closes : Segment → Prop
  | .char c => c ∈ ['\x7b', '\x7d', ';', ')']
  | .declaration _ => True

-- The place behind the segments is one for a statement: in front of it, blanks aside, is the
-- start of the text, a brace, the end of a statement, a closing parenthesis or a declaration.
def Opens (front : List Segment) : Prop :=
  (∀ s ∈ front, s.IsBlank) ∨
    ∃ before s blanks, front = before ++ s :: blanks ∧ s.Closes ∧ ∀ s ∈ blanks, s.IsBlank

-- Each declaration is a statement of its own, and what follows it, if anything, is a blank such as
-- the end of its line.
def StandAlone (segments : List Segment) : Prop :=
  ∀ front d back, segments = front ++ .declaration d :: back →
    Opens front ∧ ∀ s ∈ back.head?, s.IsBlank

-- The same place, told by the characters in front of it.
def AtStatement (front : List Char) : Prop :=
  Blanks front ∨
    ∃ before c blanks, front = before ++ c :: blanks ∧ c ∈ Declaration.closers ∧ Blanks blanks

-- Each declaration starts at a place for a statement, and a blank follows it, if anything does.
def Placed (segments : List Segment) : Prop :=
  ∀ front d back, segments = front ++ .declaration d :: back →
    AtStatement (textOf front) ∧ ∀ c ∈ (textOf back).head?, Unicode.isBlank c = true

theorem AtStatement.of_append {front back : List Char} (h : AtStatement (front ++ back)) :
    AtStatement back := by
  rcases h with hblanks | ⟨before, c, blanks, heq, hc, hblanks⟩
  · exact .inl fun d hd => hblanks d (by simp [hd])
  · rcases List.append_eq_append_iff.mp heq with ⟨x, -, rfl⟩ | ⟨x, rfl, hx⟩
    · exact .inr ⟨x, c, blanks, rfl, hc, hblanks⟩
    · cases x with
      | nil =>
        obtain rfl : c :: blanks = back := by simpa using hx
        exact .inr ⟨[], c, blanks, rfl, hc, hblanks⟩
      | cons e x =>
        obtain ⟨-, rfl⟩ := List.cons.inj hx
        exact .inl fun d hd => hblanks d (by simp [hd])

-- The segments without the declarations that are dropped.
def without (drop : Declaration → Bool) (segments : List Segment) : List Segment :=
  segments.filter fun
    | .char _ => true
    | .declaration d => !drop d

theorem without_char (drop : Declaration → Bool) (c : Char) (segments : List Segment) :
    without drop (.char c :: segments) = .char c :: without drop segments := rfl

theorem without_dropped {drop : Declaration → Bool} {d : Declaration} (hd : drop d = true) :
    without drop (.declaration d :: segments) = without drop segments := by
  simp [without, hd]

theorem without_kept {drop : Declaration → Bool} {d : Declaration} (hd : drop d = false) :
    without drop (.declaration d :: segments) = .declaration d :: without drop segments := by
  simp [without, hd]

theorem textOf_append (front back : List Segment) :
    textOf (front ++ back) = textOf front ++ textOf back := by
  simp [textOf]

theorem textOf_cons (s : Segment) (segments : List Segment) :
    textOf (s :: segments) = s.text ++ textOf segments := by
  simp [textOf]

theorem textOf_char (c : Char) (segments : List Segment) :
    textOf (.char c :: segments) = c :: textOf segments := rfl

theorem blanks_textOf (h : ∀ s ∈ segments, s.IsBlank) : Blanks (textOf segments) := by
  intro c hc
  obtain ⟨s, hs, hmem⟩ := List.mem_flatMap.mp hc
  have hblank := h s hs
  cases s with
  | char d =>
    obtain rfl : c = d := by simpa [Segment.text] using hmem
    exact hblank
  | declaration d => exact hblank.elim

theorem Segment.Closes.exists_closer {s : Segment} (h : s.Closes) :
    ∃ front c, s.text = front ++ [c] ∧ c ∈ Declaration.closers := by
  cases s with
  | char c =>
    refine ⟨[], c, rfl, ?_⟩
    have hmem : c ∈ ['\x7b', '\x7d', ';', ')'] ++ ['!'] := List.mem_append_left _ h
    exact hmem
  | declaration d =>
    obtain ⟨front, mark, hend, hmark⟩ := d.exists_closing
    refine ⟨d.head ++ front, mark, ?_, ?_⟩
    · rw [Segment.text, Declaration.text, hend, List.append_assoc]
    · have hall : ∀ c ∈ [')', '!', ';'], c ∈ Declaration.closers := by decide
      exact hall mark hmark

theorem Opens.atStatement {front : List Segment} (h : Opens front) :
    AtStatement (textOf front) := by
  rcases h with hblanks | ⟨before, s, blanks, rfl, hs, hblanks⟩
  · exact .inl (blanks_textOf hblanks)
  · obtain ⟨start, c, htext, hc⟩ := hs.exists_closer
    refine .inr ⟨textOf before ++ start, c, textOf blanks, ?_, hc, blanks_textOf hblanks⟩
    rw [textOf_append, textOf_cons, htext]
    simp only [List.append_assoc, List.cons_append, List.nil_append]

theorem StandAlone.placed (h : StandAlone segments) : Placed segments := by
  intro front d back heq
  obtain ⟨hopens, hback⟩ := h front d back heq
  refine ⟨hopens.atStatement, fun c hc => ?_⟩
  cases back with
  | nil => cases hc
  | cons s back =>
    have hblank := hback s rfl
    cases s with
    | char e =>
      obtain rfl : e = c := by simpa [textOf_char] using hc
      exact hblank
    | declaration e => exact hblank.elim

theorem Placed.of_cons {s : Segment} (h : Placed (s :: segments)) : Placed segments := by
  intro front d back heq
  obtain ⟨hfront, hback⟩ := h (s :: front) d back (by simp [heq])
  rw [textOf_cons] at hfront
  exact ⟨hfront.of_append, hback⟩

-- What follows a declaration stays the same if it is a blank.
theorem head?_textOf_without (drop : Declaration → Bool)
    (h : ∀ c ∈ (textOf segments).head?, Unicode.isBlank c = true) :
    (textOf (without drop segments)).head? = (textOf segments).head? := by
  cases segments with
  | nil => rfl
  | cons s segments =>
    cases s with
    | char c => rfl
    | declaration d =>
      obtain ⟨tail, hd, -⟩ := d.quiet .component []
      have hblank := h 'c' (by simp [textOf_cons, Segment.text, hd])
      exact absurd hblank (by decide)

theorem exists_first_dropped (drop : Declaration → Bool) (segments : List Segment) :
    without drop segments = segments ∨
      ∃ front d back, segments = front ++ .declaration d :: back ∧
        without drop segments = front ++ without drop back := by
  induction segments with
  | nil => exact .inl rfl
  | cons s segments ih =>
    have hmore (hkeep : without drop (s :: segments) = s :: without drop segments) :
        without drop (s :: segments) = s :: segments ∨
          ∃ front d back, s :: segments = front ++ .declaration d :: back ∧
            without drop (s :: segments) = front ++ without drop back := by
      rcases ih with hsame | ⟨front, d, back, rfl, hwithout⟩
      · exact .inl (by rw [hkeep, hsame])
      · exact .inr ⟨s :: front, d, back, rfl, by rw [hkeep, hwithout]; rfl⟩
    cases s with
    | char c => exact hmore (without_char drop c segments)
    | declaration d =>
      cases hd : drop d with
      | true => exact .inr ⟨[], d, segments, rfl, without_dropped hd⟩
      | false => exact hmore (without_kept hd)

theorem Declaration.Ends.of_head {d : Declaration} {rest rest' : List Char} (h : d.Ends rest)
    (hhead : ∀ c ∈ rest'.head?, c ∈ rest.head? ∨ c = 'c') : d.Ends rest' := by
  obtain ⟨hbang, hsemi⟩ := h
  have hother {mark : Char} (hmark : mark ≠ 'c') (hrest : rest.head? ≠ some mark) :
      rest'.head? ≠ some mark := by
    intro hmem
    rcases hhead mark hmem with h | h
    · exact hrest h
    · exact hmark h
  refine ⟨fun hb => ?_, fun hs => hother (by decide) (hsemi hs)⟩
  cases hs : d.semicolon with
  | true => simp [marked]
  | false =>
    have hrest := hbang hb
    rw [hs] at hrest
    exact hother (by decide) hrest

-- A declaration that starts in front of a dropped one, but ends behind it, would hold the end of a
-- statement with a blank behind it.
theorem text_ne_of_atStatement {front : List Char} (hfront : AtStatement front) (d : Declaration)
    {blank : Char} (hblank : Unicode.isBlank blank = true) (more : List Char) :
    d.text ≠ front ++ blank :: more := by
  intro htext
  rcases hfront with hblanks | ⟨before, c, blanks, rfl, hc, hblanks⟩
  · obtain ⟨tail, hstart, -⟩ := d.quiet .component []
    cases front with
    | nil =>
      rw [hstart] at htext
      obtain ⟨rfl, -⟩ := List.cons.inj htext
      exact absurd hblank (by decide)
    | cons b front =>
      rw [hstart] at htext
      obtain ⟨rfl, -⟩ := List.cons.inj htext
      exact absurd (hblanks 'c' (by simp)) (by decide)
  · cases blanks with
    | nil =>
      have hend : d.text = before ++ c :: blank :: more := by simpa using htext
      simp [d.not_blank_of_closer hc hend] at hblank
    | cons b gap =>
      have hb : Unicode.isBlank b = true := hblanks b (by simp)
      have hend : d.text = before ++ c :: b :: (gap ++ blank :: more) := by simpa using htext
      simp [d.not_blank_of_closer hc hend] at hb

-- What starts in front of a dropped declaration has been there before.
theorem Declares.of_dropped {front back : List Segment} {d D : Declaration} {rest : List Char}
    {drop : Declaration → Bool} (hfront : AtStatement (textOf front))
    (hback : ∀ c ∈ (textOf back).head?, Unicode.isBlank c = true)
    (hd : Declares names (textOf front ++ textOf (without drop back)) d rest) :
    ∃ rest', Declares names (textOf (front ++ .declaration D :: back)) d rest' := by
  obtain ⟨heq, hname, hends⟩ := hd
  have hhead := head?_textOf_without drop hback
  have hinside {x : List Char} (hx : textOf front = d.text ++ x)
      (hrest : rest = x ++ textOf (without drop back)) :
      ∃ rest', Declares names (textOf (front ++ .declaration D :: back)) d rest' := by
    refine ⟨x ++ (D.text ++ textOf back), ?_, hname, hends.of_head fun c hc => ?_⟩
    · rw [textOf_append, textOf_cons, hx, List.append_assoc]
      rfl
    · cases x with
      | nil =>
        obtain ⟨tail, hD, -⟩ := D.quiet .component []
        right
        simpa [hD, eq_comm] using hc
      | cons d' x =>
        left
        simpa [hrest] using hc
  rcases List.append_eq_append_iff.mp heq with ⟨x, hx, hrest⟩ | ⟨x, hx, hrest⟩
  · cases x with
    | nil =>
      rw [List.append_nil] at hx
      exact hinside (x := []) (by simp [hx]) (by simpa using hrest.symm)
    | cons b x =>
      have hb : Unicode.isBlank b = true := by
        rw [hrest] at hhead
        exact hback b hhead.symm
      exact absurd hx (text_ne_of_atStatement hfront d hb x)
  · exact hinside hx hrest

theorem Segmented.without_of_placed (h : Segmented names text segments) (hplaced : Placed segments)
    (drop : Declaration → Bool) :
    Segmented names (textOf (without drop segments)) (Source.without drop segments) := by
  induction h with
  | nil => exact .nil
  | @char c text segments hnone h ih =>
    rw [without_char, textOf_char]
    refine .char (fun d rest hd => ?_) (ih hplaced.of_cons)
    rcases exists_first_dropped drop segments with hsame | ⟨front, D, back, rfl, hwithout⟩
    · rw [hsame, h.textOf_eq] at hd
      exact hnone d rest hd
    · obtain ⟨hfront, hback⟩ := hplaced (.char c :: front) D back rfl
      rw [hwithout, textOf_append, ← List.cons_append, ← textOf_char] at hd
      obtain ⟨rest', hd'⟩ := Declares.of_dropped (D := D) hfront hback hd
      rw [List.cons_append, textOf_char, h.textOf_eq] at hd'
      exact hnone d rest' hd'
  | @declaration text rest d segments hd h ih =>
    have hrest := ih hplaced.of_cons
    cases hdrop : drop d with
    | true => rwa [without_dropped hdrop]
    | false =>
      obtain ⟨-, hback⟩ := hplaced [] d segments rfl
      have hhead := head?_textOf_without drop hback
      rw [h.textOf_eq] at hhead
      rw [without_kept hdrop, textOf_cons]
      refine .declaration ⟨rfl, hd.2.1, hd.2.2.of_head fun c hc => ?_⟩ hrest
      exact .inl (hhead ▸ hc)

theorem Segmented.without (h : Segmented names text segments) (halone : StandAlone segments)
    (drop : Declaration → Bool) :
    Segmented names (textOf (without drop segments)) (Source.without drop segments) :=
  h.without_of_placed halone.placed drop

end Removal

end Treeshake.Source
