import Treeshake.Proofs.Pattern.Reading
import Treeshake.Proofs.Source.ImportList

namespace Treeshake.Source

open Pattern Pattern.Reader
open Barrel (Blanks)
open Import (IsName IsNameChar)

def stem : NameKind → List Char
  | .component => "_component_".toList
  | .directive => "_directive_".toList

-- The call of the function that looks a name up, up to the name.
def call : NameKind → List Char
  | .component => "_resolveComponent(\"".toList
  | .directive => "_resolveDirective(\"".toList

def IsWordOrHyphen (c : Char) : Prop := Unicode.isWord c = true ∨ c = '-'

instance (c : Char) : Decidable (IsWordOrHyphen c) := inferInstanceAs (Decidable (_ ∨ _))

theorem IsWordOrHyphen.plain {c : Char} (h : IsWordOrHyphen c) : IsPlain c := by
  intro hmem
  have hword : ∀ d ∈ "()|[?*+\x7b.^$\\".toList, ¬IsWordOrHyphen d := by decide
  exact hword c hmem h

theorem IsWordOrHyphen.not_blank {c : Char} (h : IsWordOrHyphen c) :
    Unicode.isBlank c = false := by
  rcases h with hword | rfl
  · exact Unicode.isBlank_eq_false_of_isWord hword
  · decide

theorem head?_stem (kind : NameKind) : ∃ more, stem kind = '_' :: more := by
  cases kind <;> exact ⟨_, rfl⟩

structure Declaration where
  kind : NameKind
  gap : List Char
  tail : List Char
  before : List Char
  after : List Char
  name : List Char
  bang : Bool
  semicolon : Bool
  gap_blank : Blanks gap
  gap_ne : gap ≠ []
  tail_name : IsName tail
  before_blank : Blanks before
  after_blank : Blanks after
  name_chars : ∀ c ∈ name, IsWordOrHyphen c

theorem blanks_one_space : Blanks [' '] := by decide

theorem one_space_ne_nil : [' '] ≠ [] := List.cons_ne_nil _ _

namespace Declaration

-- The local name that the declaration binds.
def bound (d : Declaration) : List Char := stem d.kind ++ d.tail

-- What stands behind the name that is looked up.
def closing (d : Declaration) : List Char :=
  '"' :: ')' :: (marked '!' d.bang ++ marked ';' d.semicolon)

-- What stands in front of that name.
def head (d : Declaration) : List Char :=
  "const".toList ++ (d.gap ++ (d.bound ++ (d.before ++ '=' :: (d.after ++ call d.kind))))

def text (d : Declaration) : List Char := d.head ++ (d.name ++ d.closing)

theorem text_append (d : Declaration) (rest : List Char) :
    d.text ++ rest = "const".toList ++ (d.gap ++ (d.bound ++ (d.before ++ '=' :: (d.after ++
      (call d.kind ++ (d.name ++ (d.closing ++ rest))))))) := by
  delta text head
  simp only [List.append_assoc, List.cons_append]

-- An exclamation mark and a semicolon that follow belong to the declaration.
def Ends (d : Declaration) (rest : List Char) : Prop :=
  (d.bang = false → (marked ';' d.semicolon ++ rest).head? ≠ some '!') ∧
    (d.semicolon = false → rest.head? ≠ some ';')

-- What the pattern keeps of it.
def found (d : Declaration) (behind rest : List Char) : Match :=
  ⟨d.text, [("name", d.name), ("local", d.bound)], ⟨d.text.reverse ++ behind, rest⟩⟩

end Declaration

-- A text starts with a declaration that looks up one of the names for its kind.
def Declares (names : NameKind → List (List Char)) (text : List Char) (d : Declaration)
    (rest : List Char) : Prop :=
  text = d.text ++ rest ∧ d.name ∈ names d.kind ∧ d.Ends rest

def ofKind (kind : NameKind) (names : NameKind → List (List Char)) : NameKind → List (List Char) :=
  fun k => if k = kind then names k else []

theorem declares_ofKind_iff {kind : NameKind} {names : NameKind → List (List Char)}
    {text rest : List Char} {d : Declaration} :
    Declares (ofKind kind names) text d rest ↔ d.kind = kind ∧ Declares names text d rest := by
  by_cases hkind : d.kind = kind
  · simp [Declares, ofKind, hkind]
  · simp [Declares, ofKind, hkind]

section Opening

variable {kind : NameKind} {rest : List Char}

-- How declarations of a kind start.
def Opening (kind : NameKind) (text : List Char) : Prop :=
  ∃ gap more, Blanks gap ∧ gap ≠ [] ∧ text = "const".toList ++ (gap ++ (stem kind ++ more))

theorem Declares.opening {names : NameKind → List (List Char)} {text : List Char} {d : Declaration}
    (h : Declares names text d rest) : Opening d.kind text := by
  have htext := h.1
  rw [d.text_append, Declaration.bound, List.append_assoc] at htext
  exact ⟨d.gap, _, d.gap_blank, d.gap_ne, htext⟩

theorem stem_append_head (kind : NameKind) (more : List Char) :
    ∀ c ∈ (stem kind ++ more).head?, Unicode.isBlank c = false := by
  obtain ⟨tail, hstem⟩ := head?_stem kind
  simp only [hstem, List.cons_append, List.head?_cons, Option.mem_def, Option.some.injEq]
  rintro c rfl
  decide

-- The second character of a stem tells the kind.
theorem kind_eq_of_stem {kind kind' : NameKind} {more more' : List Char}
    (h : stem kind ++ more = stem kind' ++ more') : kind = kind' := by
  have hcomponent : ∃ tail, stem .component = '_' :: 'c' :: tail := ⟨_, rfl⟩
  have hdirective : ∃ tail, stem .directive = '_' :: 'd' :: tail := ⟨_, rfl⟩
  obtain ⟨tail, hc⟩ := hcomponent
  obtain ⟨tail', hd⟩ := hdirective
  cases kind <;> cases kind'
  · rfl
  · simp [hc, hd] at h
  · simp [hc, hd] at h
  · rfl

theorem opening_unique {kind' : NameKind} {text : List Char} (h : Opening kind text)
    (h' : Opening kind' text) : kind = kind' := by
  obtain ⟨gap, more, hgap, -, rfl⟩ := h
  obtain ⟨gap', more', hgap', -, heq⟩ := h'
  obtain ⟨-, hstem⟩ := Text.span_unique (List.append_cancel_left heq) hgap hgap'
    (stem_append_head kind more) (stem_append_head kind' more')
  exact kind_eq_of_stem hstem

-- No declaration starts inside a word that stands in front of the rest.
def Quiet (kind : NameKind) (w rest : List Char) : Prop :=
  ∀ a b, w = a ++ b → b ≠ [] → ¬Opening kind (b ++ rest)

theorem quiet_append {u v : List Char} (hu : Quiet kind u (v ++ rest)) (hv : Quiet kind v rest) :
    Quiet kind (u ++ v) rest :=
  Text.throughout_append (p := fun text => ¬Opening kind text) hu hv

theorem quiet_of_not_mem {w : List Char} (h : 'c' ∉ w) : Quiet kind w rest := by
  rintro a b rfl hne ⟨gap, more, -, -, heq⟩
  cases b with
  | nil => exact hne rfl
  | cons c b =>
    have hc : c = 'c' := (List.cons.inj heq).1
    simp [hc] at h

theorem quiet_of_blanks {w : List Char} (h : Blanks w) : Quiet kind w rest :=
  quiet_of_not_mem fun hmem => absurd (h 'c' hmem) (by decide)

-- Where a word is followed by blanks, and then by no local name, no declaration starts.
theorem quiet_of_next {w more : List Char} {next : Char} (before : List Char)
    (hnext : Unicode.isBlank next = false ∧ next ∉ '_' :: "const".toList)
    (hw : ∀ c ∈ w, Unicode.isBlank c = false) (hbefore : Blanks before) :
    Quiet kind w (before ++ next :: more) := by
  obtain ⟨hnext, hother⟩ := hnext
  rw [List.mem_cons, not_or] at hother
  rintro a b rfl hne ⟨gap, tail, hgap, hgapne, heq⟩
  have hb : ∀ c ∈ b, Unicode.isBlank c = false := fun c hc => hw c (by simp [hc])
  have hconst : ∀ c ∈ "const".toList, Unicode.isBlank c = false := by decide
  have hmeet : before ++ next :: more ≠ gap ++ (stem kind ++ tail) := by
    intro h
    have hhead : ∀ c ∈ (next :: more).head?, Unicode.isBlank c = false := by
      rintro c ⟨⟩
      exact hnext
    obtain ⟨-, hstem⟩ := Text.span_unique h hbefore hgap hhead (stem_append_head kind tail)
    obtain ⟨tail', hhead⟩ := head?_stem kind
    rw [hhead] at hstem
    exact hother.1 (List.cons.inj hstem).1
  rcases List.append_eq_append_iff.mp heq with ⟨x, hx, hrest⟩ | ⟨x, rfl, hrest⟩
  · cases x with
    | nil => exact hmeet hrest
    | cons c x =>
      have hmem : c ∈ "const".toList := by simp [hx]
      cases before with
      | nil =>
        obtain ⟨rfl, -⟩ := List.cons.inj hrest
        exact hother.2 hmem
      | cons d before =>
        obtain ⟨rfl, -⟩ := List.cons.inj hrest
        have hblank := hconst d hmem
        simp [hbefore d (by simp)] at hblank
  · cases x with
    | nil => exact hmeet hrest.symm
    | cons c x =>
      have hblank := hb c (by simp)
      cases gap with
      | nil => exact hgapne rfl
      | cons d gap =>
        obtain ⟨rfl, -⟩ := List.cons.inj hrest
        simp [hgap d (by simp)] at hblank

-- A word without blanks that a foreign mark ends starts no declaration.
theorem quiet_of_mark {w : List Char} (mark : Char) (hw : ∀ c ∈ w, Unicode.isBlank c = false)
    (hmark : mark ∉ "const".toList) (hlast : w.getLast? = some mark) : Quiet kind w rest := by
  rintro a b rfl hne ⟨gap, tail, hgap, hgapne, heq⟩
  have hb : mark ∈ b := by
    rw [List.getLast?_append_of_ne_nil _ hne] at hlast
    exact List.mem_of_getLast? hlast
  rcases List.append_eq_append_iff.mp heq with ⟨x, hx, -⟩ | ⟨x, rfl, hrest⟩
  · exact hmark (by simp [hx, hb])
  · cases x with
    | nil => exact hmark (by simpa using hb)
    | cons c x =>
      have hblank := hw c (by simp)
      cases gap with
      | nil => exact hgapne rfl
      | cons d gap =>
        obtain ⟨rfl, -⟩ := List.cons.inj hrest
        simp [hgap d (by simp)] at hblank

namespace Declaration

theorem exists_closing (d : Declaration) :
    ∃ front mark, d.name ++ d.closing = front ++ [mark] ∧ mark ∈ [')', '!', ';'] := by
  cases hb : d.bang <;> cases hs : d.semicolon
  · exact ⟨d.name ++ ['"'], ')', by simp [closing, marked, hb, hs], by simp⟩
  · exact ⟨d.name ++ ['"', ')'], ';', by simp [closing, marked, hb, hs], by simp⟩
  · exact ⟨d.name ++ ['"', ')'], '!', by simp [closing, marked, hb, hs], by simp⟩
  · exact ⟨d.name ++ ['"', ')', '!'], ';', by simp [closing, marked, hb, hs], by simp⟩

theorem lookup_not_blank (d : Declaration) :
    ∀ c ∈ call d.kind ++ (d.name ++ d.closing), Unicode.isBlank c = false := by
  have hcall : ∀ kind, ∀ c ∈ call kind, Unicode.isBlank c = false := by
    rintro ⟨⟩ <;> decide
  have hclosing : ∀ c ∈ d.closing, Unicode.isBlank c = false := by
    rw [closing]
    cases d.bang <;> cases d.semicolon <;> decide
  intro c hc
  rw [List.mem_append, List.mem_append] at hc
  rcases hc with hc | hc | hc
  · exact hcall d.kind c hc
  · exact (d.name_chars c hc).not_blank
  · exact hclosing c hc

theorem bound_not_blank (d : Declaration) : ∀ c ∈ d.bound, Unicode.isBlank c = false := by
  have hstem : ∀ kind, ∀ c ∈ stem kind, Unicode.isBlank c = false := by
    rintro ⟨⟩ <;> decide
  intro c hc
  rcases List.mem_append.mp hc with hc | hc
  · exact hstem d.kind c hc
  · exact d.tail_name.not_blank c hc

-- No declaration starts inside another one.
theorem quiet (d : Declaration) (kind : NameKind) (rest : List Char) :
    ∃ tail, d.text = 'c' :: tail ∧ Quiet kind tail rest := by
  have hword : "const".toList = 'c' :: "onst".toList := by decide
  have htext := d.text_append []
  rw [List.append_nil, List.append_nil, hword, List.cons_append] at htext
  refine ⟨_, htext, ?_⟩
  obtain ⟨front, mark, hend, hmark⟩ := d.exists_closing
  have hlookup : Quiet kind (call d.kind ++ (d.name ++ d.closing)) rest := by
    refine quiet_of_mark mark d.lookup_not_blank ?_ (by simp [hend])
    rcases List.mem_cons.mp hmark with rfl | hmark
    · decide
    · rcases List.mem_cons.mp hmark with rfl | hmark
      · decide
      · rw [List.mem_singleton.mp hmark]
        decide
  have hassigned : Quiet kind ('=' :: (d.after ++ (call d.kind ++ (d.name ++ d.closing)))) rest :=
    quiet_append (u := ['=']) (quiet_of_not_mem (by decide))
      (quiet_append (quiet_of_blanks d.after_blank) hlookup)
  refine quiet_append (quiet_of_not_mem (by decide)) (quiet_append (quiet_of_blanks d.gap_blank) ?_)
  refine quiet_append ?_ (quiet_append (quiet_of_blanks d.before_blank) hassigned)
  rw [List.append_assoc, List.cons_append]
  exact quiet_of_next d.before (by decide) d.bound_not_blank d.before_blank

-- The marks that end a declaration, and those that statements stand behind.
def closers : List Char := ['\x7b', '\x7d', ';', ')', '!']

theorem not_mem_head_of_closer (d : Declaration) {c : Char} (hc : c ∈ closers) : c ∉ d.head := by
  have hchar : ∀ c ∈ closers, Unicode.isBlank c = false ∧ ¬IsNameChar c ∧ c ≠ '=' ∧
      c ∉ "const".toList := by decide
  have hkind : ∀ kind, ∀ c ∈ closers, c ∉ stem kind ∧ c ∉ call kind := by
    rintro ⟨⟩ <;> decide
  obtain ⟨hblank, hname, hequals, hconst⟩ := hchar c hc
  obtain ⟨hstem, hcall⟩ := hkind d.kind c hc
  have hfree {w : List Char} (hw : Blanks w) : c ∉ w := fun hmem => by simp [hw c hmem] at hblank
  have htail : c ∉ d.tail := fun hmem => hname (d.tail_name.2 c hmem)
  delta head
  simp only [bound, List.mem_append, List.mem_cons, not_or]
  exact ⟨hconst, hfree d.gap_blank, ⟨hstem, htail⟩, hfree d.before_blank, hequals,
    hfree d.after_blank, hcall⟩

-- Behind the end of a statement, a blank is outside of a declaration.
theorem not_blank_of_closer (d : Declaration) {front more : List Char} {c blank : Char}
    (hc : c ∈ closers) (h : d.text = front ++ c :: blank :: more) :
    Unicode.isBlank blank = false := by
  have hlookup : ∀ c ∈ d.name ++ d.closing, Unicode.isBlank c = false :=
    fun c hc => d.lookup_not_blank c (List.mem_append_right _ hc)
  rcases List.append_eq_append_iff.mp h with ⟨x, -, hx⟩ | ⟨x, hx, hrest⟩
  · exact hlookup blank (by simp [hx])
  · cases x with
    | nil =>
      rw [List.nil_append] at hrest
      exact hlookup blank (by rw [← hrest]; simp)
    | cons d' x =>
      obtain ⟨rfl, -⟩ := List.cons.inj hrest
      exact absurd (by simp [hx]) (d.not_mem_head_of_closer hc)

end Declaration

end Opening

end Treeshake.Source
