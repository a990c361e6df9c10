import Treeshake.Proofs.Source.Extraction

namespace Treeshake.Source

open Library Pattern
open Barrel (Blanks)
open Import (IsName)

-- The text in front of the name that is looked up.
def statementHead (kind : NameKind) (tail : List Char) : List Char :=
  "const".toList ++ ([' '] ++ ((stem kind ++ tail) ++ ([' '] ++ '=' :: ([' '] ++ call kind))))

def statement (kind : NameKind) (tail name : List Char) : List Char :=
  statementHead kind tail ++ (name ++ ['"', ')'])

def Declaration.plain (kind : NameKind) (tail name : List Char) (htail : IsName tail)
    (hname : ∀ c ∈ name, IsWordOrHyphen c) : Declaration where
  kind := kind
  gap := [' ']
  tail := tail
  before := [' ']
  after := [' ']
  name := name
  bang := false
  semicolon := false
  gap_blank := blanks_one_space
  gap_ne := one_space_ne_nil
  tail_name := htail
  before_blank := blanks_one_space
  after_blank := blanks_one_space
  name_chars := hname

section Quote

-- The quotation mark in front of the name is the first one of a declaration.
theorem Declaration.exists_head (d : Declaration) :
    ∃ front, d.head = front ++ ['"'] ∧ '"' ∉ front := by
  have hcall : ∀ kind, call kind = (call kind).dropLast ++ ['"'] ∧ '"' ∉ (call kind).dropLast ∧
      '"' ∉ stem kind := by
    rintro ⟨⟩ <;> decide
  obtain ⟨hquote, hfree, hstem⟩ := hcall d.kind
  have hblanks {w : List Char} (hw : Blanks w) : '"' ∉ w := fun hmem =>
    absurd (hw '"' hmem) (by decide)
  have htail : '"' ∉ d.tail := fun hmem => absurd (d.tail_name.2 '"' hmem) (by decide)
  refine ⟨"const".toList ++ (d.gap ++ (d.bound ++ (d.before ++ '=' :: (d.after ++
    (call d.kind).dropLast)))), ?_, ?_⟩
  · conv => lhs; delta Declaration.head; rw [hquote]
    simp
  · simp only [Declaration.bound, List.mem_append, List.mem_cons, not_or]
    exact ⟨by decide, hblanks d.gap_blank, ⟨hstem, htail⟩, hblanks d.before_blank, by decide,
      hblanks d.after_blank, hfree⟩

theorem eq_of_quote {u v x y : List Char} (hu : '"' ∉ u) (hv : '"' ∉ v)
    (h : u ++ '"' :: x = v ++ '"' :: y) : u = v ∧ x = y := by
  have hother {w : List Char} (hw : '"' ∉ w) : ∀ c ∈ w, (c != '"') = true := by
    intro c hc
    exact bne_iff_ne.mpr fun heq => hw (heq ▸ hc)
  obtain ⟨huv, hxy⟩ := Text.span_unique h (hother hu) (hother hv) (by simp) (by simp)
  exact ⟨huv, (List.cons.inj hxy).2⟩

theorem Declaration.quote_not_mem_name (d : Declaration) : '"' ∉ d.name := by
  intro hmem
  exact absurd (d.name_chars '"' hmem) (by decide)

-- What stands between the first quotation mark and the next is the name.
theorem Declares.of_quote {names : NameKind → List (List Char)} {front behind rest : List Char}
    {d : Declaration} (hfront : '"' ∉ front) (h : Declares names (front ++ '"' :: behind) d rest) :
    d.head = front ++ ['"'] ∧ behind = d.name ++ (d.closing ++ rest) := by
  obtain ⟨front', hhead, hfree⟩ := d.exists_head
  have htext := h.1
  rw [Declaration.text, hhead] at htext
  simp only [List.append_assoc, List.cons_append, List.nil_append] at htext
  obtain ⟨rfl, rfl⟩ := eq_of_quote hfront hfree htext
  exact ⟨hhead, rfl⟩

end Quote

section Still

variable {names : NameKind → List (List Char)} {kind : NameKind} {w rest : List Char}

-- No declaration of the names starts inside a word that stands in front of the rest.
def Still (names : NameKind → List (List Char)) (w rest : List Char) : Prop :=
  ∀ a b, w = a ++ b → b ≠ [] → ∀ d rest', ¬Declares names (b ++ rest) d rest'

theorem still_append {u v : List Char} (hu : Still names u (v ++ rest)) (hv : Still names v rest) :
    Still names (u ++ v) rest :=
  Text.throughout_append (p := fun text => ∀ d rest, ¬Declares names text d rest) hu hv

theorem Quiet.still (h : Quiet kind w rest) : Still (ofKind kind names) w rest := by
  intro a b hab hne d rest' hd
  obtain ⟨hkind, hd⟩ := declares_ofKind_iff.mp hd
  exact h a b hab hne (hkind ▸ hd.opening)

theorem segmented_still {segments : List Segment} (hw : Still names w rest)
    (h : Segmented names rest segments) :
    Segmented names (w ++ rest) (w.map .char ++ segments) := by
  induction w with
  | nil => exact h
  | cons c w ih =>
    refine .char (hw [] (c :: w) rfl (by simp)) (ih fun a b hab => hw (c :: a) b ?_)
    simp [hab]

end Still

section Statement

variable {names : NameKind → List (List Char)} {kind other : NameKind} {tail name back : List Char}

theorem plain_head (htail : IsName tail) (hname : ∀ c ∈ name, IsWordOrHyphen c) :
    (Declaration.plain kind tail name htail hname).head = statementHead kind tail := rfl

theorem plain_text (htail : IsName tail) (hname : ∀ c ∈ name, IsWordOrHyphen c) :
    (Declaration.plain kind tail name htail hname).text = statement kind tail name := rfl

theorem statement_opening (kind : NameKind) (tail name rest : List Char) :
    Opening kind (statement kind tail name ++ rest) := by
  refine ⟨[' '], tail ++ ([' '] ++ '=' :: ([' '] ++ (call kind ++ (name ++ ('"' :: ')' :: rest))))),
    by decide, by decide, ?_⟩
  delta statement statementHead
  simp only [List.append_assoc, List.cons_append, List.nil_append]

-- A declaration that starts the statement looks up the name that stands there.
theorem Declares.name_eq {rest : List Char} {d : Declaration} (htail : IsName tail)
    (hname : '"' ∉ name) (h : Declares names (statement kind tail name ++ back) d rest) :
    d.name = name := by
  obtain ⟨front, hhead, hfree⟩ := (Declaration.plain kind tail [] htail (by simp)).exists_head
  rw [plain_head] at hhead
  have htext : statement kind tail name ++ back = front ++ '"' :: (name ++ '"' :: ')' :: back) := by
    simp [statement, hhead]
  rw [htext] at h
  obtain ⟨-, hbehind⟩ := h.of_quote hfree
  rw [Declaration.closing, List.cons_append] at hbehind
  exact (eq_of_quote hname d.quote_not_mem_name hbehind).1.symm

-- No declaration starts in the text in front of the name, the first letter apart.
theorem quiet_statementHead (other kind : NameKind) (htail : IsName tail) (rest : List Char) :
    ∃ w, statementHead kind tail = 'c' :: w ∧ Quiet other w rest := by
  have hword : "const".toList = 'c' :: "onst".toList := by decide
  have hcall : ∀ kind, (∀ c ∈ call kind, Unicode.isBlank c = false) ∧
      (call kind).getLast? = some '"' ∧ ∀ c ∈ stem kind, Unicode.isBlank c = false := by
    rintro ⟨⟩ <;> decide
  obtain ⟨hblank, hlast, hstem⟩ := hcall kind
  have hbound : ∀ c ∈ stem kind ++ tail, Unicode.isBlank c = false := by
    intro c hc
    rcases List.mem_append.mp hc with hc | hc
    · exact hstem c hc
    · exact htail.not_blank c hc
  have hspace : Blanks [' '] := by decide
  refine ⟨"onst".toList ++ ([' '] ++ ((stem kind ++ tail) ++ ([' '] ++ '=' :: ([' '] ++ call kind)))),
    ?_, ?_⟩
  · rw [statementHead, hword]
    rfl
  refine quiet_append (quiet_of_not_mem (by decide)) (quiet_append (quiet_of_blanks hspace) ?_)
  have hassigned : Quiet other ('=' :: ([' '] ++ call kind)) rest :=
    quiet_append (u := ['=']) (quiet_of_not_mem (by decide))
      (quiet_append (quiet_of_blanks hspace) (quiet_of_mark '"' hblank (by decide) hlast))
  refine quiet_append ?_ (quiet_append (quiet_of_blanks hspace) hassigned)
  rw [List.append_assoc, List.cons_append]
  exact quiet_of_next [' '] (by decide) hbound hspace

-- A declaration that started in front of the name's closing mark would look up a parenthesis.
theorem not_declares_of_closing {w : List Char} (hw : '"' ∉ w) (d : Declaration)
    (rest : List Char) : ¬Declares names (w ++ '"' :: ')' :: back) d rest := by
  intro hd
  obtain ⟨-, hbehind⟩ := hd.of_quote hw
  cases hname : d.name with
  | nil => simp [hname, Declaration.closing] at hbehind
  | cons c more =>
    rw [hname] at hbehind
    obtain ⟨rfl, -⟩ := List.cons.inj hbehind
    exact absurd (d.name_chars ')' (by simp [hname])) (by decide)

theorem still_closedName (hname : '"' ∉ name) : Still names (name ++ ['"', ')']) back := by
  intro a b hab hne d rest hd
  rcases List.append_eq_append_iff.mp hab with ⟨x, rfl, hx⟩ | ⟨x, hname', rfl⟩
  · cases x with
    | nil =>
      obtain rfl := hx
      exact not_declares_of_closing List.not_mem_nil d rest hd
    | cons c x =>
      cases x with
      | nil =>
        obtain rfl := (List.cons.inj hx).2
        exact not_declares_of_head (by decide) back d rest hd
      | cons e x => simp_all
  · rw [List.append_assoc] at hd
    exact not_declares_of_closing (fun hmem => hname (by simp [hname', hmem])) d rest hd

-- Behind the start of the statement no declaration starts.
theorem still_statement (htail : IsName tail) (hname : '"' ∉ name) :
    ∃ w, statement kind tail name = 'c' :: w ∧ Still (ofKind other names) w back := by
  obtain ⟨w, hhead, hquiet⟩ := quiet_statementHead other kind htail (name ++ ['"', ')'] ++ back)
  refine ⟨w ++ (name ++ ['"', ')']), ?_, still_append hquiet.still (still_closedName hname)⟩
  rw [statement, hhead, List.cons_append]

-- A statement of another kind, or whose name is not looked for, is plain text.
theorem segmented_unlisted {segments : List Segment} (htail : IsName tail) (hname : '"' ∉ name)
    (hlisted : ¬(kind = other ∧ name ∈ names other))
    (h : Segmented (ofKind other names) back segments) :
    Segmented (ofKind other names) (statement kind tail name ++ back)
      ((statement kind tail name).map .char ++ segments) := by
  obtain ⟨w, hstatement, hstill⟩ := still_statement htail hname
  have hnone : ∀ d rest,
      ¬Declares (ofKind other names) (statement kind tail name ++ back) d rest := by
    intro d rest hd
    have heq := hd.name_eq htail hname
    have hkind := opening_unique (statement_opening kind tail name back) hd.opening
    obtain ⟨hother, -, hlooked, -⟩ := declares_ofKind_iff.mp hd
    rw [hother, heq] at hlooked
    exact hlisted ⟨hkind.trans hother, hlooked⟩
  rw [hstatement] at hnone ⊢
  exact .char hnone (segmented_still hstill h)

-- In front of a declaration the segments are those that the text has by itself.
theorem Segmented.append {text : List Char} {segments segments' : List Segment}
    (h : Segmented names text segments) (hback : Opening kind back)
    (h' : Segmented names back segments') :
    Segmented names (text ++ back) (segments ++ segments') := by
  have hhead : back.head? = some 'c' := by
    obtain ⟨gap, more, -, -, rfl⟩ := hback
    rfl
  -- what ends at the declaration or in front of it has ended there before
  have hends {d : Declaration} {rest rest' : List Char} (hends : d.Ends rest)
      (hrest : rest = rest' ++ back) : d.Ends rest' := by
    refine hends.of_head fun c hc => .inl ?_
    cases rest' with
    | nil => cases hc
    | cons e rest' => simpa [hrest] using hc
  induction h with
  | nil => exact h'
  | @char c text segments hnone h ih =>
    refine .char (fun d rest hd => ?_) ih
    obtain ⟨htext, hname, hend⟩ := hd
    have htext : (c :: text) ++ back = d.text ++ rest := htext
    rcases List.append_eq_append_iff.mp htext with ⟨x, hx, hrest⟩ | ⟨x, hx, hrest⟩
    · cases x with
      | nil =>
        rw [List.append_nil] at hx
        exact hnone d [] ⟨by simp [hx], hname, hends hend (by simpa using hrest.symm)⟩
      | cons e x =>
        obtain ⟨w, hstart, hquiet⟩ := d.quiet kind rest
        rw [hstart, List.cons_append] at hx
        exact hquiet text (e :: x) (List.cons.inj hx).2 (by simp) (hrest ▸ hback)
    · exact hnone d x ⟨hx, hname, hends hend hrest⟩
  | @declaration text rest d segments hd h ih =>
    obtain ⟨rfl, hname, hend⟩ := hd
    rw [List.append_assoc]
    refine .declaration ⟨rfl, hname, hend.of_head fun c hc => ?_⟩ ih
    cases rest with
    | nil =>
      right
      simpa [hhead, eq_comm] using hc
    | cons e rest =>
      left
      simpa using hc

end Statement

section Pass

-- What a pass makes of a text whose middle part becomes an import or stays.
def Resolution.Extract.around (front : Resolution.Extract) (middle : List Char)
    (line : Option (List Char)) (back : Resolution.Extract) : Resolution.Extract :=
  ⟨front.imports ++ (line.toList ++ back.imports),
    front.text ++ ((if line.isSome then [] else middle) ++ back.text)⟩

variable {names : NameKind → List (List Char)} {kind other : NameKind} {p : Pattern}

theorem collect_append (g : Declaration → Option (List Char)) (segments segments' : List Segment) :
    collect g (segments ++ segments') = collect g segments ++ collect g segments' := by
  simp [collect]

theorem without_append (drop : Declaration → Bool) (segments segments' : List Segment) :
    without drop (segments ++ segments') = without drop segments ++ without drop segments' := by
  simp [without]

theorem line?_plain (r : Resolution) {tail name : List Char} (htail : IsName tail)
    (hname : ∀ c ∈ name, IsWordOrHyphen c) :
    r.line? kind (.plain kind tail name htail hname) = (r.canonical? kind name).map fun exported =>
      Import.Specifier.text r.path ⟨exported.toList, stem kind ++ tail⟩ := by
  rw [← Import.line_eq]
  rfl

theorem extract_unlisted (r : Resolution) (hp : Finds p (ofKind other names)) (front back : List Char)
    {tail name : List Char} (htail : IsName tail) (hname : '"' ∉ name)
    (hlisted : ¬(kind = other ∧ name ∈ names other)) :
    r.extract other p (front ++ (statement kind tail name ++ back)) =
      (r.extract other p front).around (statement kind tail name) none
        (r.extract other p back) := by
  obtain ⟨fronts, hfront⟩ := exists_segmented (ofKind other names) front
  obtain ⟨backs, hback⟩ := exists_segmented (ofKind other names) back
  have hopening := statement_opening kind tail name back
  have hstatement := segmented_unlisted htail hname hlisted hback
  rw [extract_segmented r hp hfront, extract_segmented r hp hback,
    extract_segmented r hp (hfront.append hopening hstatement), collect_append,
    without_append, textOf_append, collect_chars, textOf_without_chars]
  rfl

-- What stands around a statement is treated as it is by itself. The statement becomes an import if
-- the pass is for its kind and its name is looked for and mapped, else it stays.
theorem extract_statement (r : Resolution) (hp : Finds p (ofKind other names))
    (hchars : ∀ w ∈ names other, ∀ c ∈ w, IsWordOrHyphen c) (front : List Char)
    {tail name back : List Char} (htail : IsName tail) (hname : '"' ∉ name)
    (hbang : back.head? ≠ some '!') (hsemi : back.head? ≠ some ';') {line : Option (List Char)}
    (hline : line = if kind = other ∧ name ∈ names other then
      (r.canonical? other name).map fun exported =>
        Import.Specifier.text r.path ⟨exported.toList, stem other ++ tail⟩ else none) :
    r.extract other p (front ++ (statement kind tail name ++ back)) =
      (r.extract other p front).around (statement kind tail name) line
        (r.extract other p back) := by
  by_cases hlisted : kind = other ∧ name ∈ names other
  · obtain ⟨rfl, hlooked⟩ := hlisted
    obtain ⟨fronts, hfront⟩ := exists_segmented (ofKind kind names) front
    obtain ⟨backs, hback⟩ := exists_segmented (ofKind kind names) back
    have hopening := statement_opening kind tail name back
    let d := Declaration.plain kind tail name htail (hchars name hlooked)
    have hd : Declares (ofKind kind names) (statement kind tail name ++ back) d back :=
      declares_ofKind_iff.mpr ⟨rfl, rfl, hlooked, fun _ => hbang, fun _ => hsemi⟩
    have hdline : r.line? kind d = line := by
      rw [hline, if_pos ⟨rfl, hlooked⟩]
      exact line?_plain r htail _
    rw [extract_segmented r hp hfront, extract_segmented r hp hback,
      extract_segmented r hp (hfront.append hopening (.declaration hd hback)), collect_append,
      without_append, textOf_append]
    cases hsome : line with
    | none =>
      rw [without_kept (by simp [hdline, hsome]), textOf_cons]
      simp [Resolution.Extract.around, collect, hdline, hsome, d, Segment.text, plain_text]
    | some text =>
      rw [without_dropped (by simp [hdline, hsome])]
      simp [Resolution.Extract.around, collect, hdline, hsome]
  · have hnone : line = none := by rw [hline, if_neg hlisted]
    rw [extract_unlisted r hp front back htail hname hlisted, hnone]

end Pass

end Treeshake.Source
