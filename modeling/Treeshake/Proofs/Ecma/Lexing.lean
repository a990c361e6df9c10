import Treeshake.Proofs.Ecma.Reach
import Treeshake.Proofs.Text.Offset

namespace Treeshake.Ecma

-- A place of a source.
def Cursor.InSource (source : List Char) (c : Cursor) : Prop := Cursor.Reaches ⟨source, 0⟩ c

-- An identifier, its escapes decoded, is what a stretch of a source spells.
def Spelled (source : List Char) (name : String) (span : Text.Span) : Prop :=
  ∃ c n, Cursor.InSource source c ∧ c.offset = span.start ∧ Literal.name? c = some n ∧
    String.ofList n.text = name ∧ n.after.offset = span.stop

structure Lexeme.Stands (source : List Char) (l : Lexeme) (after : Cursor) : Prop where
  start_le : l.span.start ≤ after.offset
  name : ∀ text, l.token = .name text → Spelled source text l.span ∧ l.span.stop ≤ after.offset
  mark : ∀ text, l.token = .mark text → ∃ c : Cursor, c.InSource source ∧
    c.rest = text.toList ++ after.rest ∧ c.offset + Text.byteLength text.toList = after.offset ∧
    l.span.start ≤ c.offset

-- What a scanner finds stands behind the place where it starts.
def Scans (scanner : Cursor → Lexeme × Cursor) : Prop :=
  ∀ source c, c.InSource source → (scanner c).2.InSource source ∧
    (scanner c).1.Stands source (scanner c).2 ∧ c.offset ≤ (scanner c).1.span.start

variable {source : List Char}

theorem Cursor.InSource.trans {c c' : Cursor} (h : c.InSource source) (h' : c.Reaches c') :
    c'.InSource source :=
  Cursor.Reaches.trans h h'

theorem Spelled.start_lt_stop {name : String} {span : Text.Span} (h : Spelled source name span) :
    span.start < span.stop := by
  obtain ⟨c, n, -, hstart, hname, -, hstop⟩ := h
  rw [← hstart, ← hstop]
  exact (Literal.reaches_name? hname).2

theorem Spelled.cutsFrom {name : String} {span : Text.Span} (h : Spelled source name span) :
    span.CutsFrom source := by
  have hlt := h.start_lt_stop
  obtain ⟨c, n, ⟨before, hsource, hoffset⟩, hstart, hname, -, hstop⟩ := h
  obtain ⟨⟨middle, hrest, hoffset'⟩, -⟩ := Literal.reaches_name? hname
  have hbefore : Text.byteLength before = span.start := by
    rw [← hstart, hoffset, Nat.zero_add]
  have hmiddle : Text.byteLength before + Text.byteLength middle = span.stop := by
    rw [← hstop, hoffset', hstart, hbefore]
  refine ⟨before, middle, n.after.rest, by rw [← hrest]; exact hsource, ?_, hbefore, hmiddle⟩
  rintro rfl
  rw [hbefore, Text.byteLength] at hmiddle
  omega

-- A scanner can go back to the start of a mark.
theorem Lexeme.Stands.back {l : Lexeme} {after : Cursor} (h : l.Stands source after) {text : String}
    (htoken : l.token = .mark text) :
    Cursor.InSource source ⟨text.toList ++ after.rest, after.offset - Text.byteLength text.toList⟩ ∧
      l.span.start ≤ after.offset - Text.byteLength text.toList := by
  obtain ⟨⟨rest, offset⟩, hc, hrest, hoffset, hstart⟩ := h.mark text htoken
  dsimp only at hrest hoffset hstart
  have hback : offset = after.offset - Text.byteLength text.toList := by omega
  rw [hrest, hback] at hc
  rw [hback] at hstart
  exact ⟨hc, hstart⟩

-- A token that is neither a name nor a mark only has a start.
theorem Lexeme.stands_of_start_le {l : Lexeme} {after : Cursor} (h : l.span.start ≤ after.offset)
    (hname : ∀ text, l.token ≠ .name text) (hmark : ∀ text, l.token ≠ .mark text) :
    l.Stands source after :=
  ⟨h, fun text heq => absurd heq (hname text), fun text heq => absurd heq (hmark text)⟩

namespace Lexer

open Cursor Literal

theorem reaches_blockFrom (broken : Bool) (c : Cursor) (fuel : Nat) :
    c.Reaches (blockFrom broken c fuel).after := by
  induction fuel generalizing broken c with
  | zero => exact .refl c
  | succ fuel ih =>
    rw [blockFrom]
    split
    · exact .refl c
    · exact reaches_skip c 2
    · exact (reaches_next c).trans (ih _ _)

theorem reaches_gapFrom (broken sound : Bool) (c : Cursor) (fuel : Nat) :
    c.Reaches (gapFrom broken sound c fuel).after := by
  induction fuel generalizing broken sound c with
  | zero => exact .refl c
  | succ fuel ih =>
    rw [gapFrom]
    split
    · exact (reaches_dropWhile _ c).trans (ih _ _ _)
    · exact ((reaches_skip c 2).trans (reaches_blockFrom _ _ _)).trans (ih _ _ _)
    · split
      · exact (reaches_next c).trans (ih _ _ _)
      split
      · exact (reaches_next c).trans (ih _ _ _)
      · exact .refl c
    · exact .refl c

theorem reaches_gap (c : Cursor) : c.Reaches (gap c).after := reaches_gapFrom _ _ _ _

theorem reaches_scan (c : Cursor) : c.Reaches (scan c).after := by
  unfold scan
  split
  · exact .refl c
  · split
    · exact reaches_numeral c
    split
    · exact (reaches_next c).trans (reaches_stringFrom _ _ _ _ _)
    split
    · exact (reaches_next c).trans (reaches_templateFrom _ _ _)
    split
    · split
      · next hname => exact (reaches_next c).trans (reaches_name? hname).1
      · exact reaches_next c
    · split
      · next hname => exact (reaches_name? hname).1
      · split
        · exact reaches_skip c _
        · exact reaches_next c

theorem numeral_token (c : Cursor) :
    (numeral c).1 = .numeral ∨ (numeral c).1 = .bigint := by
  have hbased (isDigit : Char → Bool) (c : Cursor) :
      (based isDigit c).1 = .numeral ∨ (based isDigit c).1 = .bigint := by
    unfold based
    dsimp only
    split <;> simp
  unfold numeral
  split
  · exact .inl rfl
  · repeat' split
    all_goals first | exact hbased _ _ | simp
  · dsimp only
    split <;> simp

-- What a scanned name or mark says about the text ahead.
theorem scan_spells (c : Cursor) :
    (∀ text, (scan c).token = .name text → ∃ n, name? c = some n ∧ String.ofList n.text = text ∧
      n.after = (scan c).after) ∧
    ∀ text, (scan c).token = .mark text → c.rest = text.toList ++ (scan c).after.rest ∧
      c.offset + Text.byteLength text.toList = (scan c).after.offset := by
  unfold scan
  split
  · simp
  · split
    · rcases numeral_token c with htoken | htoken <;> simp [htoken]
    split
    · simp
    split
    · simp
    split
    · split <;> simp
    · split
      · next n hname =>
        simp only [Token.name.injEq, reduceCtorEq, false_implies, implies_true, and_true]
        rintro text rfl
        exact ⟨n, hname, rfl, rfl⟩
      · split
        · next m hmark =>
          have hstarts := List.find?_some hmark
          rw [Bool.and_eq_true] at hstarts
          obtain ⟨rest, hrest⟩ := List.isPrefixOf_iff_prefix.mp hstarts.1
          obtain ⟨hafter, hoffset⟩ := skip_of_append hrest.symm
          rw [String.length_toList] at hafter hoffset
          simp only [Token.mark.injEq, reduceCtorEq, false_implies, implies_true, true_and]
          rintro text rfl
          exact ⟨by rw [hafter, hrest], hoffset.symm⟩
        · simp

theorem scans_next : Scans next := by
  intro source c hc
  have hgap := reaches_gap c
  have hscan := reaches_scan (gap c).after
  obtain ⟨hname, hmark⟩ := scan_spells (gap c).after
  refine ⟨hc.trans (hgap.trans hscan),
    ⟨hscan.offset_le, fun text htoken => ?_, fun text htoken => ?_⟩, hgap.offset_le⟩
  · obtain ⟨n, hn, htext, hafter⟩ := hname text htoken
    exact ⟨⟨_, n, hc.trans hgap, rfl, hn, htext, by rw [hafter]; rfl⟩, Nat.le_refl _⟩
  · obtain ⟨hrest, hoffset⟩ := hmark text htoken
    exact ⟨_, hc.trans hgap, hrest, hoffset, Nat.le_refl _⟩

theorem scans_templateRest : Scans templateRest := by
  intro source c hc
  have hafter : c.Reaches (templateRest c).2 := reaches_templateFrom _ _ _
  exact ⟨hc.trans hafter, Lexeme.stands_of_start_le hafter.offset_le (by simp [templateRest])
    (by simp [templateRest]), Nat.le_refl _⟩

theorem scans_child : Scans child := by
  intro source c hc
  unfold child
  split
  · exact ⟨hc, Lexeme.stands_of_start_le (Nat.le_refl _) (by simp) (by simp), Nat.le_refl _⟩
  · next x rest hrest =>
    split
    · have hnext := reaches_next c
      refine ⟨hc.trans hnext, ⟨hnext.offset_le, by simp, fun text htoken => ?_⟩, Nat.le_refl _⟩
      obtain rfl := Token.mark.inj htoken
      refine ⟨c, hc, ?_, ?_, Nat.le_refl _⟩
      · simp [hrest, Cursor.next]
      · simp [hrest, Cursor.next, Text.byteLength]
    · have hafter := reaches_dropWhile (fun y => y != '<' && y != '\x7b') c
      exact ⟨hc.trans hafter, Lexeme.stands_of_start_le hafter.offset_le (by simp) (by simp),
        Nat.le_refl _⟩

theorem scans_attributeValue : Scans attributeValue := by
  intro source c hc
  have hgap := reaches_gap c
  unfold attributeValue
  dsimp only
  split
  · next x rest hrest =>
    split
    · have hclose : (gap c).after.Reaches
          (((gap c).after.next.dropWhile (· != x)).next) :=
        (reaches_next _).trans ((reaches_dropWhile _ _).trans (reaches_next _))
      exact ⟨hc.trans (hgap.trans hclose), Lexeme.stands_of_start_le hclose.offset_le (by simp)
        (by simp), hgap.offset_le⟩
    · exact scans_next source c hc
  · exact scans_next source c hc

theorem scans_pattern (afterBreak : Bool) : Scans fun c => pattern c afterBreak := by
  intro source c hc
  have hafter : c.Reaches (pattern c afterBreak).2 := reaches_pattern c
  exact ⟨hc.trans hafter, Lexeme.stands_of_start_le hafter.offset_le (by simp [pattern])
    (by simp [pattern]), Nat.le_refl _⟩

theorem reaches_hyphenated (c : Cursor) : c.Reaches (hyphenated c) := by
  unfold hyphenated
  split
  · exact reaches_dropWhile _ c
  · exact .refl c

theorem inSource_start (source : List Char) : (start source).InSource source := by
  unfold start
  dsimp only
  split
  · exact reaches_dropWhile _ _
  · exact .refl _

end Lexer

end Treeshake.Ecma
