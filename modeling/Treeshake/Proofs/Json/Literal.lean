import Mathlib.Tactic.SplitIfs
import Treeshake.Json.Reader
import Treeshake.Json.Writer
import Treeshake.Proofs.Text.Pieces

namespace Treeshake.Json

section Characters

-- A character is written behind a backslash, by its number, or as it is.
theorem escape_cases (c : Char) :
    (∃ e, Reader.simpleEscape? e = some c ∧ escape c = ['\\', e]) ∨
    (c.toNat < 0x20 ∧ escape c = '\\' :: 'u' :: '0' :: '0' :: hexPair c) ∨
    (c ≠ '"' ∧ c ≠ '\\' ∧ 0x20 ≤ c.toNat ∧ escape c = [c]) := by
  have hmark {c d e : Char} (hc : (c == d) = true) (he : Reader.simpleEscape? e = some d) :
      Reader.simpleEscape? e = some c := by
    rw [he, beq_iff_eq.mp hc]
  unfold escape
  split_ifs with hquote hslash hback htab hline hfeed hreturn hcontrol
  · exact .inl ⟨_, hmark hquote rfl, rfl⟩
  · exact .inl ⟨_, hmark hslash rfl, rfl⟩
  · exact .inl ⟨_, hmark hback rfl, rfl⟩
  · exact .inl ⟨_, hmark htab rfl, rfl⟩
  · exact .inl ⟨_, hmark hline rfl, rfl⟩
  · exact .inl ⟨_, hmark hfeed rfl, rfl⟩
  · exact .inl ⟨_, hmark hreturn rfl, rfl⟩
  · exact .inr (.inl ⟨hcontrol, rfl⟩)
  · rw [beq_iff_eq] at hquote hslash
    exact .inr (.inr ⟨hquote, hslash, Nat.le_of_not_lt hcontrol, rfl⟩)

theorem escape_ne_nil (c : Char) : escape c ≠ [] := by
  rcases escape_cases c with ⟨e, -, heq⟩ | ⟨-, heq⟩ | ⟨-, -, -, heq⟩
  all_goals rw [heq]; exact List.cons_ne_nil _ _

theorem length_lt_escaped (text rest : List Char) :
    text.length < (text.flatMap escape ++ '"' :: rest).length + 1 := by
  have hle := Text.length_le_flatMap escape escape_ne_nil text
  rw [List.length_append]
  omega

theorem toList_literal (text : String) (rest : List Char) :
    (literal text).toList ++ rest = '"' :: (text.toList.flatMap escape ++ '"' :: rest) := by
  simp [literal]

theorem control_of_simpleEscape? {e c : Char} (h : Reader.simpleEscape? e = some c) :
    0x20 ≤ e.toNat := by
  unfold Reader.simpleEscape? at h
  split at h
  all_goals first | decide | cases h

end Characters

section Quotes

-- The backslashes at the end of a text.
def slashes (text : List Char) : Nat := (text.reverse.takeWhile (· == '\\')).length

-- A character behind the text is escaped: each two backslashes before it go together, and one is
-- left.
def Escaping (text : List Char) : Prop := slashes text % 2 = 1

instance (text : List Char) : Decidable (Escaping text) :=
  inferInstanceAs (Decidable (_ = _))

-- Backslashes stand in front of another character only, quotes behind a backslash only, and control
-- characters not at all.
inductive Guarded : List Char → Prop
  | nil : Guarded []
  | plain {c : Char} {rest : List Char} (hquote : c ≠ '"') (hslash : c ≠ '\\')
    (hcontrol : 0x20 ≤ c.toNat) (h : Guarded rest) : Guarded (c :: rest)
  | escape {c : Char} {rest : List Char} (hcontrol : 0x20 ≤ c.toNat) (h : Guarded rest) :
    Guarded ('\\' :: c :: rest)

theorem slashes_slash (text : List Char) : slashes (text ++ ['\\']) = slashes text + 1 := by
  simp [slashes]

theorem slashes_other (text : List Char) {c : Char} (h : c ≠ '\\') : slashes (text ++ [c]) = 0 := by
  simp [slashes, h]

theorem not_escaping_append {text : List Char} {c : Char} (h : c ≠ '\\') :
    ¬Escaping (text ++ [c]) := by
  rw [Escaping, slashes_other text h]
  decide

-- The character that a backslash stands in front of does not escape the next one, even if it is a
-- backslash.
theorem not_escaping_pair {text : List Char} (h : ¬Escaping text) (c : Char) :
    ¬Escaping (text ++ ['\\', c]) := by
  have hpair : text ++ ['\\', c] = (text ++ ['\\']) ++ [c] := by simp
  rw [hpair]
  by_cases hc : c = '\\'
  · subst hc
    rw [Escaping] at h ⊢
    rw [slashes_slash, slashes_slash]
    omega
  · exact not_escaping_append hc

theorem escaping_slash {text : List Char} (h : ¬Escaping text) : Escaping (text ++ ['\\']) := by
  rw [Escaping] at h ⊢
  rw [slashes_slash]
  omega

theorem Guarded.control {text : List Char} (h : Guarded text) : ∀ c ∈ text, 0x20 ≤ c.toNat := by
  induction h with
  | nil => nofun
  | plain hquote hslash hcontrol h ih => exact List.forall_mem_cons.mpr ⟨hcontrol, ih⟩
  | escape hcontrol h ih =>
    exact List.forall_mem_cons.mpr ⟨by decide, List.forall_mem_cons.mpr ⟨hcontrol, ih⟩⟩

theorem Guarded.not_escaping {text before : List Char} (h : Guarded text)
    (hbefore : ¬Escaping before) : ¬Escaping (before ++ text) := by
  induction h generalizing before with
  | nil => rwa [List.append_nil]
  | @plain c rest hquote hslash hcontrol h ih =>
    rw [← List.singleton_append, ← List.append_assoc]
    exact ih (not_escaping_append hslash)
  | @escape c rest hcontrol h ih =>
    have hpair : before ++ '\\' :: c :: rest = (before ++ ['\\', c]) ++ rest := by simp
    rw [hpair]
    exact ih (not_escaping_pair hbefore c)

theorem Guarded.escaping {text before : List Char} (h : Guarded text)
    (hbefore : ¬Escaping before) {front back : List Char} (hquote : text = front ++ '"' :: back) :
    Escaping (before ++ front) := by
  induction h generalizing before front with
  | nil => cases front <;> cases hquote
  | @plain c rest hne hslash hcontrol h ih =>
    cases front with
    | nil => exact absurd (List.cons.inj hquote).1 hne
    | cons d front =>
      obtain ⟨rfl, hrest⟩ := List.cons.inj hquote
      rw [← List.singleton_append, ← List.append_assoc]
      exact ih (not_escaping_append hslash) hrest
  | @escape c rest hcontrol h ih =>
    match front with
    | [] => cases (List.cons.inj hquote).1
    | [d] =>
      obtain ⟨rfl, -⟩ := List.cons.inj hquote
      exact escaping_slash hbefore
    | d :: e :: front =>
      obtain ⟨rfl, htail⟩ := List.cons.inj hquote
      obtain ⟨rfl, hrest⟩ := List.cons.inj htail
      have hpair : before ++ '\\' :: c :: front = (before ++ ['\\', c]) ++ front := by simp
      rw [hpair]
      exact ih (not_escaping_pair hbefore c) hrest

-- No quote between the outer ones ends the literal, the last one does, and nothing stands between
-- them that a literal may not have.
structure Sealed (body : List Char) : Prop where
  quotes : ∀ front back, body = front ++ '"' :: back → Escaping front
  whole : ¬Escaping body
  control : ∀ c ∈ body, 0x20 ≤ c.toNat

theorem Guarded.sealed {body : List Char} (h : Guarded body) : Sealed body := by
  have hnone : ¬Escaping [] := by decide
  exact ⟨fun _ _ hquote => h.escaping hnone hquote, h.not_escaping hnone, h.control⟩

theorem guarded_digit {n : Nat} (hn : n < 16) {rest : List Char} (h : Guarded rest) :
    Guarded (Nat.digitChar n :: rest) := by
  have hdigit : ∀ n < 16, Nat.digitChar n ≠ '"' ∧ Nat.digitChar n ≠ '\\' ∧
      0x20 ≤ (Nat.digitChar n).toNat := by decide
  obtain ⟨hquote, hslash, hcontrol⟩ := hdigit n hn
  exact .plain hquote hslash hcontrol h

theorem guarded_escape (c : Char) {rest : List Char} (h : Guarded rest) :
    Guarded (escape c ++ rest) := by
  rcases escape_cases c with
    ⟨e, hshort, heq⟩ | ⟨hcontrol, heq⟩ | ⟨hquote, hslash, hcontrol, heq⟩
  · rw [heq]
    exact .escape (control_of_simpleEscape? hshort) h
  · have hlow := guarded_digit (n := c.toNat % 16) (by omega) h
    have hhigh := guarded_digit (n := c.toNat / 16) (by omega) hlow
    have hzero : 0 < 16 := by decide
    rw [heq]
    exact .escape (by decide) (guarded_digit hzero (guarded_digit hzero hhigh))
  · rw [heq]
    exact .plain hquote hslash hcontrol h

theorem guarded_flatMap_escape (text : List Char) : Guarded (text.flatMap escape) := by
  induction text with
  | nil => exact .nil
  | cons c text ih => exact guarded_escape c ih

theorem sealed_flatMap_escape (text : List Char) : Sealed (text.flatMap escape) :=
  (guarded_flatMap_escape text).sealed

end Quotes

namespace Reader

-- What a step leaves is what the next step starts from.
theorem bind_of_ok {α β : Type} {first : Reader α} {next : α → Reader β} {text rest : List Char}
    {a : α} (h : first text = .ok (a, rest)) : (first >>= next) text = next a rest := by
  change (first text >>= fun p => next p.1 p.2) = next a rest
  rw [h]
  rfl

theorem hexDigit?_digitChar : ∀ n < 16, Text.hexDigit? (Nat.digitChar n) = some n := by decide

theorem unicodeEscape_of_control {c : Char} (h : c.toNat < 0x20) (text : List Char) :
    unicodeEscape ('0' :: '0' :: (hexPair c ++ text)) = .ok (c, text) := by
  have hhigh := hexDigit?_digitChar (c.toNat / 16) (by omega)
  have hlow := hexDigit?_digitChar (c.toNat % 16) (by omega)
  have hzero : Text.hexDigit? '0' = some 0 := by decide
  have hvalue : ((0 * 16 + 0) * 16 + c.toNat / 16) * 16 + c.toNat % 16 = c.toNat := by omega
  have hunit : hexUnit ('0' :: '0' :: (hexPair c ++ text)) = .ok (c.toNat, text) := by
    rw [hexUnit, bind_of_ok rfl]
    simp only [hexPair, List.cons_append, List.nil_append, hzero, hhigh, hlow, hvalue]
    rfl
  have hplain : ¬(0xDC00 ≤ c.toNat && c.toNat ≤ 0xDFFF) = true := by
    simp only [Bool.and_eq_true, decide_eq_true_eq]
    omega
  have hsingle : ¬(0xD800 ≤ c.toNat && c.toNat ≤ 0xDBFF) = true := by
    simp only [Bool.and_eq_true, decide_eq_true_eq]
    omega
  rw [unicodeEscape, bind_of_ok hunit, if_neg hplain, if_neg hsingle, Char.ofNat_toNat]
  rfl

-- A character that is written as it is.
theorem stringFrom_plain {c : Char} (hquote : c ≠ '"') (hslash : c ≠ '\\')
    (hcontrol : 0x20 ≤ c.toNat) (done text : List Char) (fuel : Nat) :
    stringFrom done (fuel + 1) (c :: text) = stringFrom (c :: done) fuel text := by
  have hget : (get : Reader (List Char)) (c :: text) = .ok (c :: text, c :: text) := rfl
  rw [stringFrom, bind_of_ok hget]
  generalize hwhole : c :: text = whole
  split
  · cases hwhole
  · exact absurd (List.cons.inj hwhole).1 hquote
  · exact absurd (List.cons.inj hwhole).1 hslash
  · exact absurd (List.cons.inj hwhole).1 hslash
  · exact absurd (List.cons.inj hwhole).1 hslash
  · obtain ⟨rfl, rfl⟩ := List.cons.inj hwhole
    rw [if_neg (Nat.not_lt.mpr hcontrol)]
    rfl

theorem stringFrom_short {e c : Char} (h : simpleEscape? e = some c) (done text : List Char)
    (fuel : Nat) :
    stringFrom done (fuel + 1) ('\\' :: e :: text) = stringFrom (c :: done) fuel text := by
  unfold simpleEscape? at h
  split at h
  all_goals cases h <;> rfl

-- Whatever is written for a character is read as that character.
theorem stringFrom_escape (c : Char) (done text : List Char) (fuel : Nat) :
    stringFrom done (fuel + 1) (escape c ++ text) = stringFrom (c :: done) fuel text := by
  rcases escape_cases c with
    ⟨e, hshort, heq⟩ | ⟨hcontrol, heq⟩ | ⟨hquote, hslash, hcontrol, heq⟩
  · rw [heq]
    exact stringFrom_short hshort done text fuel
  · rw [heq]
    change (unicodeEscape >>= fun c => stringFrom (c :: done) fuel)
      ('0' :: '0' :: (hexPair c ++ text)) = _
    rw [bind_of_ok (unicodeEscape_of_control hcontrol text)]
  · rw [heq]
    exact stringFrom_plain hquote hslash hcontrol done text fuel

theorem stringFrom_flatMap_escape (text done rest : List Char) {fuel : Nat}
    (h : text.length < fuel) :
    stringFrom done fuel (text.flatMap escape ++ '"' :: rest) =
      .ok (String.ofList (done.reverse ++ text), rest) := by
  induction text generalizing done fuel with
  | nil =>
    obtain ⟨fuel, rfl⟩ := Nat.exists_eq_add_one_of_ne_zero (Nat.ne_zero_of_lt h)
    rw [List.append_nil]
    rfl
  | cons c text ih =>
    obtain ⟨fuel, rfl⟩ := Nat.exists_eq_add_one_of_ne_zero (Nat.ne_zero_of_lt h)
    rw [List.flatMap_cons, List.append_assoc, stringFrom_escape,
      ih (c :: done) (Nat.lt_of_succ_lt_succ h), List.reverse_cons, List.append_assoc,
      List.singleton_append]

-- A literal is read up to its own end, whatever follows.
theorem string_flatMap_escape (text : String) (rest : List Char) :
    string (text.toList.flatMap escape ++ '"' :: rest) = .ok (text, rest) := by
  rw [string, bind_of_ok rfl, stringFrom_flatMap_escape text.toList [] rest (length_lt_escaped _ _),
    List.reverse_nil, List.nil_append, String.ofList_toList]

end Reader

end Treeshake.Json
