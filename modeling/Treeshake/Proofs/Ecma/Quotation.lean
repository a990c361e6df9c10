import Treeshake.Proofs.Json.Literal
import Treeshake.Ecma.Lexer

namespace Treeshake.Ecma

open Text

namespace Literal

variable {c : Char} {text : List Char} {offset : Nat}

theorem escape_short {e : Char} (h : Json.Reader.simpleEscape? e = some c) :
    escape false ⟨e :: text, offset⟩ = ⟨[c], true, ⟨text, offset + byteLength [e]⟩⟩ := by
  unfold Json.Reader.simpleEscape? at h
  split at h
  all_goals cases h <;> rfl

theorem codePoint_unit (h : c.toNat < 0x20) :
    codePoint ⟨'0' :: '0' :: (Json.hexPair c ++ text), offset⟩ =
      some (c.toNat, ⟨text, offset + byteLength ('0' :: '0' :: Json.hexPair c)⟩) := by
  have hhigh := Json.Reader.hexDigit?_digitChar (c.toNat / 16) (by omega)
  have hlow := Json.Reader.hexDigit?_digitChar (c.toNat % 16) (by omega)
  have hzero : hexDigit? '0' = some 0 := by decide
  have hdigits : ('0' :: '0' :: Json.hexPair c).all isHexDigit := by
    simp [Json.hexPair, isHexDigit, hzero, hhigh, hlow]
  have hvalue : hexValue ('0' :: '0' :: Json.hexPair c) = c.toNat := by
    simp only [hexValue, Json.hexPair, List.foldl_cons, List.foldl_nil, hzero, hhigh, hlow,
      Option.getD_some]
    omega
  have hafter : Cursor.skip ⟨'0' :: '0' :: (Json.hexPair c ++ text), offset⟩ 4 =
      ⟨text, offset + byteLength ('0' :: '0' :: Json.hexPair c)⟩ := by
    simp [Cursor.skip, Cursor.next, Json.hexPair, byteLength, Nat.add_assoc]
  change (if ('0' :: '0' :: Json.hexPair c).all isHexDigit then
    some (hexValue ('0' :: '0' :: Json.hexPair c), Cursor.skip _ 4) else none) = _
  rw [if_pos hdigits, hvalue, hafter]

theorem escape_of_codePoint {value : Nat} {after : Cursor}
    (h : codePoint (Cursor.next ⟨'u' :: text, offset⟩) = some (value, after)) :
    escape false ⟨'u' :: text, offset⟩ = ⟨ofCode value, true, after⟩ := by
  simp only [escape, h]

theorem escape_unit (h : c.toNat < 0x20) :
    escape false ⟨'u' :: '0' :: '0' :: (Json.hexPair c ++ text), offset⟩ =
      ⟨[c], true, ⟨text, offset + byteLength ('u' :: '0' :: '0' :: Json.hexPair c)⟩⟩ := by
  have hvalid : c.toNat.isValidChar := c.valid
  rw [escape_of_codePoint (codePoint_unit h), ofCode, if_pos hvalid, Char.ofNat_toNat,
    byteLength_cons 'u', Nat.add_assoc]

variable {quote : Char} {done : List Char} {sound : Bool}

theorem stringFrom_slash {e : Escape} (h : escape false ⟨text, offset + '\\'.utf8Size⟩ = e)
    (fuel : Nat) :
    stringFrom quote done sound ⟨'\\' :: text, offset⟩ (fuel + 1) =
      stringFrom quote (e.value.reverse ++ done) (sound && e.sound) e.after fuel := by
  subst h
  rfl

theorem stringFrom_plain (hquote : c ≠ quote) (hslash : c ≠ '\\')
    (hcontrol : 0x20 ≤ c.toNat) (rest : List Char) (fuel : Nat) :
    stringFrom quote done sound ⟨c :: rest, offset⟩ (fuel + 1) =
      stringFrom quote (c :: done) sound ⟨rest, offset + byteLength [c]⟩ fuel := by
  have hne {d : Char} (hd : d.toNat < 0x20) : (c == d) = false := by
    rw [beq_eq_false_iff_ne]
    rintro rfl
    omega
  rw [stringFrom]
  split
  · next hrest => cases hrest
  · next hrest => exact absurd (List.cons.inj hrest).1 hslash
  · next hrest =>
    obtain ⟨rfl, rfl⟩ := List.cons.inj hrest
    have hquote' : (c == quote) = false := beq_eq_false_iff_ne.mpr hquote
    rw [hquote', hne (by decide), hne (by decide)]
    rfl

-- Neither a quote nor a line break stands there that would end the string.
theorem stringFrom_escape (rest : List Char) (fuel : Nat) :
    stringFrom '"' done sound ⟨Json.escape c ++ rest, offset⟩ (fuel + 1) =
      stringFrom '"' (c :: done) sound ⟨rest, offset + byteLength (Json.escape c)⟩ fuel := by
  rcases Json.escape_cases c with
    ⟨e, hshort, heq⟩ | ⟨hcontrol, heq⟩ | ⟨hquote, hslash, hcontrol, heq⟩
  · rw [heq, List.cons_append, List.singleton_append, stringFrom_slash (escape_short hshort),
      Bool.and_true, byteLength_cons '\\', Nat.add_assoc]
    rfl
  · rw [heq]
    change stringFrom '"' done sound
      ⟨'\\' :: 'u' :: '0' :: '0' :: (Json.hexPair c ++ rest), offset⟩ (fuel + 1) = _
    rw [stringFrom_slash (escape_unit hcontrol), Bool.and_true, byteLength_cons '\\', Nat.add_assoc]
    rfl
  · rw [heq]
    exact stringFrom_plain hquote hslash hcontrol rest fuel

theorem stringFrom_flatMap_escape (written rest : List Char) {fuel : Nat}
    (h : written.length < fuel) :
    stringFrom '"' done true ⟨written.flatMap Json.escape ++ '"' :: rest, offset⟩ fuel =
      ⟨done.reverse ++ written, true,
        ⟨rest, offset + byteLength (written.flatMap Json.escape ++ ['"'])⟩⟩ := by
  induction written generalizing done offset fuel with
  | nil =>
    obtain ⟨fuel, rfl⟩ := Nat.exists_eq_add_one_of_ne_zero (Nat.ne_zero_of_lt h)
    rw [List.append_nil]
    rfl
  | cons c written ih =>
    obtain ⟨fuel, rfl⟩ := Nat.exists_eq_add_one_of_ne_zero (Nat.ne_zero_of_lt h)
    rw [List.flatMap_cons, List.append_assoc, List.append_assoc, stringFrom_escape,
      ih (Nat.lt_of_succ_lt_succ h), List.reverse_cons, List.append_assoc, List.singleton_append,
      byteLength_append (Json.escape c), Nat.add_assoc]

end Literal

-- The literal is a token of its own wherever a token may start.
theorem Lexer.scan_literal (text : String) (rest : List Char) (offset : Nat) :
    scan ⟨(Json.literal text).toList ++ rest, offset⟩ =
      ⟨.string text, ⟨rest, offset + byteLength (Json.literal text).toList⟩, false, true⟩ := by
  have hbytes : '"'.utf8Size + byteLength (text.toList.flatMap Json.escape ++ ['"']) =
      byteLength (Json.literal text).toList := by
    rw [← byteLength_cons, ← Json.toList_literal text [], List.append_nil]
  have hstring : Literal.string '"'
      ⟨text.toList.flatMap Json.escape ++ '"' :: rest, offset + '"'.utf8Size⟩ =
      ⟨text.toList, true, ⟨rest, offset + byteLength (Json.literal text).toList⟩⟩ := by
    rw [Literal.string, Literal.stringFrom_flatMap_escape text.toList rest
      (Json.length_lt_escaped _ _), Nat.add_assoc, hbytes]
    rfl
  have hquote (ahead : List Char) : scan ⟨'"' :: ahead, offset⟩ =
      let s := Literal.string '"' ⟨ahead, offset + '"'.utf8Size⟩
      ⟨.string (String.ofList s.value), s.after, false, s.sound⟩ := rfl
  rw [Json.toList_literal, hquote, hstring]
  simp only [String.ofList_toList]

end Treeshake.Ecma
