import Treeshake.Ecma.Cursor
import Treeshake.Ecma.Token
import Treeshake.Text.Digit

namespace Treeshake.Ecma.Literal

def codePoint (c : Cursor) : Option (Nat × Cursor) :=
  match c.rest with
  | '\x7b' :: _ =>
    let body := c.next
    let digits := body.rest.takeWhile Text.isHexDigit
    let after := body.skip digits.length
    let value := Text.hexValue digits
    if after.peek == some '\x7d' && !digits.isEmpty && value ≤ 0x10FFFF then
      some (value, after.next)
    else none
  | a :: b :: d :: e :: _ =>
    if [a, b, d, e].all Text.isHexDigit then some (Text.hexValue [a, b, d, e], c.skip 4) else none
  | _ => none

inductive NamePart where
  | char (c : Char) (escaped : Bool) (after : Cursor)
  | fault (after : Cursor)
  | stop

def namePart (allowed : Char → Bool) (c : Cursor) : NamePart :=
  match c.rest with
  | [] => .stop
  | '\\' :: 'u' :: _ =>
    match codePoint (c.skip 2) with
    | some (value, after) =>
      if value.isValidChar && allowed (Char.ofNat value) then
        .char (Char.ofNat value) true after
      else .fault after
    | none => .fault (c.skip 2)
  | '\\' :: _ => .fault c.next
  | x :: _ => if allowed x then .char x false c.next else .stop

structure Name where
  text : List Char
  escaped : Bool
  sound : Bool
  after : Cursor

-- The rest of a name, `done` in reverse. As in all these loops every step takes a character, so
-- the length of the rest bounds it.
def nameFrom (done : List Char) (escaped sound : Bool) (c : Cursor) : Nat → Name
  | 0 => ⟨done.reverse, escaped, sound, c⟩
  | fuel + 1 =>
    match namePart continuesName c with
    | .char x e after => nameFrom (x :: done) (escaped || e) sound after fuel
    | .fault after => nameFrom done escaped false after fuel
    | .stop => ⟨done.reverse, escaped, sound, c⟩

def name? (c : Cursor) : Option Name :=
  match namePart startsName c with
  | .char x e after => some (nameFrom [x] e true after after.rest.length)
  | .fault after => some (nameFrom [] true false after after.rest.length)
  | .stop => none

def digitsFrom (isDigit : Char → Bool) (sound : Bool) (c : Cursor) : Nat → Cursor × Bool
  | 0 => (c, sound)
  | fuel + 1 =>
    match c.rest with
    | '_' :: x :: _ =>
      if isDigit x then digitsFrom isDigit sound (c.skip 2) fuel
      else digitsFrom isDigit false c.next fuel
    | ['_'] => (c.next, false)
    | x :: _ => if isDigit x then digitsFrom isDigit sound c.next fuel else (c, sound)
    | [] => (c, sound)

def digits (isDigit : Char → Bool) (c : Cursor) : Cursor × Bool :=
  if c.peekIs isDigit then digitsFrom isDigit true c.next c.rest.length else (c, false)

-- Neither a digit nor a name may touch the end of a number.
def separate (c : Cursor) (sound : Bool) : Cursor × Bool :=
  match name? c with
  | some n => (n.after, false)
  | none => if c.peekIs Char.isDigit then (c.next, false) else (c, sound)

def based (isDigit : Char → Bool) (c : Cursor) : Token × Cursor × Bool :=
  let (after, sound) := digits isDigit c
  if after.peek == some 'n' then (.bigint, separate after.next sound)
  else (.numeral, separate after sound)

def exponent (c : Cursor) (sound : Bool) : Cursor × Bool :=
  let c := if c.peekIs fun x => x == '+' || x == '-' then c.next else c
  let (after, fine) := digits Char.isDigit c
  separate after (sound && fine)

def isExponentMark (x : Char) : Bool := x == 'e' || x == 'E'

def maybeExponent (c : Cursor) (sound : Bool) : Cursor × Bool :=
  if c.peekIs isExponentMark then exponent c.next sound else separate c sound

def fraction (c : Cursor) (sound : Bool) : Cursor × Bool :=
  if c.peekIs Char.isDigit then
    let (after, fine) := digits Char.isDigit c
    maybeExponent after (sound && fine)
  else maybeExponent c sound

def isOctal (c : Char) : Bool := '0' ≤ c && c ≤ '7'

def isBinary (c : Char) : Bool := c == '0' || c == '1'

-- A number with a leading zero: octal, unless a digit shows that it is decimal.
def zeroLed (c : Cursor) : Cursor × Bool :=
  let decimal := (c.rest.takeWhile Char.isDigit).any fun x => x == '8' || x == '9'
  let after := c.dropWhile Char.isDigit
  if decimal && after.peek == some '.' then fraction after.next true
  else if decimal && after.peek == some 'e' then exponent after.next true
  else separate after true

def numeral (c : Cursor) : Token × Cursor × Bool :=
  match c.rest with
  | '.' :: _ => (.numeral, fraction c.next true)
  | '0' :: x :: _ =>
    if x == 'x' || x == 'X' then based Text.isHexDigit (c.skip 2)
    else if x == 'o' || x == 'O' then based isOctal (c.skip 2)
    else if x == 'b' || x == 'B' then based isBinary (c.skip 2)
    else if x.isDigit then (.numeral, zeroLed c.next)
    else if x == 'n' then (.bigint, separate (c.skip 2) true)
    else if x == '.' then (.numeral, fraction (c.skip 2) true)
    else (.numeral, maybeExponent c.next true)
  | _ =>
    let (after, sound) := digits Char.isDigit c
    match after.peek with
    | some 'n' => (.bigint, separate after.next sound)
    | some '.' => (.numeral, fraction after.next sound)
    | _ => (.numeral, maybeExponent after sound)

structure Escape where
  value : List Char
  sound : Bool
  after : Cursor

def ofCode (n : Nat) : List Char := [if n.isValidChar then Char.ofNat n else '\ufffd']

-- An escape behind its backslash. Octal escapes are for strings only.
def escape (template : Bool) (c : Cursor) : Escape :=
  match c.rest with
  | [] => ⟨[], false, c⟩
  | 'x' :: a :: b :: _ =>
    if Text.isHexDigit a && Text.isHexDigit b then
      ⟨ofCode (Text.hexValue [a, b]), true, c.skip 3⟩
    else ⟨[], false, c.next⟩
  | 'x' :: _ => ⟨[], false, c.next⟩
  | 'u' :: _ =>
    match codePoint c.next with
    | some (value, after) => ⟨ofCode value, true, after⟩
    | none => ⟨[], false, c.next⟩
  | '\r' :: '\n' :: _ => ⟨[], true, c.skip 2⟩
  | 'n' :: _ => ⟨['\n'], true, c.next⟩
  | 'r' :: _ => ⟨['\r'], true, c.next⟩
  | 't' :: _ => ⟨['\t'], true, c.next⟩
  | 'b' :: _ => ⟨['\x08'], true, c.next⟩
  | 'f' :: _ => ⟨['\x0c'], true, c.next⟩
  | 'v' :: _ => ⟨['\x0b'], true, c.next⟩
  | x :: rest =>
    if isLineBreak x then ⟨[], true, c.next⟩
    else if x == '0' && !(rest.head?.any Char.isDigit) then ⟨['\x00'], true, c.next⟩
    else if x.isDigit && template then ⟨[], false, c.next⟩
    else ⟨[x], true, c.next⟩

structure Quotation where
  value : List Char
  sound : Bool
  after : Cursor

def stringFrom (quote : Char) (done : List Char) (sound : Bool) (c : Cursor) : Nat → Quotation
  | 0 => ⟨done.reverse, false, c⟩
  | fuel + 1 =>
    match c.rest with
    | [] => ⟨done.reverse, false, c⟩
    | '\\' :: _ =>
      let e := escape false c.next
      stringFrom quote (e.value.reverse ++ done) (sound && e.sound) e.after fuel
    | x :: _ =>
      if x == quote then ⟨done.reverse, sound, c.next⟩
      else if x == '\n' || x == '\r' then ⟨done.reverse, false, c⟩
      else stringFrom quote (x :: done) sound c.next fuel

def string (quote : Char) (c : Cursor) : Quotation :=
  stringFrom quote [] true c (c.rest.length + 1)

structure TemplatePiece where
  complete : Bool
  -- whether all escapes are well formed
  valid : Bool
  -- whether it ends at all
  sound : Bool
  after : Cursor

def templateFrom (valid : Bool) (c : Cursor) : Nat → TemplatePiece
  | 0 => ⟨true, valid, false, c⟩
  | fuel + 1 =>
    match c.rest with
    | [] => ⟨true, valid, false, c⟩
    | '\x60' :: _ => ⟨true, valid, true, c.next⟩
    | '$' :: '\x7b' :: _ => ⟨false, valid, true, c.skip 2⟩
    | '\\' :: _ =>
      let e := escape true c.next
      templateFrom (valid && e.sound) e.after fuel
    | _ :: _ => templateFrom valid c.next fuel

def template (c : Cursor) : TemplatePiece := templateFrom true c (c.rest.length + 1)

def patternBody (inClass : Bool) (c : Cursor) : Nat → Cursor × Bool
  | 0 => (c, false)
  | fuel + 1 =>
    match c.rest with
    | [] => (c, false)
    | '\\' :: x :: _ => if isLineBreak x then (c.next, false) else patternBody inClass (c.skip 2) fuel
    | x :: _ =>
      if isLineBreak x then (c, false)
      else if x == '/' && !inClass then (c.next, true)
      else patternBody (x == '[' || (inClass && x != ']')) c.next fuel

def patternFlags : List Char := ['g', 'i', 'm', 's', 'u', 'y', 'd', 'v']

-- Each flag is known and stands once, and the two that set a syntax exclude each other.
def flagsSound (flags : List Char) : Bool :=
  flags.all patternFlags.contains && flags.eraseDups.length == flags.length &&
    !(flags.contains 'u' && flags.contains 'v')

def pattern (c : Cursor) : Cursor × Bool :=
  let (close, sound) := patternBody false c.next c.rest.length
  let isFlag (x : Char) : Bool := x.isAlphanum || x == '$' || x == '_'
  let flags := close.rest.takeWhile isFlag
  (close.dropWhile isFlag, sound && flagsSound flags)

end Treeshake.Ecma.Literal
