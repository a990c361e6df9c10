import Treeshake.Unicode.Property
import Treeshake.Text.Offset

namespace Treeshake.Ecma

structure Cursor where
  rest : List Char
  offset : Nat
deriving Inhabited

namespace Cursor

def peek (c : Cursor) : Option Char := c.rest.head?

def peekAt (c : Cursor) (n : Nat) : Option Char := c.rest[n]?

def next (c : Cursor) : Cursor :=
  match c.rest with
  | [] => c
  | x :: rest => ⟨rest, c.offset + x.utf8Size⟩

def skip (c : Cursor) : Nat → Cursor
  | 0 => c
  | n + 1 => skip c.next n

def dropFrom (p : Char → Bool) : List Char → Nat → Cursor
  | [], offset => ⟨[], offset⟩
  | x :: rest, offset =>
    if p x then dropFrom p rest (offset + x.utf8Size) else ⟨x :: rest, offset⟩

def dropWhile (p : Char → Bool) (c : Cursor) : Cursor := dropFrom p c.rest c.offset

def startsWith (c : Cursor) (text : String) : Bool := text.toList.isPrefixOf c.rest

def peekIs (c : Cursor) (p : Char → Bool) : Bool :=
  match c.rest with
  | [] => false
  | x :: _ => p x

end Cursor

def isLineBreak (c : Char) : Bool :=
  c == '\n' || c == '\r' || c.toNat == 0x2028 || c.toNat == 0x2029

def isGap (c : Char) : Bool :=
  let n := c.toNat
  n == 0x20 || n == 0x09 || n == 0x0B || n == 0x0C || n == 0x85 || n == 0xA0 || n == 0xFEFF ||
    n == 0x1680 || (0x2000 ≤ n && n ≤ 0x200B) || n == 0x202F || n == 0x205F || n == 0x3000

def startsName (c : Char) : Bool := c == '$' || c == '_' || Unicode.startsName c

def continuesName (c : Char) : Bool := c == '$' || Unicode.continuesName c

end Treeshake.Ecma
