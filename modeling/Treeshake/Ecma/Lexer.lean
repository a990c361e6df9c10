import Treeshake.Ecma.Literal

namespace Treeshake.Ecma.Lexer

structure Gap where
  broken : Bool
  sound : Bool
  after : Cursor

def blockFrom (broken : Bool) (c : Cursor) : Nat → Gap
  | 0 => ⟨broken, false, c⟩
  | fuel + 1 =>
    match c.rest with
    | [] => ⟨broken, false, c⟩
    | '*' :: '/' :: _ => ⟨broken, true, c.skip 2⟩
    | x :: _ => blockFrom (broken || isLineBreak x) c.next fuel

def gapFrom (broken sound : Bool) (c : Cursor) : Nat → Gap
  | 0 => ⟨broken, sound, c⟩
  | fuel + 1 =>
    match c.rest with
    | '/' :: '/' :: _ => gapFrom broken sound (c.dropWhile (!isLineBreak ·)) fuel
    | '/' :: '*' :: _ =>
      let comment := blockFrom false (c.skip 2) c.rest.length
      gapFrom (broken || comment.broken) (sound && comment.sound) comment.after fuel
    | x :: _ =>
      if isLineBreak x then gapFrom true sound c.next fuel
      else if isGap x then gapFrom broken sound c.next fuel
      else ⟨broken, sound, c⟩
    | [] => ⟨broken, sound, c⟩

def gap (c : Cursor) : Gap := gapFrom false true c (c.rest.length + 1)

-- Marks, longer ones first. A closing angle stands alone, because it may end a list of types.
def marks : List String :=
  ["...", "===", "!==", "**=", "<<=", "&&=", "||=", "??=",
   "=>", "==", "!=", "<=", "<<", "++", "--", "+=", "-=", "*=", "/=", "%=", "&=", "|=", "^=",
   "&&", "||", "??", "?.", "**",
   "\x7b", "\x7d", "(", ")", "[", "]", ";", ",", "<", ">", "+", "-", "*", "/", "%", "&", "|",
   "^", "!", "~", "?", ":", "=", ".", "@"]

-- The longest mark here. A question mark before a number is no link of a chain.
def mark? (c : Cursor) : Option String :=
  marks.find? fun m =>
    c.startsWith m && !(m == "?." && (c.peekAt 2).any Char.isDigit)

structure Scan where
  token : Token
  after : Cursor
  escaped : Bool := false
  sound : Bool := true

def scan (c : Cursor) : Scan :=
  match c.rest with
  | [] => ⟨.finish, c, false, true⟩
  | x :: rest =>
    if x.isDigit || (x == '.' && rest.head?.any Char.isDigit) then
      let (token, after, sound) := Literal.numeral c
      ⟨token, after, false, sound⟩
    else if x == '"' || x == '\'' then
      let s := Literal.string x c.next
      ⟨.string (String.ofList s.value), s.after, false, s.sound⟩
    else if x == '\x60' then
      let t := Literal.template c.next
      ⟨.template t.complete t.valid, t.after, false, t.sound⟩
    else if x == '#' then
      match Literal.name? c.next with
      | some n => ⟨.privateName (String.ofList n.text), n.after, n.escaped, n.sound⟩
      | none => ⟨.broken, c.next, false, false⟩
    else
      match Literal.name? c with
      | some n => ⟨.name (String.ofList n.text), n.after, n.escaped, n.sound⟩
      | none =>
        match mark? c with
        | some m => ⟨.mark m, c.skip m.length, false, true⟩
        | none => ⟨.broken, c.next, false, false⟩

-- What a slash, a brace or a text means depends on what the grammar expects, so the grammar asks
-- for the next token in the way it needs it: by this function, or by one of those below.
def next (c : Cursor) : Lexeme × Cursor :=
  let g := gap c
  let s := scan g.after
  (⟨s.token, ⟨g.after.offset, s.after.offset⟩, g.broken, s.escaped, g.sound && s.sound⟩, s.after)

-- A line that starts a source with `#!` belongs to no token.
def start (source : List Char) : Cursor :=
  let c : Cursor := ⟨source, 0⟩
  if c.startsWith "#!" then c.dropWhile (!isLineBreak ·) else c

def pattern (c : Cursor) (afterBreak : Bool) : Lexeme × Cursor :=
  let (after, sound) := Literal.pattern c
  (⟨.pattern, ⟨c.offset, after.offset⟩, afterBreak, false, sound⟩, after)

def templateRest (c : Cursor) : Lexeme × Cursor :=
  let t := Literal.template c
  (⟨.template t.complete t.valid, ⟨c.offset, t.after.offset⟩, false, false, t.sound⟩, t.after)

-- What lies between elements: text, an opening angle, a brace, or the end.
def child (c : Cursor) : Lexeme × Cursor :=
  match c.rest with
  | [] => (⟨.finish, ⟨c.offset, c.offset⟩, false, false, true⟩, c)
  | x :: _ =>
    if x == '<' || x == '\x7b' then
      (⟨.mark (String.singleton x), ⟨c.offset, c.offset + 1⟩, false, false, true⟩, c.next)
    else
      let text := c.rest.takeWhile fun y => y != '<' && y != '\x7b'
      let after := c.dropWhile fun y => y != '<' && y != '\x7b'
      let sound := !(text.contains '>' || text.contains '\x7d')
      (⟨.prose, ⟨c.offset, after.offset⟩, false, false, sound⟩, after)

def attributeValue (c : Cursor) : Lexeme × Cursor :=
  let g := gap c
  match g.after.rest with
  | x :: _ =>
    if x == '"' || x == '\'' then
      let body := g.after.next
      let value := body.rest.takeWhile (· != x)
      let close := body.dropWhile (· != x)
      let sound := close.peek == some x
      (⟨.string (String.ofList value), ⟨g.after.offset, close.next.offset⟩, g.broken, false,
        g.sound && sound⟩, close.next)
    else next c
  | [] => next c

def hyphenated (c : Cursor) : Cursor :=
  if c.peek == some '-' then c.dropWhile fun x => x == '-' || continuesName x else c

end Treeshake.Ecma.Lexer
