import Treeshake.Pattern.CharSet

namespace Treeshake

inductive Look where
  | textStart
  | textEnd
  | lineStart
  | lineEnd
  -- lines that a carriage return may end
  | anyLineStart
  | anyLineEnd
  | wordEdge (ascii : Bool)
  | noWordEdge (ascii : Bool)
  | wordStart (ascii : Bool)
  | wordEnd (ascii : Bool)
  | wordStartHalf (ascii : Bool)
  | wordEndHalf (ascii : Bool)
deriving DecidableEq, Repr

inductive Pattern where
  | set (s : CharSet)
  | look (l : Look)
  | seq (parts : List Pattern)
  | alt (choices : List Pattern)
  | group (name : Option String) (inner : Pattern)
  | times (least : Nat) (most : Option Nat) (greedy : Bool) (inner : Pattern)
deriving Repr

namespace Pattern

-- A place in a text: what lies behind it, last character first, and what lies ahead.
structure Place where
  behind : List Char
  ahead : List Char
deriving DecidableEq, Repr

def Place.next? (p : Place) : Option (Char × Place) :=
  match p.ahead with
  | [] => none
  | c :: rest => some (c, ⟨c :: p.behind, rest⟩)

-- What the named groups have matched, the last match first.
abbrev Captures := List (String × List Char)

abbrev Rest (α : Type) := Place → Captures → Option α

def isWordChar (ascii : Bool) (c : Char) : Bool :=
  if ascii then c.isAlphanum || c == '_' else Unicode.isWord c

def holdsAt (look : Look) (p : Place) : Bool :=
  let before (ascii : Bool) := p.behind.head?.any (isWordChar ascii)
  let after (ascii : Bool) := p.ahead.head?.any (isWordChar ascii)
  match look with
  | .textStart => p.behind.isEmpty
  | .textEnd => p.ahead.isEmpty
  | .lineStart => p.behind.isEmpty || p.behind.head? == some '\n'
  | .lineEnd => p.ahead.isEmpty || p.ahead.head? == some '\n'
  | .anyLineStart => p.behind.isEmpty || p.behind.head? == some '\n' ||
      (p.behind.head? == some '\r' && p.ahead.head? != some '\n')
  | .anyLineEnd => p.ahead.isEmpty || p.ahead.head? == some '\r' ||
      (p.ahead.head? == some '\n' && p.behind.head? != some '\r')
  | .wordEdge a => before a != after a
  | .noWordEdge a => before a == after a
  | .wordStart a => !before a && after a
  | .wordEnd a => before a && !after a
  | .wordStartHalf a => !before a
  | .wordEndHalf a => !after a

section

variable {α : Type}

abbrev Once (α : Type) := Rest α → Rest α

def exactly (once : Once α) : Nat → Once α
  | 0, rest => rest
  | n + 1, rest => once (exactly once n rest)

-- At most so many passes, as many or as few as possible first. A pass that takes nothing is
-- the last one.
def upTo (once : Once α) (greedy : Bool) : Nat → Once α
  | 0, rest => rest
  | n + 1, rest => fun place captures =>
    let again : Option α := once
      (fun place' captures' =>
        if place'.ahead.length < place.ahead.length then
          upTo once greedy n rest place' captures'
        else rest place' captures')
      place captures
    if greedy then again <|> rest place captures else rest place captures <|> again

def between (start stop : Place) : List Char :=
  start.ahead.take (start.ahead.length - stop.ahead.length)

mutual

-- Of several ways to match, the one that the pattern prefers is taken: the earlier alternative,
-- then more or fewer repetitions as written.
def run : Pattern → Rest α → Rest α
  | .set s, rest => fun place captures =>
    match place.next? with
    | some (c, place') => if s.has c then rest place' captures else none
    | none => none
  | .look l, rest => fun place captures => if holdsAt l place then rest place captures else none
  | .seq parts, rest => runAll parts rest
  | .alt choices, rest => runAny choices rest
  | .group name inner, rest => fun place captures =>
    run inner
      (fun place' captures' =>
        match name with
        | some name => rest place' ((name, between place place') :: captures')
        | none => rest place' captures')
      place captures
  | .times least most greedy inner, rest =>
    exactly (run inner) least fun place captures =>
      let more := match most with
        | some most => most - least
        | none => place.ahead.length + 1
      upTo (run inner) greedy more rest place captures

def runAll : List Pattern → Rest α → Rest α
  | [], rest => rest
  | p :: ps, rest => run p (runAll ps rest)

def runAny : List Pattern → Rest α → Rest α
  | [], _ => fun _ _ => none
  | p :: ps, rest => fun place captures => run p rest place captures <|> runAny ps rest place captures

end

end

structure Match where
  text : List Char
  captures : Captures
  stop : Place

def matchAt (p : Pattern) (start : Place) : Option Match :=
  run p (fun stop captures => some ⟨between start stop, captures, stop⟩) start []

def Match.group (m : Match) (name : String) : List Char := (m.captures.lookup name).getD []

def searchFrom (p : Pattern) (behind skipped : List Char) : List Char →
    Option (List Char × Match)
  | [] => (matchAt p ⟨behind, []⟩).map fun m => (skipped.reverse, m)
  | c :: rest =>
    match matchAt p ⟨behind, c :: rest⟩ with
    | some m => some (skipped.reverse, m)
    | none => searchFrom p (c :: behind) (c :: skipped) rest

def isMatch (p : Pattern) (text : String) : Bool := (searchFrom p [] [] text.toList).isSome

structure Pieces where
  found : List (List Char × Match)
  tail : List Char

-- Cuts a text at the matches that do not overlap. An empty match is passed by one character,
-- and none may touch the end of the match before it.
def piecesFrom (p : Pattern) (afterMatch : Bool) : Nat → Place → Pieces
  | 0, place => ⟨[], place.ahead⟩
  | fuel + 1, place =>
    match searchFrom p place.behind [] place.ahead with
    | none => ⟨[], place.ahead⟩
    | some (before, m) =>
      if m.text.isEmpty && before.isEmpty && afterMatch then
        match place.next? with
        | none => ⟨[], []⟩
        | some (c, place') =>
          let more := piecesFrom p false fuel place'
          match more.found with
          | [] => ⟨[], c :: more.tail⟩
          | (text, m') :: found => ⟨(c :: text, m') :: found, more.tail⟩
      else
        let more := piecesFrom p true fuel m.stop
        ⟨(before, m) :: more.found, more.tail⟩

-- Every step takes a character or is followed by one that does.
def pieces (p : Pattern) (text : List Char) : Pieces :=
  piecesFrom p false (2 * text.length + 2) ⟨[], text⟩

mutual

def depth : Pattern → Nat
  | .set _ => 0
  | .look _ => 0
  | .seq parts => depthAll parts + 1
  | .alt choices => depthAll choices + 1
  | .group _ inner => depth inner + 1
  | .times _ _ _ inner => depth inner + 1

def depthAll : List Pattern → Nat
  | [] => 0
  | p :: ps => max (depth p) (depthAll ps)

end

end Pattern

end Treeshake
