import Treeshake.Pattern.Basic
import Treeshake.Pattern.PropertyName
import Treeshake.Text.Digit

namespace Treeshake.Pattern.Reader

structure Flags where
  ignoreCase : Bool := false
  multiLine : Bool := false
  dotAll : Bool := false
  swapGreed : Bool := false
  unicode : Bool := true
  anyLineEnd : Bool := false
  verbose : Bool := false
deriving DecidableEq, Repr

-- In verbose patterns blanks mean nothing, nor does a number sign with what follows on its line.
def skipBlanks (verbose : Bool) : Bool → List Char → List Char
  | _, [] => []
  | inComment, c :: rest =>
    if !verbose then c :: rest
    else if inComment then skipBlanks verbose (c != '\n') rest
    else if Unicode.isBlank c then skipBlanks verbose false rest
    else if c == '#' then skipBlanks verbose true rest
    else c :: rest

def Flags.skip (f : Flags) (text : List Char) : List Char := skipBlanks f.verbose false text

-- Characters that mean something by themselves, so that a backslash takes the meaning away.
def isMeta (c : Char) : Bool := "\\.+*?()|[]\x7b\x7d^$#&-~".toList.contains c

def isEscapable (c : Char) : Bool := isMeta c || (c.toNat < 0x80 && !c.isAlphanum)

def cased (f : Flags) (s : CharSet) : CharSet :=
  if !f.ignoreCase then s else if f.unicode then .anyCase s else .anyAsciiCase s

def asciiWord : CharSet :=
  .union (.union (.range 'a' 'z') (.range 'A' 'Z')) (.union (.range '0' '9') (.only '_'))

def asciiBlank : CharSet :=
  .union (.range '\t' '\r') (.only ' ')

def letterSet? (f : Flags) (c : Char) : Option CharSet :=
  match c.toLower with
  | 'd' => some (if f.unicode then .property .decimal else .range '0' '9')
  | 's' => some (if f.unicode then .property .blank else asciiBlank)
  | 'w' => some (if f.unicode then .property .word else asciiWord)
  | _ => none

inductive Escape where
  | char (c : Char)
  | set (s : CharSet)
  | look (l : Look)

def ofCode? (digits : List Char) : Option Char :=
  let value := Text.hexValue digits
  if digits.length ≤ 16 && value.isValidChar then some (Char.ofNat value) else none

-- A character by its number: so many digits, or any number of them in braces.
def codePoint? (length : Nat) (text : List Char) : Option (Char × List Char) :=
  match text with
  | '\x7b' :: rest =>
    let digits := rest.takeWhile Text.isHexDigit
    match rest.drop digits.length with
    | '\x7d' :: rest =>
      if digits.isEmpty then none else (ofCode? digits).map fun c => (c, rest)
    | _ => none
  | _ =>
    let digits := text.take length
    if digits.length == length && digits.all Text.isHexDigit then
      (ofCode? digits).map fun c => (c, text.drop length)
    else none

def braced? (text : List Char) : Option (List Char × List Char) :=
  let inside := text.takeWhile (· != '\x7d')
  match text.drop inside.length with
  | _ :: rest => some (inside, rest)
  | [] => none

-- A property between braces, by its name or by kind and value. The flag tells that it is negated.
def propertyText? (text : List Char) : Option (Property × Bool) :=
  let kind := text.takeWhile fun c => c != '=' && c != ':' && c != '!'
  match text.drop kind.length with
  | '!' :: '=' :: value => (Property.valued? kind value).map fun p => (p, true)
  | '=' :: value => (Property.valued? kind value).map fun p => (p, false)
  | ':' :: value => (Property.valued? kind value).map fun p => (p, false)
  | _ => (Property.named? text).map fun p => (p, false)

def property? (f : Flags) (negated : Bool) (text : List Char) :
    Option (CharSet × List Char) := do
  if !f.unicode then none
  let named : Option ((Property × Bool) × List Char) :=
    match text with
    | '\x7b' :: inside => do
      let (name, rest) ← braced? inside
      let p ← propertyText? name
      return (p, rest)
    | c :: rest => (Property.category? [c]).map fun p => ((p, false), rest)
    | [] => none
  let ((p, opposite), rest) ← named
  let s := cased f (.property p)
  return (if negated != opposite then .complement s else s, rest)

def edge? (f : Flags) (name : List Char) : Option Look :=
  match String.ofList name with
  | "start" => some (.wordStart !f.unicode)
  | "end" => some (.wordEnd !f.unicode)
  | "start-half" => some (.wordStartHalf !f.unicode)
  | "end-half" => some (.wordEndHalf !f.unicode)
  | _ => none

-- A word edge behind its letter. Braces that hold no name belong to a repetition.
def wordEdge? (f : Flags) (text : List Char) : Option (Look × List Char) :=
  let plain := (Look.wordEdge !f.unicode, text)
  match text with
  | '\x7b' :: inside =>
    match (f.skip inside).head? with
    | some c =>
      if c.isAlpha || c == '-' then do
        let (name, rest) ← braced? inside
        return (← edge? f (name.filter fun c => !Unicode.isBlank c), rest)
      else some plain
    | none => none
  | _ => some plain

def escape? (f : Flags) (text : List Char) : Option (Escape × List Char) := do
  match text with
  | [] => none
  | c :: rest =>
    match c with
    | 'x' => do
      let (c, rest) ← codePoint? 2 rest
      if !f.unicode && 0x80 ≤ c.toNat then none
      return (.char c, rest)
    | 'u' => do
      let (c, rest) ← codePoint? 4 rest
      return (.char c, rest)
    | 'U' => do
      let (c, rest) ← codePoint? 8 rest
      return (.char c, rest)
    | 'p' => do
      let (s, rest) ← property? f false rest
      return (.set s, rest)
    | 'P' => do
      let (s, rest) ← property? f true rest
      return (.set s, rest)
    | 'a' => return (.char '\x07', rest)
    | 'f' => return (.char '\x0c', rest)
    | 't' => return (.char '\t', rest)
    | 'n' => return (.char '\n', rest)
    | 'r' => return (.char '\r', rest)
    | 'v' => return (.char '\x0b', rest)
    | 'A' => return (.look .textStart, rest)
    | 'z' => return (.look .textEnd, rest)
    | 'b' => do
      let (l, rest) ← wordEdge? f rest
      return (.look l, rest)
    | 'B' => if f.unicode then return (.look (.noWordEdge false), rest) else none
    | '<' => return (.look (.wordStart !f.unicode), rest)
    | '>' => return (.look (.wordEnd !f.unicode), rest)
    | _ =>
      match letterSet? f c with
      | some s =>
        if c.isUpper then
          if f.unicode then return (.set (.complement s), rest) else none
        else return (.set s, rest)
      | none => if isEscapable c then return (.char c, rest) else none

def asciiClass? (name : String) : Option CharSet :=
  let digit := CharSet.range '0' '9'
  let lower := CharSet.range 'a' 'z'
  let upper := CharSet.range 'A' 'Z'
  let alpha := CharSet.union lower upper
  match name with
  | "alnum" => some (.union alpha digit)
  | "alpha" => some alpha
  | "ascii" => some (.range '\x00' '\x7f')
  | "blank" => some (.union (.only '\t') (.only ' '))
  | "cntrl" => some (.union (.range '\x00' '\x1f') (.only '\x7f'))
  | "digit" => some digit
  | "graph" => some (.range '!' '~')
  | "lower" => some lower
  | "print" => some (.range ' ' '~')
  | "punct" => some (.union (.union (.range '!' '/') (.range ':' '@'))
      (.union (.range '[' '\x60') (.range '\x7b' '~')))
  | "space" => some asciiBlank
  | "upper" => some upper
  | "word" => some asciiWord
  | "xdigit" => some (.union digit (.union (.range 'a' 'f') (.range 'A' 'F')))
  | _ => none

def namedFrom? (f : Flags) (negated : Bool) (text : List Char) : Option (CharSet × List Char) :=
  let name := text.takeWhile (· != ':')
  match text.drop name.length with
  | ':' :: ']' :: rest =>
    (asciiClass? (String.ofList name)).map fun s =>
      (if negated then .complement (cased f s) else cased f s, rest)
  | _ => none

def namedClass? (f : Flags) (text : List Char) : Option (CharSet × List Char) :=
  match text with
  | '^' :: rest => namedFrom? f true rest
  | rest => namedFrom? f false rest

inductive Operator where
  | inter
  | diff
  | either
deriving DecidableEq

def Operator.apply : Operator → CharSet → CharSet → CharSet
  | .inter, a, b => .inter a b
  | .diff, a, b => .diff a b
  | .either, a, b => .either a b

-- An open bracket: whether it is negated, what operators have made so far, and the set that
-- grows now.
structure Bracket where
  negated : Bool
  left : Option (Operator × CharSet)
  set : CharSet

def Bracket.add (b : Bracket) (s : CharSet) : Bracket := { b with set := .union b.set s }

def Bracket.whole (b : Bracket) : CharSet :=
  match b.left with
  | some (o, left) => o.apply left b.set
  | none => b.set

def Bracket.operate (b : Bracket) (o : Operator) : Bracket :=
  { b with left := some (o, b.whole), set := .none }

def Bracket.close (b : Bracket) : CharSet := if b.negated then .complement b.whole else b.whole

def plainHyphens (f : Flags) : Nat → List Char → Bool × List Char
  | fuel + 1, '-' :: rest => (true, (plainHyphens f fuel (f.skip rest)).2)
  | _, text => (false, text)

-- An open bracket: hyphens at the front and then a closing bracket are plain.
def bracketFrom (f : Flags) (negated : Bool) (text : List Char) : Bracket × List Char :=
  let (hyphen, text) := plainHyphens f text.length text
  if hyphen then (⟨negated, none, .only '-'⟩, text)
  else
    match text with
    | ']' :: rest => (⟨negated, none, .only ']'⟩, f.skip rest)
    | _ => (⟨negated, none, .none⟩, text)

def openBracket (f : Flags) (text : List Char) : Bracket × List Char :=
  match f.skip text with
  | '^' :: rest => bracketFrom f true (f.skip rest)
  | rest => bracketFrom f false rest

def member? (f : Flags) (text : List Char) : Option (Escape × List Char) :=
  match text with
  | '\\' :: rest => escape? f rest
  | c :: rest => some (.char c, rest)
  | [] => none

def Escape.chars? (f : Flags) : Escape → Option CharSet
  | .char c => some (cased f (.only c))
  | .set s => some s
  | .look _ => none

def range? (f : Flags) : Escape → Escape → Option CharSet
  | .char low, .char high => if low ≤ high then some (cased f (.range low high)) else none
  | _, _ => none

def rangeOrMember? (f : Flags) (text : List Char) : Option (CharSet × List Char) := do
  let (first, rest) ← member? f text
  let rest := f.skip rest
  if !f.unicode && text.head?.any (fun c => 0x80 ≤ c.toNat) then none
  let single := (first.chars? f).map fun s => (s, rest)
  match rest with
  | '-' :: after =>
    match f.skip after with
    | [] => none
    | next :: _ =>
      if next == ']' || next == '-' then single
      else do
        if !f.unicode && 0x80 ≤ next.toNat then none
        let (second, rest) ← member? f (f.skip after)
        (range? f first second).map fun s => (s, f.skip rest)
  | _ => single

-- A class of characters behind its opening bracket. The brackets that are open are kept in a
-- stack, and every step takes a character.
def classFrom? (f : Flags) : Nat → List Bracket → List Char → Option (CharSet × List Char)
  | 0, _, _ => none
  | _, [], _ => none
  | fuel + 1, b :: outer, text =>
    match f.skip text with
    | [] => none
    | '[' :: ':' :: rest =>
      match namedClass? f rest with
      | some (s, rest) => classFrom? f fuel (b.add s :: outer) rest
      | none =>
        let (inner, rest) := openBracket f (':' :: rest)
        classFrom? f fuel (inner :: b :: outer) rest
    | '[' :: rest =>
      let (inner, rest) := openBracket f rest
      classFrom? f fuel (inner :: b :: outer) rest
    | ']' :: rest =>
      -- without Unicode a negated class would have parts of characters
      if b.negated && !f.unicode then none
      else
        match outer with
        | [] => some (b.close, rest)
        | o :: outer => classFrom? f fuel (o.add b.close :: outer) rest
    | '&' :: '&' :: rest => classFrom? f fuel (b.operate .inter :: outer) rest
    | '-' :: '-' :: rest => classFrom? f fuel (b.operate .diff :: outer) rest
    | '~' :: '~' :: rest => classFrom? f fuel (b.operate .either :: outer) rest
    | text => do
      let (s, rest) ← rangeOrMember? f text
      classFrom? f fuel (b.add s :: outer) rest

def class? (f : Flags) (text : List Char) : Option (CharSet × List Char) :=
  let (b, rest) := openBracket f text
  classFrom? f (2 * text.length + 2) [b] rest

def count? (text : List Char) : Option Nat × List Char :=
  let text := text.dropWhile Unicode.isBlank
  let digits := text.takeWhile Char.isDigit
  let rest := (text.drop digits.length).dropWhile Unicode.isBlank
  let value := digits.foldl (fun n c => 10 * n + (c.toNat - '0'.toNat)) 0
  (if digits.isEmpty || 0x100000000 ≤ value then none else some value, rest)

structure Counts where
  least : Nat
  most : Option Nat

def counts? (f : Flags) (text : List Char) : Option (Counts × List Char) := do
  let (first, rest) := count? (f.skip text)
  let least ← first
  match rest with
  | '\x7d' :: rest => return (⟨least, some least⟩, rest)
  | ',' :: rest =>
    match f.skip rest with
    | '\x7d' :: rest => return (⟨least, none⟩, rest)
    | rest =>
      let (second, rest) := count? rest
      let most ← second
      match rest with
      | '\x7d' :: rest => if least ≤ most then return (⟨least, some most⟩, rest) else none
      | _ => none
  | _ => none

-- A group that is open: its name if it keeps what it matches, the flags around it, and what the
-- group around it has so far.
structure Frame where
  name : Option String
  flags : Flags
  choices : List Pattern
  parts : List Pattern
  canRepeat : Bool

-- How far a pattern has been read. Parts and choices are kept in reverse.
structure State where
  flags : Flags
  frames : List Frame
  choices : List Pattern
  parts : List Pattern
  canRepeat : Bool
  names : List String

def State.initial : State := ⟨{}, [], [], [], false, []⟩

def sequence (parts : List Pattern) : Pattern :=
  match parts with
  | [p] => p
  | parts => .seq parts.reverse

def State.whole (s : State) : Pattern :=
  match s.choices with
  | [] => sequence s.parts
  | choices => .alt (sequence s.parts :: choices).reverse

def State.push (s : State) (p : Pattern) : State :=
  { s with parts := p :: s.parts, canRepeat := true }

def State.choose (s : State) : State :=
  { s with choices := sequence s.parts :: s.choices, parts := [], canRepeat := false }

def State.openGroup (s : State) (name : Option String) (inner : Flags) : State :=
  { s with
    frames := ⟨name, s.flags, s.choices, s.parts, s.canRepeat⟩ :: s.frames
    flags := inner, choices := [], parts := [], canRepeat := false }

def State.closeGroup? (s : State) : Option State :=
  match s.frames with
  | [] => none
  | frame :: frames =>
    some { s with
      frames, flags := frame.flags, choices := frame.choices,
      parts := .group frame.name s.whole :: frame.parts, canRepeat := true }

def State.repeatLast? (s : State) (c : Counts) (lazily : Bool) : Option State :=
  match s.parts with
  | p :: parts =>
    if s.canRepeat then
      some { s with parts := .times c.least c.most (lazily == s.flags.swapGreed) p :: parts }
    else none
  | [] => none

-- Flags up to a colon or a closing parenthesis: each once, and all behind a hyphen switched off.
def flags? (f : Flags) (seen : List Char) (off : Bool) (last : Char) :
    List Char → Option (Flags × Char × List Char)
  | [] => none
  | c :: rest =>
    if c == ':' || c == ')' then if last == '-' then none else some (f, c, rest)
    else if c == '-' then if off then none else flags? f seen true '-' rest
    else if seen.contains c then none
    else
      let on := !off
      match c with
      | 'i' => flags? { f with ignoreCase := on } (c :: seen) off c rest
      | 'm' => flags? { f with multiLine := on } (c :: seen) off c rest
      | 's' => flags? { f with dotAll := on } (c :: seen) off c rest
      | 'U' => flags? { f with swapGreed := on } (c :: seen) off c rest
      | 'u' => flags? { f with unicode := on } (c :: seen) off c rest
      | 'R' => flags? { f with anyLineEnd := on } (c :: seen) off c rest
      | 'x' => flags? { f with verbose := on } (c :: seen) off c rest
      | _ => none

def startsGroupName (c : Char) : Bool := c == '_' || Unicode.isAlphabetic c

def continuesGroupName (c : Char) : Bool :=
  c == '_' || c == '.' || c == '[' || c == ']' || Unicode.isAlphabetic c ||
    (Unicode.Category.ofChar c).isNumber

-- The name of a group behind its angle. No two groups share one.
def groupName? (s : State) (text : List Char) : Option (String × List Char) :=
  let name := text.takeWhile (· != '>')
  match name, text.drop name.length with
  | c :: cs, _ :: rest =>
    let name := String.ofList (c :: cs)
    if startsGroupName c && cs.all continuesGroupName && !s.names.contains name then
      some (name, rest)
    else none
  | _, _ => none

def openNamed? (s : State) (text : List Char) : Option (State × List Char) := do
  let (name, rest) ← groupName? s text
  return ({ s with names := name :: s.names }.openGroup (some name) s.flags, rest)

-- What follows a question mark at the front of a group. No group looks ahead or behind.
def markedGroup? (s : State) (text : List Char) : Option (State × List Char) :=
  match text with
  | '=' :: _ => none
  | '!' :: _ => none
  | '<' :: '=' :: _ => none
  | '<' :: '!' :: _ => none
  | 'P' :: '<' :: rest => openNamed? s rest
  | '<' :: rest => openNamed? s rest
  | rest => do
    let (f, close, after) ← flags? s.flags [] false '?' rest
    if close == ':' then return (s.openGroup none f, after)
    else if rest.head? == some ')' then none
    else return ({ s with flags := f, canRepeat := false }, after)

def group? (s : State) (text : List Char) : Option (State × List Char) :=
  match s.flags.skip text with
  | '?' :: rest => markedGroup? s rest
  | rest => some (s.openGroup none s.flags, rest)

def dot? (f : Flags) : Option CharSet :=
  if !f.unicode then none
  else if f.dotAll then some (.property .any)
  else if f.anyLineEnd then some (.complement (.union (.only '\n') (.only '\r')))
  else some (.complement (.only '\n'))

def lineStart (f : Flags) : Look :=
  if !f.multiLine then .textStart else if f.anyLineEnd then .anyLineStart else .lineStart

def lineEnd (f : Flags) : Look :=
  if !f.multiLine then .textEnd else if f.anyLineEnd then .anyLineEnd else .lineEnd

def repetition? (s : State) (c : Counts) (text : List Char) : Option (State × List Char) :=
  match s.flags.skip text with
  | '?' :: rest => (s.repeatLast? c true).map fun s => (s, rest)
  | rest => (s.repeatLast? c false).map fun s => (s, rest)

def step? (s : State) (c : Char) (rest : List Char) : Option (State × List Char) :=
  match c with
  | '(' => group? s rest
  | ')' => s.closeGroup?.map fun s => (s, rest)
  | '|' => some (s.choose, rest)
  | '[' => (class? s.flags rest).map fun (chars, rest) => (s.push (.set chars), rest)
  | '?' => repetition? s ⟨0, some 1⟩ rest
  | '*' => repetition? s ⟨0, none⟩ rest
  | '+' => repetition? s ⟨1, none⟩ rest
  | '\x7b' => do
    let (counts, rest) ← counts? s.flags rest
    repetition? s counts rest
  | '.' => (dot? s.flags).map fun chars => (s.push (.set chars), rest)
  | '^' => some (s.push (.look (lineStart s.flags)), rest)
  | '$' => some (s.push (.look (lineEnd s.flags)), rest)
  | '\\' => do
    match ← escape? s.flags rest with
    | (.char c, rest) => return (s.push (.set (cased s.flags (.only c))), rest)
    | (.set chars, rest) => return (s.push (.set chars), rest)
    | (.look l, rest) => return (s.push (.look l), rest)
  | c => some (s.push (.set (cased s.flags (.only c))), rest)

-- Reads a pattern to its end, where every group is closed. Every step takes a character.
def readFrom? : Nat → State → List Char → Option Pattern
  | 0, _, _ => none
  | fuel + 1, s, text =>
    match s.flags.skip text with
    | [] => if s.frames.isEmpty then some s.whole else none
    | c :: rest => do
      let (s, rest) ← step? s c rest
      readFrom? fuel s rest

def depthLimit : Nat := 250

end Reader

def ofText? (text : String) : Option Pattern :=
  (Reader.readFrom? (text.toList.length + 1) .initial text.toList).filter fun p =>
    p.depth ≤ Reader.depthLimit

end Treeshake.Pattern
