import Treeshake.Json.Numeral

namespace Treeshake.Json

abbrev Reader (α : Type) := StateT (List Char) (Except Fault) α

namespace Reader

def run' {α : Type} (reader : Reader α) (text : List Char) : Except Fault α :=
  (·.1) <$> reader.run text

def fault {α : Type} (f : Fault) : Reader α := fun _ => .error f

def isBlank (c : Char) : Bool := c == ' ' || c == '\n' || c == '\t' || c == '\r'

def peek : Reader (Option Char) := fun text =>
  let rest := text.dropWhile isBlank
  .ok (rest.head?, rest)

def next : Reader Unit := modify List.tail

def word : List Char → Reader Unit
  | [] => pure ()
  | c :: cs => do
    match ← get with
    | [] => fault .endInValue
    | d :: rest => if c == d then set rest; word cs else fault .expectedIdent

def hexUnit : Reader Nat := do
  match ← get with
  | a :: b :: c :: d :: rest =>
    match Text.hexDigit? a, Text.hexDigit? b, Text.hexDigit? c, Text.hexDigit? d with
    | some a, some b, some c, some d =>
      set rest
      return ((a * 16 + b) * 16 + c) * 16 + d
    | _, _, _, _ => fault .badEscape
  | _ => fault .endInString

-- Takes a character that the second half of a surrogate pair needs.
def pairMark (c : Char) : Reader Unit := do
  match ← get with
  | [] => fault .endInString
  | d :: rest => if c == d then set rest else fault .brokenSurrogatePair

-- The character of a `\u` escape, from one unit or from a pair of surrogates.
def unicodeEscape : Reader Char := do
  let unit ← hexUnit
  if 0xDC00 ≤ unit && unit ≤ 0xDFFF then fault .loneSurrogate
  else if 0xD800 ≤ unit && unit ≤ 0xDBFF then
    pairMark '\\'
    pairMark 'u'
    let second ← hexUnit
    if 0xDC00 ≤ second && second ≤ 0xDFFF then
      return Char.ofNat (0x10000 + (unit - 0xD800) * 0x400 + (second - 0xDC00))
    else fault .loneSurrogate
  else return Char.ofNat unit

def simpleEscape? (c : Char) : Option Char :=
  match c with
  | '"' => some '"'
  | '\\' => some '\\'
  | '/' => some '/'
  | 'b' => some '\x08'
  | 'f' => some '\x0c'
  | 'n' => some '\n'
  | 'r' => some '\r'
  | 't' => some '\t'
  | _ => none

def stringFrom (done : List Char) : Nat → Reader String
  | 0 => fault .endInString
  | fuel + 1 => do
    match ← get with
    | [] => fault .endInString
    | '"' :: rest =>
      set rest
      return String.ofList done.reverse
    | '\\' :: 'u' :: rest =>
      set rest
      let c ← unicodeEscape
      stringFrom (c :: done) fuel
    | '\\' :: e :: rest =>
      match simpleEscape? e with
      | some c =>
        set rest
        stringFrom (c :: done) fuel
      | none => fault .badEscape
    | ['\\'] => fault .endInString
    | c :: rest =>
      if c.toNat < 0x20 then fault .controlCharacter
      else
        set rest
        stringFrom (c :: done) fuel

def string : Reader String := do
  stringFrom [] ((← get).length + 1)

-- Passes over the rest of a string; lone surrogates are no fault here.
def skipStringFrom : Nat → Reader Unit
  | 0 => fault .endInString
  | fuel + 1 => do
    match ← get with
    | [] => fault .endInString
    | '"' :: rest => set rest
    | '\\' :: 'u' :: rest =>
      set rest
      let _ ← hexUnit
      skipStringFrom fuel
    | '\\' :: e :: rest =>
      if (simpleEscape? e).isSome then
        set rest
        skipStringFrom fuel
      else fault .badEscape
    | ['\\'] => fault .endInString
    | c :: rest =>
      if c.toNat < 0x20 then fault .controlCharacter
      else
        set rest
        skipStringFrom fuel

def skipString : Reader Unit := do
  skipStringFrom ((← get).length + 1)

def numeral (negative : Bool) : Reader Number := fun text => Numeral.read negative text

-- A value that is no container, or nothing where a container starts.
def scalar? (c : Char) : Reader (Option Json) := do
  match c with
  | 'n' =>
    next
    word ['u', 'l', 'l']
    return some .null
  | 't' =>
    next
    word ['r', 'u', 'e']
    return some (.bool true)
  | 'f' =>
    next
    word ['a', 'l', 's', 'e']
    return some (.bool false)
  | '-' =>
    next
    return some (.number (← numeral true))
  | '"' =>
    next
    return some (.string (← string))
  | '[' => return none
  | '\x7b' => return none
  | c => if c.isDigit then return some (.number (← numeral false)) else fault .expectedValue

def anotherItem (first : Bool) : Reader Bool := do
  match ← peek with
  | none => fault .endInList
  | some ']' => return false
  | some c =>
    if c == ',' && !first then
      next
      match ← peek with
      | none => fault .endInValue
      | some ']' => fault .trailingComma
      | some _ => return true
    else if first then return true
    else fault .expectedCommaOrBracket

def anotherField (first : Bool) : Reader (Option String) := do
  let name : Reader (Option String) := do
    match ← peek with
    | none => fault .endInValue
    | some '"' =>
      next
      return some (← string)
    | some '\x7d' => fault .trailingComma
    | some _ => fault .keyNotString
  match ← peek with
  | none => fault .endInObject
  | some '\x7d' => return none
  | some c =>
    if c == ',' && !first then
      next
      name
    else if first then name
    else fault .expectedCommaOrBrace

def colon : Reader Unit := do
  match ← peek with
  | some ':' => next
  | some _ => fault .expectedColon
  | none => fault .endInObject

def endItems : Reader Unit := do
  match ← peek with
  | some ']' => next
  | some ',' =>
    next
    match ← peek with
    | some ']' => fault .trailingComma
    | _ => fault .trailingCharacters
  | some _ => fault .trailingCharacters
  | none => fault .endInList

def endFields : Reader Unit := do
  match ← peek with
  | some '\x7d' => next
  | some ',' => fault .trailingComma
  | some _ => fault .trailingCharacters
  | none => fault .endInObject

-- Collects the items of a list. Each step takes a character, so the fuel is never used up.
def itemsFrom (item : Reader Json) (done : List Json) : Nat → Reader (List Json)
  | 0 => fault .endInList
  | fuel + 1 => do
    if ← anotherItem done.isEmpty then
      let value ← item
      itemsFrom item (value :: done) fuel
    else
      next
      return done.reverse

def fieldsFrom (item : Reader Json) (first : Bool) (done : List (String × Json)) :
    Nat → Reader (List (String × Json))
  | 0 => fault .endInObject
  | fuel + 1 => do
    match ← anotherField first with
    | some name =>
      colon
      let value ← item
      fieldsFrom item false (Json.put name value done) fuel
    | none =>
      next
      return done

def fuel : Reader Nat := return (← get).length + 1

def valueWith (container : Char → Reader Json) : Reader Json := do
  match ← peek with
  | none => fault .endInValue
  | some c =>
    match ← scalar? c with
    | some result => return result
    | none => container c

-- A value in which at most so many containers lie inside each other.
def value : Nat → Reader Json
  | 0 => valueWith fun _ => fault .tooDeep
  | depth + 1 => valueWith fun c => do
    next
    if c == '[' then return .array (← itemsFrom (value depth) [] (← fuel))
    else return .object (← fieldsFrom (value depth) true [] (← fuel))

def finish : Reader Unit := do
  match ← peek with
  | none => pure ()
  | some _ => fault .trailingCharacters

def wrongKind {α : Type} (expected : String) (c : Char) : Reader α := do
  match ← scalar? c with
  | some found => fault (.wrongKind (.ofValue found) expected)
  | none => fault (.wrongKind (if c == '[' then .sequence else .map) expected)

def expectString (expected : String) : Reader String := do
  match ← peek with
  | none => fault .endInValue
  | some '"' =>
    next
    string
  | some c => wrongKind expected c

def skipName : Reader Unit := do
  match ← peek with
  | some '"' =>
    next
    skipString
    match ← peek with
    | some ':' => next
    | some _ => fault .expectedColon
    | none => fault .endInObject
  | some _ => fault .keyNotString
  | none => fault .endInObject

-- Leaves every container that ends here. The stack holds the open ones, true for objects; the
-- result is the stack at the next value, or nothing when the whole value has ended.
def leave (comma : Bool) : Nat → List Bool → Reader (Option (List Bool))
  | 0, _ => fault .endInValue
  | _, [] => return none
  | fuel + 1, inObject :: outer => do
    let closer := if inObject then '\x7d' else ']'
    match ← peek with
    | none => fault (if inObject then .endInObject else .endInList)
    | some c =>
      if c == ',' && comma then
        next
        return some (inObject :: outer)
      else if c == closer then
        next
        leave true fuel outer
      else if comma then
        fault (if inObject then .expectedCommaOrBrace else .expectedCommaOrBracket)
      else return some (inObject :: outer)

-- Passes over a value of any depth whose parts are of no use.
def skipFrom : Nat → List Bool → Reader Unit
  | 0, _ => fault .endInValue
  | fuel + 1, stack => do
    let after ← match ← peek with
      | none => fault .endInValue
      | some '[' =>
        next
        leave false fuel (false :: stack)
      | some '\x7b' =>
        next
        leave false fuel (true :: stack)
      | some '"' =>
        next
        skipString
        leave true fuel stack
      | some c =>
        if c == '-' || c.isDigit then
          if c == '-' then next
          fun text => (Numeral.skip text).map fun rest => ((), rest)
        else
          let _ ← scalar? c
        leave true fuel stack
    match after with
    | none => pure ()
    | some stack =>
      if stack.head? == some true then skipName
      skipFrom fuel stack

def skip : Reader Unit := do
  skipFrom (2 * (← fuel)) []

end Reader

def depthLimit : Nat := 127

def parse (text : String) : Except Fault Json :=
  Reader.run' (do
    let value ← Reader.value depthLimit
    Reader.finish
    return value) text.toList

end Treeshake.Json
