import Treeshake.Ecma.Lexer
import Treeshake.Ecma.Tree

namespace Treeshake.Ecma

structure Dialect where
  typed : Bool
  elements : Bool
deriving DecidableEq, Repr

structure Flags where
  inOperator : Bool := true
  yields : Bool := false
  awaits : Bool := false
  returns : Bool := false
  ambient : Bool := false
  conditional : Bool := true
  decorating : Bool := false
deriving DecidableEq, Repr

structure State where
  dialect : Dialect
  flags : Flags
  lexeme : Lexeme
  after : Cursor
  -- false once something is wrong that does not stop the parse
  sound : Bool
  isModule : Bool
  exported : List String
  -- places where no arrow function with parentheses starts
  notArrow : List Nat
  -- a bound on the steps of every loop
  limit : Nat

-- A parser either succeeds or gives up; the state is kept in both cases.
abbrev Parser := EStateM Unit State

inductive Rule where
  | statement (single : Bool)
  | expression
  | assignment (resultType : Bool)
  | binary (level : Nat)
  | unary
  | leftHand
  | callee
  | pattern (reach : Reach)
  | type
  | element (inChild : Bool)
deriving DecidableEq, Repr

-- A rule calls the rules that it nests through a table, so that the recursion between rules is
-- tied in one place.
abbrev Grammar := Rule → Parser Tree

namespace Parser

def giveUp {α : Type} : Parser α := throw ()

def blame : Parser Unit := modify fun s => { s with sound := false }

def blameIf (wrong : Bool) : Parser Unit := if wrong then blame else pure ()

def token : Parser Token := return (← get).lexeme.token

def flags : Parser Flags := return (← get).flags

def isTyped : Parser Bool := return (← get).dialect.typed

def span : Parser Text.Span := return (← get).lexeme.span

def afterBreak : Parser Bool := return (← get).lexeme.afterBreak

def advanceWith (scanner : Cursor → Lexeme × Cursor) : Parser Unit :=
  modify fun s =>
    let (lexeme, after) := scanner s.after
    { s with lexeme, after, sound := s.sound && lexeme.sound }

def advanceName : Parser Unit := advanceWith Lexer.next

-- Keywords have no escapes.
def checkKeyword : Parser Unit := do
  match (← get).lexeme with
  | ⟨.name text, _, _, true, _⟩ => blameIf (isKeyword text)
  | _ => pure ()

def advance : Parser Unit := do
  checkKeyword
  advanceName

def sees (mark : String) : Parser Bool := return (← token).isMark mark

def seesWord (word : String) : Parser Bool := return (← token).isName word

def seesAny (words : List String) : Parser Bool := return words.any (← token).isName

def seesEnd : Parser Bool := return (← token) == .finish

def accept (mark : String) : Parser Bool := do
  if ← sees mark then
    advance
    return true
  else return false

def acceptWord (word : String) : Parser Bool := do
  if ← seesWord word then
    advance
    return true
  else return false

def expect (mark : String) : Parser Unit := do
  if !(← accept mark) then giveUp

def expectWord (word : String) : Parser Unit := do
  if !(← acceptWord word) then giveUp

def under {α : Type} (change : Flags → Flags) (p : Parser α) : Parser α := do
  let old ← flags
  modify fun s => { s with flags := change s.flags }
  let result ← p
  modify fun s => { s with flags := old }
  return result

-- Tries a parser; when it gives up, nothing has happened, but for the notes on arrow functions.
def attempt {α : Type} (p : Parser α) : Parser (Option α) := fun s =>
  match p s with
  | .ok a s' => .ok (some a) s'
  | .error _ s' => .ok none { s with notArrow := s'.notArrow }

-- Looks ahead and comes back. Giving up counts as the fallback.
def preview {α : Type} (fallback : α) (p : Parser α) : Parser α := fun s =>
  match p s with
  | .ok a s' => .ok a { s with notArrow := s'.notArrow }
  | .error _ s' => .ok fallback { s with notArrow := s'.notArrow }

def ahead (p : Parser Bool) : Parser Bool := preview false p

-- Tries a parser and keeps what it did only when it found something.
def attemptOption {α : Type} (p : Parser (Option α)) : Parser (Option α) := fun s =>
  match p s with
  | .ok (some a) s' => .ok (some a) s'
  | .ok none s' => .ok none { s with notArrow := s'.notArrow }
  | .error _ s' => .ok none { s with notArrow := s'.notArrow }

def loop {σ : Type} (step : σ → Parser (Option σ)) : Nat → σ → Parser σ
  | 0, _ => giveUp
  | fuel + 1, s => do
    match ← step s with
    | some s' => loop step fuel s'
    | none => return s

-- A step takes a token, so the loop ends before the text does.
def iterate {σ : Type} (step : σ → Parser (Option σ)) (s : σ) : Parser σ := do
  loop step (← get).limit s

def collect (more : Parser (Option Tree)) : Parser (List Tree) := do
  let found ← iterate (fun (done : List Tree) => do
    return (← more).map fun tree => tree :: done) []
  return found.reverse

-- Items with commas between them, up to a closing mark that is not taken. The flag tells whether
-- a comma stands behind the last one.
def commaList (close : String) (item : Parser Tree) : Parser (List Tree × Bool) := do
  let (done, _, trailing) ← iterate (fun (done, first, _) => do
      if ← sees close then return none
      if !first then expect ","
      if ← sees close then return some (done, false, true)
      return some ((← item) :: done, false, false))
    (([] : List Tree), true, false)
  return (done.reverse, trailing)

def enclosed (opening close : String) (item : Parser Tree) : Parser (List Tree) := do
  expect opening
  let (items, _) ← commaList close item
  expect close
  return items

def canEnd : Parser Bool := do
  return (← sees ";") || (← sees "\x7d") || (← seesEnd) || (← afterBreak)

def endStatement : Parser Unit := do
  if !(← accept ";") then
    if !(← canEnd) then giveUp

def isIdentifier : Parser Bool := do
  match ← token with
  | .name text => return !isReserved text
  | _ => return false

-- Some words cannot name anything where they are operators.
def checkIdentifier (text : String) : Parser Unit := do
  let f ← flags
  blameIf ((f.awaits && text == "await") || (f.yields && text == "yield"))

-- Any name and where it stands, reserved words included.
def placedName : Parser (String × Text.Span) := do
  match ← token with
  | .name text =>
    let place ← span
    advanceName
    return (text, place)
  | _ => giveUp

def anyName : Parser String := return (← placedName).1

def identifier : Parser (String × Text.Span) := do
  if !(← isIdentifier) then giveUp
  let (text, place) ← placedName
  checkIdentifier text
  return (text, place)

def nextIs (p : Parser Bool) : Parser Bool := ahead do
  advanceName
  p

def nextOnLineIs (p : Parser Bool) : Parser Bool := ahead do
  advanceName
  return !(← afterBreak) && (← p)

def isStringToken : Parser Bool := do
  match ← token with
  | .string _ => return true
  | _ => return false

def isNameToken : Parser Bool := do
  match ← token with
  | .name _ => return true
  | _ => return false

-- Closing angles that stand together make an operator of several characters.
def closingAngles : List String := [">>>=", ">>>", ">>=", ">>", ">=", ">"]

def wideMark : Parser String := do
  let s ← get
  match s.lexeme.token with
  | .mark ">" =>
    let here : Cursor := ⟨'>' :: s.after.rest, s.after.offset - 1⟩
    return (closingAngles.find? here.startsWith).getD ">"
  | .mark m => return m
  | .name text => return if text == "in" || text == "instanceof" then text else ""
  | _ => return ""

def advanceWide (mark : String) : Parser Unit := do
  match ← token with
  | .mark ">" => modify fun s => { s with after := s.after.skip (mark.length - 1) }
  | _ => pure ()
  advance

def splitAngle : Parser Bool := do
  let s ← get
  match s.lexeme.token with
  | .mark "<" => return true
  | .mark "<<" =>
    set { s with
      lexeme := { s.lexeme with token := .mark "<" }
      after := ⟨'<' :: s.after.rest, s.after.offset - 1⟩ }
    return true
  | _ => return false

end Parser

end Treeshake.Ecma
