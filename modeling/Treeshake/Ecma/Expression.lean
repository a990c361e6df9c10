import Treeshake.Ecma.Class
import Treeshake.Ecma.Element

namespace Treeshake.Ecma.ExpressionGrammar

open Treeshake.Ecma.Parser Signature TypeGrammar ClassGrammar

variable (self : Grammar)

-- An operand inside marks of its own, where every operator is allowed again.
def inside {α : Type} (p : Parser α) : Parser α :=
  under (fun f => { f with inOperator := true, decorating := false, conditional := true }) p

def spreadOr (item : Parser Tree) : Parser Tree := do
  if ← accept "..." then return .node .spread [← item] else item

def arguments : Parser (List Tree) :=
  inside (enclosed "(" ")" (spreadOr (self (.assignment true))))

def array : Parser Tree := do
  expect "["
  let (items, comma) ← inside (commaList "]" do
    if ← sees "," then return .leaf .hole
    spreadOr (self (.assignment true)))
  expect "]"
  return .node (.array comma) items

def parenthesized : Parser Tree := do
  expect "("
  let value ← inside (self .expression)
  expect ")"
  return .node .group [value]

-- A template whose escapes are all valid, unless a function takes its text.
def templateLiteral (tagged : Bool) : Parser (List Tree) := do
  let (parts, valid) ← inside (template (self .expression))
  blameIf (!valid && !tagged)
  return parts

def patternLiteral : Parser Tree := do
  let s ← get
  let start : Cursor ← match s.lexeme.token with
    | .mark "/" => pure ⟨'/' :: s.after.rest, s.after.offset - 1⟩
    | .mark "/=" => pure ⟨'/' :: '=' :: s.after.rest, s.after.offset - 2⟩
    | _ => giveUp
  let (lexeme, after) := Lexer.pattern start s.lexeme.afterBreak
  set { s with lexeme, after, sound := s.sound && lexeme.sound }
  advance
  return .plain

def importExpression : Parser Tree := do
  expectWord "import"
  if ← accept "." then
    if ← acceptWord "meta" then
      modify fun s => { s with isModule := true }
      return .plain
    if !(← acceptWord "source" <||> acceptWord "defer") then giveUp
  let parts ← inside do
    expect "("
    if ← sees ")" then giveUp
    let first ← self (.assignment true)
    let second ← if ← accept "," then
        if ← sees ")" then pure [] else pure [← self (.assignment true)]
      else pure []
    let _ ← if second.isEmpty then pure false else accept ","
    expect ")"
    return first :: second
  return .node .importCall parts

def superExpression : Parser Tree := do
  expectWord "super"
  blameIf !((← sees ".") || (← sees "[") || (← sees "("))
  return .plain

def newExpression : Parser Tree := do
  expectWord "new"
  if ← accept "." then
    expectWord "target"
    return .plain
  let callee ← self .callee
  if ← sees "?." then
    blame
    giveUp
  blameIf (callee.form == .importCall)
  let args ← if ← sees "(" then arguments self else pure []
  return .of (callee :: args)

def primary : Parser Tree := do
  match ← token with
  | .numeral | .bigint | .string _ =>
    advance
    return .plain
  | .template .. => return .of (← templateLiteral self false)
  | .mark "(" => parenthesized self
  | .mark "[" => array self
  | .mark "\x7b" => object self
  | .mark "/" => patternLiteral
  | .mark "/=" => patternLiteral
  | .mark "@" =>
    let marks ← decorators self
    return .of (marks ++ [← classExpression self])
  | .name "this" =>
    advance
    return .plain
  | .name "true" =>
    advance
    return .plain
  | .name "false" =>
    advance
    return .plain
  | .name "null" =>
    advance
    return .plain
  | .name "function" => functionExpression self false
  | .name "class" => classExpression self
  | .name "new" => newExpression self
  | .name "import" => importExpression self
  | .name "super" => superExpression
  | .name _ =>
    if (← seesWord "async") && (← nextOnLineIs (seesWord "function")) then
      advance
      functionExpression self true
    else
      let (name, place) ← identifier
      return .leaf (.use .value name place)
  | _ => giveUp

-- A value and whether a link that may be missing leads to it.
structure Link where
  tree : Tree
  optional : Bool

def memberRest (chains : Bool) (start : Link) : Parser Link :=
  iterate (fun (link : Link) => do
    match ← token with
    | .mark "." =>
      advance
      match ← token with
      | .privateName _ => advance
      | _ => let _ ← anyName
      return some { link with tree := .node .member [link.tree] }
    | .mark "[" =>
      if (← flags).decorating then return none
      advance
      let index ← inside (self .expression)
      expect "]"
      return some { link with tree := .node .member [link.tree, index] }
    | .mark "?." =>
      if !chains then return none
      if !(← nextIs (do
          match ← token with
          | .name _ | .privateName _ | .template .. => return true
          | .mark m => return m == "["
          | _ => return false)) then return none
      advance
      match ← token with
      | .mark "[" => pure ()
      | .template .. => pure ()
      | .privateName _ =>
        advance
        return some ⟨.node .member [link.tree], true⟩
      | _ =>
        let _ ← anyName
        return some ⟨.node .member [link.tree], true⟩
      if ← sees "[" then
        advance
        let index ← inside (self .expression)
        expect "]"
        return some ⟨.node .member [link.tree, index], true⟩
      return some { link with optional := true }
    | .template .. =>
      blameIf link.optional
      let parts ← templateLiteral self true
      return some { link with tree := .of (link.tree :: parts) }
    | .mark "!" =>
      if !(← isTyped) || (← afterBreak) then return none
      advance
      return some { link with tree := .node .cast [link.tree] }
    | .mark m =>
      if (m == "<" || m == "<<") && (← isTyped) then
        match ← expressionArguments? self with
        | some types => return some { link with tree := .of (link.tree :: types) }
        | none => return none
      else return none
    | _ => return none)
    start

def callRest (start : Link) : Parser Link :=
  iterate (fun (link : Link) => do
    if ← accept "?." then
      let types ← if (← isTyped) && ((← sees "<") || (← sees "<<")) then typeArguments self
        else pure []
      let args ← arguments self
      return some (← memberRest self true ⟨.of (link.tree :: types ++ args), true⟩)
    else if ← sees "(" then
      let args ← arguments self
      return some (← memberRest self true { link with tree := .of (link.tree :: args) })
    else return none)
    start

def leftHand : Parser Tree := do
  let first ← primary self
  let link ← memberRest self true ⟨first, false⟩
  let whole ← callRest self link
  return if whole.optional then .node .chain [whole.tree] else whole.tree

def callee : Parser Tree := do
  let first ← primary self
  return (← memberRest self false ⟨first, false⟩).tree

def place (tree : Tree) : Parser Tree :=
  match tree.place? with
  | some target => return target
  | none => giveUp

def isUpdateMark : Parser Bool := do return (← sees "++") || (← sees "--")

def startsElement : Parser Bool := do
  if !(← get).dialect.elements || !(← sees "<") then return false
  nextIs (do return (← isNameToken) || (← sees ">"))

def update : Parser Tree := do
  if ← isUpdateMark then
    advance
    return .node .update [← place (← self .unary)]
  if ← startsElement then return ← ElementGrammar.element self false
  let operand ← leftHand self
  if (← isUpdateMark) && !(← afterBreak) then
    let target ← place operand
    advance
    return .node .update [target]
  return operand

def unaryMarks : List String := ["+", "-", "~", "!"]

def unaryWords : List String := ["delete", "void", "typeof"]

def unary : Parser Tree := do
  match ← token with
  | .mark m =>
    if unaryMarks.contains m then
      advance
      return .node .unary [← self .unary]
    if m == "<" && (← isTyped) && !(← get).dialect.elements then
      advance
      let type ← self .type
      expect ">"
      return .node .assertion [type, ← self .unary]
    update self
  | .name word =>
    if unaryWords.contains word then
      advance
      return .node .unary [← self .unary]
    if word == "await" && (← flags).awaits then
      advance
      return .node .await [← self .unary]
    update self
  | _ => update self

def level (operator : String) : Nat :=
  match operator with
  | "??" => 1
  | "||" => 2
  | "&&" => 3
  | "|" => 4
  | "^" => 5
  | "&" => 6
  | "==" | "!=" | "===" | "!==" => 7
  | "<" | ">" | "<=" | ">=" | "in" | "instanceof" => 8
  | "<<" | ">>" | ">>>" => 9
  | "+" | "-" => 10
  | "*" | "/" | "%" => 11
  | "**" => 12
  | _ => 0

def isLogical (tree : Tree) (coalesce : Bool) : Bool := tree.form == .logical coalesce

-- Two operands and their operator. A coalescing operator never stands beside another logical
-- one without parentheses, and a power never has a bare unary operand before it.
def operation (operator : String) (left right : Tree) : Parser Tree := do
  match operator with
  | "??" =>
    blameIf (if right.form == .logical true then false
      else isLogical right false || isLogical left false)
    return .node (.logical true) [left, right]
  | "||" | "&&" => return .node (.logical false) [left, right]
  | "**" =>
    blameIf (left.form == .unary || left.form == .await)
    return .of [left, right]
  | _ => return .of [left, right]

-- A private name may only ask whether an object has it.
def privateTest (least : Nat) : Parser Tree := do
  advance
  if 8 ≤ least then giveUp
  expectWord "in"
  return .of [← self (.binary 8)]

def binary (least : Nat) : Parser Tree := do
  let first ← match ← token with
    | .privateName _ => if (← flags).inOperator then privateTest self least else giveUp
    | _ => unary self
  iterate (fun (left : Tree) => do
    if (← isTyped) && (← seesAny ["as", "satisfies"]) && !(← afterBreak) then
      if 8 ≤ least then return none
      advance
      let type ← if ← seesWord "const" then do
          advance
          pure Tree.plain
        else self .type
      return some (.node .cast [left, type])
    let operator ← wideMark
    let tight := level operator
    if tight == 0 || tight < least || (tight == least && operator != "**") then return none
    if operator == "in" && !(← flags).inOperator then return none
    advanceWide operator
    return some (← operation operator left (← self (.binary tight)))) first

-- An answer that may have to wait for a trial.
inductive Guess where
  | yes
  | no
  | maybe
deriving DecidableEq

def guessArrow : Parser Guess := preview .no do
  if ← seesWord "async" then
    advanceName
    if ← afterBreak then return .no
  let typed ← isTyped
  let elements := (← get).dialect.elements
  if ← accept "(" then
    match ← token with
    | .mark ")" =>
      advanceName
      return if (← sees "=>") || (← sees ":") || (← sees "\x7b") then .yes else .no
    | .mark "[" => return .maybe
    | .mark "\x7b" => return .maybe
    | .mark "..." => return .yes
    | .mark "@" => return .maybe
    | .name word =>
      if typed && parameterModifiers.contains word && (← nextIs isNameToken) then
        return if ← nextIs (seesWord "as") then .no else .yes
      if isReserved word && word != "this" then return .no
      advanceName
      if ← sees ":" then return .yes
      if ← accept "?" then
        return if (← sees ":") || (← sees ",") || (← sees "=") || (← sees ")") then .yes else .no
      return if (← sees ",") || (← sees "=") || (← sees ")") then .maybe else .no
    | _ => return .no
  if ← pure typed <&&> accept "<" then
    if !(← isIdentifier) && !(← seesWord "const") then return .no
    if !elements then return .maybe
    if ← seesWord "const" then advanceName
    advanceName
    if ← acceptWord "extends" then
      return if (← sees "=") || (← sees ">") || (← sees "/") then .no else .yes
    return if (← sees ",") || (← sees "=") then .yes else .no
  return .no

structure ArrowHead where
  async : Bool
  parts : List Tree
  hasResult : Bool

def arrowHead : Parser ArrowHead := do
  let async ← acceptWord "async"
  let types ← typeParameters self
  let params ← under
    (fun f => { f with awaits := f.awaits || async, inOperator := true, decorating := false })
    (parameters self)
  let result ← resultAnnotation self
  blameIf (← afterBreak)
  expect "=>"
  return ⟨async, types ++ params ++ result, !result.isEmpty⟩

def arrowBody (async resultType : Bool) : Parser Tree := do
  if ← sees "\x7b" then body self async false
  else
    under (fun f => { f with awaits := async, yields := false, decorating := false })
      (self (.assignment resultType))

def arrow (parts : List Tree) (code : Tree) : Tree :=
  .node .arrow [.node (.scope .block) (parts ++ [code])]

def parenthesizedArrow? (resultType : Bool) : Parser (Option Tree) := do
  match ← guessArrow with
  | .no => return none
  | .yes =>
    let head ← arrowHead self
    let code ← arrowBody self head.async resultType
    return some (arrow head.parts code)
  | .maybe =>
    let start := (← span).start
    if (← get).notArrow.contains start then return none
    let found ← attemptOption do
      let head ← arrowHead self
      let code ← arrowBody self head.async resultType
      if !resultType && head.hasResult && !(← sees ":") then return none
      return some (arrow head.parts code)
    if found.isNone then
      modify fun s => { s with notArrow := start :: s.notArrow }
    return found

def asyncArrow? (resultType : Bool) : Parser (Option Tree) := do
  if !(← seesWord "async") then return none
  let fits ← ahead do
    advanceName
    if (← afterBreak) || !(← isIdentifier) then return false
    advanceName
    return (← sees "=>") && !(← afterBreak)
  if !fits then return none
  advance
  let (name, _) ← under (fun f => { f with awaits := true }) identifier
  expect "=>"
  let code ← arrowBody self true resultType
  return some (arrow [.leaf (.bind .block .value name)] code)

def endsYield : Parser Bool := do
  if ← afterBreak then return true
  match ← token with
  | .finish => return true
  | .mark m => return [")", "]", "\x7d", ",", ";", ":"].contains m
  | .name word => return word == "in"
  | _ => return false

def yieldExpression (resultType : Bool) : Parser Tree := do
  expectWord "yield"
  if ← endsYield then return .plain
  let _ ← accept "*"
  return .of [← self (.assignment resultType)]

def assignmentMarks : List String :=
  ["=", "+=", "-=", "*=", "/=", "%=", "**=", "<<=", ">>=", ">>>=", "&=", "|=", "^=", "&&=",
   "||=", "??="]

def conditionalRest (condition : Tree) (resultType : Bool) : Parser Tree := do
  if !(← accept "?") then return condition
  let yes ← inside (self (.assignment false))
  expect ":"
  let no ← self (.assignment resultType)
  return .of [condition, yes, no]

def assignment (resultType : Bool) : Parser Tree := do
  if (← flags).yields && (← seesWord "yield") then return ← yieldExpression self resultType
  if let some tree ← parenthesizedArrow? self resultType then return tree
  if let some tree ← asyncArrow? self resultType then return tree
  let left ← binary self 0
  match left with
  | .node (.use _ name _) _ =>
    if ← sees "=>" then
      blameIf (← afterBreak)
      advance
      let code ← arrowBody self false resultType
      return arrow [.leaf (.bind .block .value name)] code
  | _ => pure ()
  let mark ← wideMark
  if assignmentMarks.contains mark then
    match if mark == "=" then left.target? else left.place? with
    | some target =>
      advanceWide mark
      return .node (.assign (mark == "=")) [target, ← self (.assignment resultType)]
    | none => giveUp
  conditionalRest self left resultType

def expression : Parser Tree := do
  let first ← self (.assignment true)
  if ← sees "," then
    let rest ← collect do
      if ← accept "," then return some (← self (.assignment true)) else return none
    return .of (first :: rest)
  return first

end Treeshake.Ecma.ExpressionGrammar
