import Treeshake.Ecma.Expression

namespace Treeshake.Ecma.StatementGrammar

open Treeshake.Ecma.Parser Signature ClassGrammar ExpressionGrammar

variable (self : Grammar)

inductive Place where
  | list
  -- where only one statement is expected
  | single
  | loopHead
deriving DecidableEq

-- One variable or pattern with its value. Constants and patterns need one, except in the head of
-- a loop and where nothing is computed.
def declarator (reach : Reach) (needsValue inHead : Bool) : Parser (Tree × Bool) := do
  let isPattern := (← sees "[") || (← sees "\x7b")
  let target ← self (.pattern reach)
  let _ ← if ← isTyped then accept "!" else pure false
  let type ← annotation self
  let value ← if ← accept "=" then pure [← self (.assignment true)] else pure []
  let missing := value.isEmpty && (needsValue || isPattern) && !(← flags).ambient
  if !inHead then blameIf missing
  return (.of (target :: type ++ value), missing)

def declarators (reach : Reach) (needsValue inHead : Bool) : Parser (Tree × Bool) := do
  let first ← declarator self reach needsValue inHead
  let (rest, missing) ← iterate (fun (done, missing) => do
      if ← accept "," then
        let (tree, m) ← declarator self reach needsValue inHead
        return some (tree :: done, missing || m)
      else return none)
    (([] : List Tree), first.2)
  return (.of (first.1 :: rest.reverse), missing)

-- Variables behind their keyword, which is taken. The flag tells that a value is missing.
def declarations (place : Place) : Parser (Tree × Bool) := do
  let inHead := place == .loopHead
  if ← acceptWord "var" then declarators self .body false inHead
  else if ← acceptWord "let" then declarators self .block false inHead
  else if ← acceptWord "const" then declarators self .block true inHead
  else
    let _ ← acceptWord "await"
    expectWord "using"
    declarators self .block true inHead

def variableStatement (place : Place) : Parser Tree := do
  let lexical := !(← seesWord "var")
  let (tree, _) ← declarations self place
  endStatement
  blameIf (lexical && place == .single)
  return tree

def expressionStatement : Parser Tree := do
  let tree ← self .expression
  endStatement
  return tree

-- `let` begins a declaration, unless what follows makes it a name.
def letStatement (single : Bool) : Parser Tree := do
  let isOperator ← nextIs do
    let mark ← wideMark
    return assignmentMarks.contains mark || level mark != 0
  let isLink ← nextIs (do return (← sees ".") || (← sees "("))
  let isAlone ← nextIs (sees ";")
  let isIndex ← nextIs (sees "[")
  if isOperator || isLink || isAlone || (single && !isIndex) then
    if isAlone || (single && !isOperator && !isLink) then
      let (name, place) ← identifier
      endStatement
      return .leaf (.use .value name place)
    else expressionStatement self
  else variableStatement self (if single then .single else .list)

def blockStatement : Parser Tree := block self .block

def condition : Parser Tree := do
  expect "("
  let tree ← inside (self .expression)
  expect ")"
  return tree

def ifStatement : Parser Tree := do
  expectWord "if"
  let test ← condition self
  let yes ← self (.statement true)
  let no ← if ← acceptWord "else" then pure [← self (.statement true)] else pure []
  return .of (test :: yes :: no)

def doStatement : Parser Tree := do
  expectWord "do"
  let code ← self (.statement true)
  expectWord "while"
  let test ← condition self
  let _ ← accept ";"
  return .of [code, test]

def whileStatement : Parser Tree := do
  expectWord "while"
  let test ← condition self
  return .of [test, ← self (.statement true)]

def loopSteps : Parser (List Tree) := do
  expect ";"
  let test ← if ← sees ";" then pure [] else pure [← inside (self .expression)]
  expect ";"
  let step ← if ← sees ")" then pure [] else pure [← inside (self .expression)]
  return test ++ step

def loopSource (awaited : Bool) : Parser (Option Tree) := do
  if ← seesWord "in" then
    blameIf awaited
    advance
    return some (← inside (self .expression))
  if ← seesWord "of" then
    advance
    return some (← inside (self (.assignment true)))
  return none

def startsLoopDeclaration : Parser Bool := do
  if ← seesAny ["var", "const"] then return true
  let bindsNext : Parser Bool := do
    match ← token with
    | .name word => return word != "in" && word != "instanceof"
    | .mark m => return m == "[" || m == "\x7b"
    | _ => return false
  if (← seesWord "let") && (← nextIs bindsNext) then return true
  if (← seesWord "using") && (← nextOnLineIs isIdentifier) && !(← nextIs (seesWord "of")) then
    return true
  if (← flags).awaits && (← seesWord "await") && (← nextOnLineIs (seesWord "using")) then
    return true
  return false

-- The word `in` does not compare in the head of a loop.
def noIn (f : Flags) : Flags := { f with inOperator := false }

def loopHead (awaited : Bool) : Parser (List Tree) := do
  if ← sees ";" then
    blameIf awaited
    loopSteps self
  else if ← startsLoopDeclaration then
    let (head, missing) ← under noIn (declarations self .loopHead)
    match ← loopSource self awaited with
    | some source => return [head, source]
    | none =>
      blameIf (missing || awaited)
      return head :: (← loopSteps self)
  else
    let isAsync := (← seesWord "async") && (← nextIs (seesWord "of"))
    let isLet ← seesWord "let"
    let head ← under noIn (self .expression)
    if ← seesWord "of" then blameIf ((isAsync && !awaited) || isLet)
    if ← seesAny ["in", "of"] then
      match head.target? with
      | some target =>
        match ← loopSource self awaited with
        | some source => return [.node .each [target, source]]
        | none => giveUp
      | none => giveUp
    else
      blameIf awaited
      return head :: (← loopSteps self)

def forStatement : Parser Tree := do
  expectWord "for"
  let awaited ← if ← seesWord "await" then do
      blameIf !(← flags).awaits
      advance
      pure true
    else pure false
  expect "("
  let head ← loopHead self awaited
  expect ")"
  let code ← self (.statement true)
  return .node (.scope .block) (head ++ [code])

def jumpStatement : Parser Tree := do
  advance
  if !(← canEnd) then
    let _ ← identifier
  endStatement
  return .plain

def returnStatement : Parser Tree := do
  blameIf !(← flags).returns
  expectWord "return"
  let value ← if ← canEnd then pure [] else pure [← inside (self .expression)]
  endStatement
  return .of value

def withStatement : Parser Tree := do
  expectWord "with"
  let subject ← condition self
  return .of [subject, ← self (.statement true)]

def caseClause : Parser (Option Tree) := do
  if (← sees "\x7d") || (← seesEnd) then return none
  let test ← if ← acceptWord "default" then pure [] else do
    expectWord "case"
    pure [← inside (self .expression)]
  expect ":"
  let code ← collect do
    if (← sees "\x7d") || (← seesAny ["case", "default"]) || (← seesEnd) then return none
    return some (← self (.statement false))
  return some (.of (test ++ code))

def switchStatement : Parser Tree := do
  expectWord "switch"
  let subject ← condition self
  expect "\x7b"
  let cases ← collect (caseClause self)
  expect "\x7d"
  return .of [subject, .node (.scope .block) cases]

-- What is thrown begins on the same line.
def throwStatement : Parser Tree := do
  expectWord "throw"
  blameIf (← afterBreak)
  let value ← inside (self .expression)
  endStatement
  return value

def catchClause : Parser (List Tree) := do
  if ← acceptWord "catch" then
    let param ← if ← accept "(" then do
        let target ← self (.pattern .block)
        let type ← annotation self
        expect ")"
        pure (target :: type)
      else pure []
    return [.node (.scope .block) (param ++ [← blockStatement self])]
  else return []

def tryStatement : Parser Tree := do
  expectWord "try"
  let code ← blockStatement self
  let handler ← catchClause self
  let last ← if ← acceptWord "finally" then pure [← blockStatement self] else pure []
  blameIf (handler.isEmpty && last.isEmpty)
  return .of (code :: handler ++ last)

-- A function statement; where one statement is expected, only a plain function may stand.
def functionStatement (single : Bool) : Parser Tree := do
  let (tree, isPlain) ← functionDeclaration self true
  blameIf (single && !isPlain)
  return tree

def classStatement (single : Bool) : Parser Tree := do
  blameIf single
  classDeclaration self true

def expressionOrLabel : Parser Tree := do
  let tree ← self .expression
  if ← pure tree.isName <&&> accept ":" then self (.statement true)
  else
    endStatement
    return tree

end Treeshake.Ecma.StatementGrammar
