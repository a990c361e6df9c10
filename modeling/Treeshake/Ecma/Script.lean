import Treeshake.Ecma.Module

namespace Treeshake.Ecma

open Treeshake.Ecma.Parser Signature ClassGrammar ExpressionGrammar StatementGrammar DeclarationGrammar
  ModuleGrammar

def statementOf (self : Grammar) (single : Bool) : Parser Tree := do
  match ← token with
  | .mark "\x7b" => blockStatement self
  | .mark ";" =>
    advance
    return .plain
  | .mark "@" =>
    let marks ← decorators self
    if ← seesWord "export" then return .of (marks ++ [← exportDeclaration self])
    if (← isTyped) && (← seesWord "abstract") then
      return .of (marks ++ [← declaration self])
    return .of (marks ++ [← classStatement self single])
  | .name word =>
    match word with
    | "if" => ifStatement self
    | "do" => doStatement self
    | "while" => whileStatement self
    | "for" => forStatement self
    | "break" => jumpStatement
    | "continue" => jumpStatement
    | "with" => withStatement self
    | "switch" => switchStatement self
    | "throw" => throwStatement self
    | "try" => tryStatement self
    | "debugger" =>
      advance
      endStatement
      return .plain
    | "class" => classStatement self single
    | "export" => exportDeclaration self
    | "return" => returnStatement self
    | "var" => variableStatement self .list
    | "function" => functionStatement self single
    | "const" =>
      if (← isTyped) && (← nextIs (seesWord "enum")) then enumeration self
      else variableStatement self (if single then .single else .list)
    | "let" =>
      if (← get).lexeme.escaped then expressionOrLabel self else letStatement self single
    | "async" =>
      if ← nextOnLineIs (seesWord "function") then functionStatement self single
      else expressionOrLabel self
    | "import" =>
      if ← nextIs (do return (← sees "(") || (← sees ".")) then expressionStatement self
      else importDeclaration
    | "using" =>
      if (← nextOnLineIs isIdentifier) then
        variableStatement self (if single then .single else .list)
      else expressionOrLabel self
    | "await" =>
      if (← flags).awaits && (← nextOnLineIs (do
          return (← seesWord "using") && (← nextOnLineIs isIdentifier))) then
        variableStatement self (if single then .single else .list)
      else expressionOrLabel self
    | _ =>
      if (← isTyped) && (← startsDeclaration) then declaration self
      else expressionOrLabel self
  | _ => expressionOrLabel self

def rules (self : Grammar) : Grammar
  | .statement single => statementOf self single
  | .expression => expression self
  | .assignment resultType => assignment self resultType
  | .binary least => binary self least
  | .unary => unary self
  | .leftHand => leftHand self
  | .callee => callee self
  | .pattern reach => pattern self reach
  | .type => TypeGrammar.type self
  | .element inChild => ElementGrammar.element self inChild

def grammar : Nat → Grammar
  | 0 => fun _ => giveUp
  | depth + 1 => rules (grammar depth)

-- A name, a bracket or an operator opens at most this many rules inside each other.
def rulesPerToken : Nat := 12

-- What a source is taken for, which decides about `await` and about returns outside functions.
inductive Goal where
  | script
  | commonScript
  | module
deriving DecidableEq, Repr

def initial (dialect : Dialect) (goal : Goal) (ambient : Bool) (source : List Char) : State :=
  let (lexeme, after) := Lexer.next (Lexer.start source)
  { dialect
    flags := { awaits := goal == .module, returns := goal == .commonScript, ambient }
    lexeme
    after
    sound := lexeme.sound
    isModule := false
    exported := []
    notArrow := []
    limit := source.length + 2 }

def statementsToEnd (self : Grammar) : Parser (List Tree) := collect do
  if ← seesEnd then return none
  return some (← self (.statement false))

structure Script where
  tree : Tree
  isModule : Bool

def Script.parseAs? (dialect : Dialect) (ambient : Bool) (source : List Char) (goal : Goal) :
    Option Script :=
  let depth := rulesPerToken * (source.length + 2)
  match statementsToEnd (grammar depth) (initial dialect goal ambient source) with
  | .ok body s =>
    let tree : Tree := .node (.scope .body) body
    if s.sound && !tree.hasCover then some ⟨tree, s.isModule⟩ else none
  | .error _ _ => none

inductive Kind where
  -- by whether it has a trait of modules
  | ambiguous
  | module
  | common
deriving DecidableEq, Repr

-- An ambiguous source is a module if it reads as one and has a trait of modules.
def Script.parse? (dialect : Dialect) (kind : Kind) (ambient : Bool) (source : List Char) :
    Option Script :=
  let read := parseAs? dialect ambient source
  match kind with
  | .module => read .module
  | .common => read .commonScript
  | .ambiguous =>
    match read .module with
    | some script => if script.isModule then some script else read .script
    | none => (read .script).filter fun script => !script.isModule

end Treeshake.Ecma
