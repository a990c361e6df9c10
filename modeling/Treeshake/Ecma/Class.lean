import Treeshake.Ecma.Type

namespace Treeshake.Ecma.ClassGrammar

open Treeshake.Ecma.Parser Signature TypeGrammar

variable (self : Grammar)

inductive MemberKind where
  | value
  | getter
  | setter
deriving DecidableEq

-- A getter has no parameter, and a setter has exactly one, which does not collect a rest.
def checkParameters (kind : MemberKind) (params : List Tree) : Parser Unit :=
  match kind with
  | .value => pure ()
  | .getter => blameIf !params.isEmpty
  | .setter =>
    match params with
    | [.node .spread _] => blame
    | [_] => pure ()
    | _ => blame

def method (kind : MemberKind) (async generator : Bool) : Parser Tree := do
  let (tree, params, _) ← function self [] async generator
  checkParameters kind params
  return tree

-- Whether a word is a modifier: a key, or a star for some, stands behind it.
def precedesKey (star sameLine : Bool) : Parser Bool := ahead do
  advanceName
  if sameLine && (← afterBreak) then return false
  return (← startsKey) || (star && (← sees "*"))

def field : Parser Tree := do
  if ← accept "..." then
    return .node .spread [← under (fun f => { f with inOperator := true })
      (self (.assignment true))]
  let async ← if (← seesWord "async") && (← precedesKey true true) then do
      advance
      pure true
    else pure false
  let kind ← if !async && (← seesWord "get") && (← precedesKey false false) then do
      advance
      pure MemberKind.getter
    else if !async && (← seesWord "set") && (← precedesKey false false) then do
      advance
      pure MemberKind.setter
    else pure MemberKind.value
  let generator ← if kind == .value then accept "*" else pure false
  let k ← key self
  if k.isPrivate then giveUp
  if async || generator || kind != .value || (← sees "(") || (← sees "<") then
    if !((← sees "(") || (← sees "<")) then giveUp
    return .node .method (k.parts ++ [← method self kind async generator])
  if ← accept ":" then
    let value ← under (fun f => { f with inOperator := true }) (self (.assignment true))
    return .node .property (k.parts ++ [value])
  match k.identifier with
  | some (name, place) =>
    checkIdentifier name
    if ← accept "=" then
      let value ← under (fun f => { f with inOperator := true }) (self (.assignment true))
      return .node (.cover name place) [value]
    return .leaf (.shorthand name place)
  | none => giveUp

def object : Parser Tree := do
  expect "\x7b"
  let (fields, comma) ← under (fun f => { f with decorating := false })
    (commaList "\x7d" (field self))
  expect "\x7d"
  return .node (.object comma) fields

def memberModifiers : List String :=
  ["declare", "public", "private", "protected", "abstract", "override", "readonly", "const",
   "export", "default", "in", "out"]

structure Modifiers where
  isStatic : Bool := false
  isAsync : Bool := false
  isAbstract : Bool := false
  isAmbient : Bool := false

def modifiers : Parser Modifiers :=
  iterate (fun (m : Modifiers) => do
    if (← seesWord "static") && !m.isStatic && (← precedesKey true false) then
      advance
      return some { m with isStatic := true }
    if (← seesWord "async") && !m.isAsync && (← precedesKey true true) then
      advance
      return some { m with isAsync := true }
    if (← seesWord "accessor") && (← precedesKey false true) then
      advance
      return some m
    if (← isTyped) && (← seesAny memberModifiers) && (← precedesKey true true) then
      let isAbstract ← seesWord "abstract"
      let isAmbient ← seesWord "declare"
      advance
      return some { m with
        isAbstract := m.isAbstract || isAbstract, isAmbient := m.isAmbient || isAmbient }
    return none) {}

def checkName (k : Key) (m : Modifiers) (isMethod special : Bool) : Parser Unit := do
  match k.text with
  | some name =>
    if k.isPrivate then blameIf (name == "constructor")
    else if m.isStatic then
      blameIf (name == "prototype" || (!isMethod && name == "constructor"))
    else blameIf (name == "constructor" && (special || !isMethod))
  | none => pure ()

def staticBlock : Parser Tree := do
  advance
  under (fun f => { f with
    inOperator := true, yields := false, awaits := true, returns := false, conditional := true,
    decorating := false })
    (block self .body)

def member : Parser (Option Tree) := do
  if ← accept ";" then return some .plain
  if (← sees "\x7d") || (← seesEnd) then return none
  let marks ← decorators self
  if (← seesWord "static") && (← nextIs (sees "\x7b")) then
    return some (.of (marks ++ [← staticBlock self]))
  let m ← modifiers
  if (← isTyped) && (← sees "[") && (← startsIndex) then
    let tree ← indexSignature self
    endMember
    return some tree
  let kind ← if (← seesWord "get") && (← precedesKey false false) then do
      advance
      pure MemberKind.getter
    else if (← seesWord "set") && (← precedesKey false false) then do
      advance
      pure MemberKind.setter
    else pure MemberKind.value
  let generator ← if kind == .value then accept "*" else pure false
  let k ← key self
  let _ ← if ← isTyped then accept "?" else pure false
  if generator || kind != .value || (← sees "(") || (← sees "<") then
    checkName k m true (generator || kind != .value || m.isAsync)
    let tree ← method self kind m.isAsync generator
    if (← isTyped) && (← sees ";") then advance
    return some (.of (marks ++ k.parts ++ [tree]))
  else
    if m.isAsync then giveUp
    checkName k m false false
    let _ ← if (← isTyped) && !(← afterBreak) then accept "!" else pure false
    let type ← annotation self
    let value ← under (fun f => { f with yields := false, awaits := false, decorating := false })
      (initializer self)
    endStatement
    return some (.of (marks ++ k.parts ++ type ++ value))

def heritage : Parser (List Tree) := do
  let base ← if ← acceptWord "extends" then do
      let value ← self .leftHand
      let types ← if ← isTyped then typeArguments? self else pure []
      pure (value :: types)
    else pure []
  let interfaces ← if ← isTyped <&&> acceptWord "implements" then do
      let first ← reference self
      let rest ← collect do
        if ← accept "," then return some (← reference self) else return none
      pure (first :: rest)
    else pure []
  return base ++ interfaces

def classTail (isExpression : Bool) : Parser (Option String × Tree) := do
  expectWord "class"
  let name ← if (← isIdentifier) && !((← isTyped) && (← seesWord "implements")) then do
      let (name, _) ← identifier
      pure (some name)
    else pure none
  let own := if isExpression then name.toList.map fun n => Tree.leaf (.bind .block .both n) else []
  let types ← typeParameters self
  let bases ← heritage self
  expect "\x7b"
  let members ← under (fun f => { f with decorating := false, ambient := false })
    (collect (member self))
  expect "\x7d"
  return (name, .node (.scope .block) (own ++ types ++ bases ++ members))

def classExpression : Parser Tree := do
  return (← classTail self true).2

def classDeclaration (nameRequired : Bool) : Parser Tree := do
  let (name, tree) ← classTail self false
  match name with
  | some name => return .of [.leaf (.bind .block .both name), tree]
  | none => if nameRequired then giveUp else return tree

def functionExpression (async : Bool) : Parser Tree := do
  expectWord "function"
  let generator ← accept "*"
  let own ← if ← isIdentifier then
      under (fun f => { f with awaits := async, yields := generator }) do
        let (name, _) ← identifier
        pure [Tree.leaf (.bind .block .value name)]
    else pure []
  let (tree, _, hasBody) ← function self own async generator
  blameIf !hasBody
  return tree

def functionDeclaration (nameRequired : Bool) : Parser (Tree × Bool) := do
  let async ← acceptWord "async"
  expectWord "function"
  let generator ← accept "*"
  let own ← if ← isIdentifier then do
      let (name, _) ← identifier
      pure [Tree.leaf (.bind .block .value name)]
    else if nameRequired then giveUp else pure []
  let (tree, _, hasBody) ← function self [] async generator
  if !hasBody then endStatement
  return (.of (own ++ [tree]), !async && !generator)

end Treeshake.Ecma.ClassGrammar
