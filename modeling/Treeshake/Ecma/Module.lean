import Treeshake.Ecma.Declaration

namespace Treeshake.Ecma.ModuleGrammar

open Treeshake.Ecma.Parser Signature TypeGrammar ClassGrammar StatementGrammar DeclarationGrammar

variable (self : Grammar)

mutual

def boundNames : Tree → List String
  | .node (.bind _ _ name) _ => [name]
  | .node .parts parts => boundInAll parts
  | _ => []

def boundInAll : List Tree → List String
  | [] => []
  | tree :: rest => boundNames tree ++ boundInAll rest

end

-- No name is exported twice. A typed dialect may, because declarations merge there.
def exportName (name : String) : Parser Unit := do
  let s ← get
  if !s.dialect.typed then
    blameIf (s.exported.contains name)
    modify fun s => { s with exported := name :: s.exported }

def markModule : Parser Unit := modify fun s => { s with isModule := true }

def moduleName : Parser Unit := do
  match ← token with
  | .string _ => advance
  | _ => giveUp

def attributes : Parser Unit := do
  let present ← if ← seesWord "with" then pure true
    else if ← seesWord "assert" then pure !(← afterBreak) else pure false
  if present then
    advance
    let _ ← enclosed "\x7b" "\x7d" do
      match ← token with
      | .name _ => advanceName
      | .string _ => advance
      | _ => giveUp
      expect ":"
      moduleName
      return .plain

structure OuterName where
  text : String
  place : Text.Span
  isString : Bool

def outerName : Parser OuterName := do
  match ← token with
  | .string text =>
    let place ← span
    advance
    return ⟨text, place, true⟩
  | _ =>
    let (text, place) ← placedName
    return ⟨text, place, false⟩

def typeModifier : Parser Bool := do
  if !(← isTyped) || !(← seesWord "type") then return false
  nextIs do
    if (← sees ",") || (← sees "\x7d") then return false
    if ← seesWord "as" then
      -- `type as` is a name unless another name follows
      return ← nextIs (do return (← seesWord "as") || (← sees ",") || (← sees "\x7d"))
    return (← isNameToken) || (← isStringToken)

def importSpecifier (space : Space) : Parser Tree := do
  let space ← if ← typeModifier then do
      advance
      pure Space.type
    else pure space
  let outer ← outerName
  if ← acceptWord "as" then
    let (name, _) ← identifier
    return .leaf (.bind .block space name)
  if outer.isString || isReserved outer.text then giveUp
  checkIdentifier outer.text
  return .leaf (.bind .block space outer.text)

def importClause (space : Space) : Parser (List Tree) := do
  let default ← if ← isIdentifier then do
      let (name, _) ← identifier
      pure [Tree.leaf (.bind .block space name)]
    else pure []
  if !default.isEmpty then
    if !(← accept ",") then return default
  if ← accept "*" then
    expectWord "as"
    let (name, _) ← identifier
    return default ++ [.leaf (.bind .block space name)]
  return default ++ (← enclosed "\x7b" "\x7d" (importSpecifier space))

def importAlias (space : Space) : Parser Tree := do
  let (name, _) ← identifier
  expect "="
  let value ← if (← seesWord "require") && (← nextIs (sees "(")) then do
      advance
      expect "("
      moduleName
      expect ")"
      pure Tree.plain
    else entityName .both
  endStatement
  return .of [.leaf (.bind .block space name), value]

def importModifier (word : String) : Parser Bool := do
  if !(← seesWord word) then return false
  nextIs do
    if ← seesWord "from" then return ← nextIs (seesWord "from")
    if (← sees "\x7b") || (← sees "*") then return word != "source"
    return ← isIdentifier

def importDeclaration : Parser Tree := do
  expectWord "import"
  markModule
  match ← token with
  | .string _ =>
    advance
    attributes
    endStatement
    return .plain
  | _ =>
    let isType := (← isTyped) && (← importModifier "type")
    let isPhase := (← importModifier "defer") || (← importModifier "source")
    if isType || isPhase then advance
    let space := if isType then Space.type else Space.both
    if (← isTyped) && (← isIdentifier) && (← nextIs (sees "=")) then
      importAlias space
    else
      let names ← importClause space
      expectWord "from"
      moduleName
      attributes
      endStatement
      return .of names

structure ExportSpecifier where
  inner : OuterName
  outer : OuterName
  isType : Bool

def exportSpecifier : Parser ExportSpecifier := do
  let isType ← typeModifier
  if isType then advance
  let inner ← outerName
  let outer ← if ← acceptWord "as" then outerName else pure inner
  return ⟨inner, outer, isType⟩

-- `export { a as b }`, perhaps from another module. Only names of this one are looked up.
def exportList (space : Space) : Parser Tree := do
  expect "\x7b"
  let (done, _) ← iterate (fun (done, first) => do
      if ← sees "\x7d" then return none
      if !first then expect ","
      if ← sees "\x7d" then return some (done, false)
      return some ((← exportSpecifier) :: done, false))
    (([] : List ExportSpecifier), true)
  expect "\x7d"
  let specifiers := done.reverse
  let outside ← if ← acceptWord "from" then do
      moduleName
      attributes
      pure true
    else pure false
  endStatement
  if !outside then
    blameIf (specifiers.any fun s => s.inner.isString || isReserved s.inner.text)
  let _ ← iterate (fun (rest : List ExportSpecifier) => do
      match rest with
      | [] => return none
      | s :: rest =>
        exportName s.outer.text
        return some rest) specifiers
  if outside then return .plain
  return .of ((specifiers.filter (!·.inner.isString)).map fun s =>
    .leaf (.use (if s.isType then .both else space) s.inner.text s.inner.place))

def exportAll : Parser Tree := do
  expect "*"
  if ← acceptWord "as" then
    let name ← outerName
    exportName name.text
  expectWord "from"
  moduleName
  attributes
  endStatement
  return .plain

def exportDefault : Parser Tree := do
  exportName "default"
  let marks ← decorators self
  let async := (← seesWord "async") && (← nextOnLineIs (seesWord "function"))
  if async || (← seesWord "function") then
    return (← functionDeclaration self false).1
  if ← seesWord "class" then return .of (marks ++ [← classDeclaration self false])
  if ← isTyped then
    if (← seesWord "abstract") && (← nextOnLineIs (seesWord "class")) then
      advance
      return .of (marks ++ [← classDeclaration self false])
    if (← seesWord "interface") && (← nextOnLineIs isIdentifier) then return ← interface self
  let value ← self (.assignment true)
  endStatement
  match value with
  | .node (.use .value name place) _ => return .leaf (.use .both name place)
  | _ => return value

def exportedDeclaration : Parser Tree := do
  let tree ← self (.statement false)
  let _ ← iterate (fun (rest : List String) => do
      match rest with
      | [] => return none
      | name :: rest =>
        exportName name
        return some rest) (boundNames tree)
  return tree

def startsExported : Parser Bool := do
  if ← seesAny ["var", "let", "const", "function", "class"] then return true
  if (← seesWord "async") && (← nextOnLineIs (seesWord "function")) then return true
  if ← sees "@" then return true
  return (← isTyped) && ((← startsDeclaration) || (← seesWord "import"))

def exportDeclaration : Parser Tree := do
  expectWord "export"
  markModule
  match ← token with
  | .mark "*" => exportAll
  | .mark "\x7b" => exportList .both
  | .name "default" =>
    advance
    exportDefault self
  | .mark "=" =>
    if !(← isTyped) then giveUp
    advance
    let value ← self (.assignment true)
    endStatement
    match value with
    | .node (.use .value name place) _ => return .leaf (.use .both name place)
    | _ => return value
  | .name "as" =>
    if !(← isTyped) then giveUp
    advance
    expectWord "namespace"
    let _ ← identifier
    endStatement
    return .plain
  | _ =>
    if (← isTyped) && (← seesWord "type") then
      if ← nextIs (sees "\x7b") then
        advance
        return ← exportList .both
      if ← nextIs (sees "*") then
        advance
        return ← exportAll
    if (← isTyped) && (← seesWord "import") then
      advance
      let _ ← if ← importModifier "type" then acceptWord "type" else pure false
      return ← importAlias .both
    if ← startsExported then exportedDeclaration self else giveUp

end Treeshake.Ecma.ModuleGrammar
