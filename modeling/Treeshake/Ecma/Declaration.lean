import Treeshake.Ecma.Statement

namespace Treeshake.Ecma.DeclarationGrammar

open Treeshake.Ecma.Parser Signature TypeGrammar ClassGrammar StatementGrammar

variable (self : Grammar)

def interface : Parser Tree := do
  expectWord "interface"
  let (name, _) ← identifier
  let types ← typeParameters self
  let bases ← if ← acceptWord "extends" then do
      let first ← reference self
      let rest ← collect do
        if ← accept "," then return some (← reference self) else return none
      pure (first :: rest)
    else pure []
  let body ← members self
  return .of [.leaf (.bind .block .type name), .node (.scope .block) (types ++ bases ++ body)]

def typeAlias : Parser Tree := do
  expectWord "type"
  let (name, _) ← identifier
  let types ← typeParameters self
  expect "="
  let value ← self .type
  endStatement
  return .of [.leaf (.bind .block .type name), .node (.scope .block) (types ++ [value])]

def enumName : Parser (List Tree) := do
  let named (text : String) : List Tree := [.leaf (.bind .block .value text)]
  match ← token with
  | .name text =>
    advanceName
    return named text
  | .string text =>
    advance
    return named text
  | .mark "[" =>
    advance
    match ← token with
    | .string text =>
      advance
      expect "]"
      return named text
    | .template true valid =>
      advance
      blameIf !valid
      expect "]"
      return []
    | _ => giveUp
  | _ => giveUp

-- A member of an enumeration, which the values of the others may mention.
def enumMember : Parser Tree := do
  let name ← enumName
  return .of (name ++ (← initializer self))

def enumeration : Parser Tree := do
  let _ ← acceptWord "const"
  expectWord "enum"
  let (name, _) ← identifier
  let body ← enclosed "\x7b" "\x7d" (enumMember self)
  return .of [.leaf (.bind .block .both name), .node (.scope .block) body]

mutual

-- Whether a part of a namespace exists when the program runs.
def hasValue : Tree → Bool
  | .node (.bind _ .type _) _ => false
  | .node .parts [.node (.bind _ .type _) _, _] => false
  | .node .parts parts => parts.isEmpty || anyValue parts
  | _ => true

def anyValue : List Tree → Bool
  | [] => false
  | tree :: rest => hasValue tree || anyValue rest

end

-- `namespace A.B { … }`, `module "name" { … }` or `global { … }`. Without a name of its own the body
-- may be missing.
def namespaceDeclaration : Parser Tree := do
  let own ← if ← acceptWord "global" then pure [] else do
    if !(← acceptWord "namespace" <||> acceptWord "module") then giveUp
    match ← token with
    | .string _ =>
      advance
      pure []
    | _ =>
      let (name, _) ← identifier
      let _ ← collect do
        if ← accept "." then
          let _ ← anyName
          return some .plain
        else return none
      pure [name]
  if ← sees "\x7b" then
    let body ← under (fun f => { f with returns := false, awaits := false, yields := false })
      (block self .body)
    let declared := if anyValue body.parts then Space.both else Space.type
    return .of (own.map (fun name => Tree.leaf (.bind .block declared name)) ++ [body])
  else
    if !own.isEmpty then giveUp
    endStatement
    return .plain

def startsWithin : Nat → Parser Bool
  | 0 => return false
  | fuel + 1 => do
    match ← token with
    | .name "interface" => nextOnLineIs isIdentifier
    | .name "type" => nextOnLineIs isIdentifier
    | .name "module" => nextOnLineIs (do return (← isIdentifier) || (← isStringToken))
    | .name "namespace" => nextOnLineIs (do return (← isIdentifier) || (← isStringToken))
    | .name "global" => nextIs (sees "\x7b")
    | .name "import" => nextIs (do
        return (← isIdentifier) || (← isStringToken) || (← sees "*") || (← sees "\x7b"))
    | .name word =>
      if ["var", "let", "const", "function", "class", "enum"].contains word then return true
      if ["abstract", "declare", "async"].contains word then nextOnLineIs (startsWithin fuel)
      else return false
    | _ => return false

def startsDeclaration : Parser Bool := do startsWithin (← get).limit

def declaration : Parser Tree := do
  match ← token with
  | .name "interface" => interface self
  | .name "type" => typeAlias self
  | .name "enum" => enumeration self
  | .name "module" => namespaceDeclaration self
  | .name "namespace" => namespaceDeclaration self
  | .name "global" => namespaceDeclaration self
  | .name "abstract" =>
    advance
    classDeclaration self true
  | .name "declare" =>
    advance
    under (fun f => { f with ambient := true }) (self (.statement false))
  | _ => giveUp

end Treeshake.Ecma.DeclarationGrammar
