import Treeshake.Ecma.Signature

namespace Treeshake.Ecma.TypeGrammar

open Treeshake.Ecma.Parser Signature

variable (self : Grammar)

def builtin : List String :=
  ["any", "unknown", "never", "void", "null", "undefined", "string", "number", "boolean",
   "symbol", "object", "bigint", "intrinsic", "this", "true", "false"]

def typeArguments : Parser (List Tree) := do
  if !(← splitAngle) then giveUp
  let items ← enclosed "<" ">" (self .type)
  blameIf items.isEmpty
  return items

def typeArguments? : Parser (List Tree) := do
  if !(← afterBreak) && ((← sees "<") || (← sees "<<")) then typeArguments self else return []

-- A name with the names behind its points, of which only the first is looked up.
def entityName (space : Space) : Parser Tree := do
  let (name, place) ← placedName
  let dots ← collect do
    if ← accept "." then
      match ← token with
      | .privateName _ => advance
      | _ => let _ ← anyName
      return some .plain
    else return none
  if name == "this" then return .plain
  if isReserved name then giveUp
  return .leaf (.use (if dots.isEmpty then space else .both) name place)

def reference : Parser Tree := do
  let name ← entityName .type
  return .of (name :: (← typeArguments? self))

def importType : Parser Tree := do
  expectWord "import"
  expect "("
  let argument ← self .type
  let options ← if ← accept "," then
      if ← sees ")" then pure [] else pure [← self (.assignment true)]
    else pure []
  let _ ← accept ","
  expect ")"
  let _ ← collect do
    if ← accept "." then
      let _ ← anyName
      return some .plain
    else return none
  return .of (argument :: options ++ (← typeArguments? self))

def query : Parser Tree := do
  expectWord "typeof"
  if ← seesWord "import" then importType self
  else
    let name ← entityName .both
    return .of (name :: (← typeArguments? self))

def templateType : Parser Tree := do
  let (types, _) ← template (self .type)
  return .of types

def tupleLabel : Parser Bool := ahead do
  let _ ← anyName
  let _ ← accept "?"
  sees ":"

def tupleElement : Parser Tree := do
  let _ ← accept "..."
  if ← tupleLabel then
    let _ ← anyName
    let _ ← accept "?"
    expect ":"
  let type ← self .type
  let _ ← accept "?"
  return type

def callSignature (arrow : Bool) : Parser Tree := do
  let types ← typeParameters self
  let params ← parameters self
  let result ← if arrow then do
      expect "=>"
      pure [← resultType self]
    else resultAnnotation self
  return .node (.scope .block) (types ++ params ++ result)

-- Whether a bracket starts an index signature: a name and a colon or a comma behind it.
def startsIndex : Parser Bool := ahead do
  expect "["
  if ← seesAny parameterModifiers then
    if ← nextIs isNameToken then return true
  let _ ← identifier
  return (← sees ":") || (← sees ",")

def indexSignature : Parser Tree := do
  let params ← enclosed "[" "]" do
    let (name, _) ← identifier
    return .of (.leaf (.bind .block .value name) :: (← annotation self))
  return .node (.scope .block) (params ++ (← annotation self))

def endMember : Parser Unit := do
  if !(← accept ";" <||> accept ",") then
    if !(← canEnd) then giveUp

-- Whether a word is a modifier of the member behind it, not the member's name.
def modifies : Parser Bool := nextOnLineIs startsKey

def memberType : Parser Tree := do
  if (← sees "(") || (← sees "<") then
    let tree ← callSignature self false
    endMember
    return tree
  if (← seesWord "new") && (← nextIs (do return (← sees "(") || (← sees "<"))) then
    advance
    let tree ← callSignature self false
    endMember
    return tree
  let _ ← collect do
    if (← seesWord "readonly") && (← modifies) then
      advance
      return some .plain
    return none
  if (← sees "[") && (← startsIndex) then
    let tree ← indexSignature self
    endMember
    return tree
  let accessor ← do
    if (← seesAny ["get", "set"]) && (← nextIs startsKey) then
      advance
      pure true
    else pure false
  let k ← key self
  let _ ← if accessor then pure false else accept "?"
  let rest ← if (← sees "(") || (← sees "<") then pure [← callSignature self false]
    else annotation self
  endMember
  return .of (k.parts ++ rest)

def members : Parser (List Tree) := do
  expect "\x7b"
  let items ← collect do
    if (← sees "\x7d") || (← seesEnd) then return none
    return some (← memberType self)
  expect "\x7d"
  return items

def startsMapped : Parser Bool := ahead do
  expect "\x7b"
  if (← sees "+") || (← sees "-") then
    advance
    return ← seesWord "readonly"
  let _ ← acceptWord "readonly"
  expect "["
  let _ ← identifier
  seesWord "in"

-- A modifier, which a sign before it adds or takes away.
def signed (present : Parser Bool) : Parser Unit := do
  if ← accept "+" <||> accept "-" then
    if !(← present) then giveUp
  else
    let _ ← present

-- `[K in T as U]?: V` between braces
def mapped : Parser Tree := do
  expect "\x7b"
  signed (acceptWord "readonly")
  expect "["
  let (name, _) ← identifier
  expectWord "in"
  let keys ← self .type
  let renamed ← if ← acceptWord "as" then pure [← self .type] else pure []
  expect "]"
  signed (accept "?")
  let value ← annotation self
  if !(← accept ";") then
    let _ ← accept ","
  expect "\x7d"
  return .node (.scope .block) (.leaf (.bind .block .type name) :: keys :: renamed ++ value)

def atom : Parser Tree := do
  match ← token with
  | .string _ | .numeral | .bigint =>
    advance
    return .plain
  | .template .. => templateType self
  | .mark "-" =>
    advance
    match ← token with
    | .numeral | .bigint =>
      advance
      return .plain
    | _ => giveUp
  | .mark "(" =>
    advance
    let type ← under (fun f => { f with conditional := true }) (self .type)
    expect ")"
    return type
  | .mark "[" =>
    return .of (← under (fun f => { f with conditional := true })
      (enclosed "[" "]" (tupleElement self)))
  | .mark "\x7b" =>
    under (fun f => { f with conditional := true }) do
      if ← startsMapped then mapped self else return .of (← members self)
  | .name "typeof" => query self
  | .name "import" => importType self
  | .name word =>
    if builtin.contains word && !(← nextIs (sees ".")) then
      advance
      return .plain
    else reference self
  | _ => giveUp

def postfixType : Parser Tree := do
  let first ← atom self
  let parts ← iterate (fun (done : List Tree) => do
      if ← afterBreak then return none
      if ← accept "[" then
        if ← accept "]" then return some done
        let index ← under (fun f => { f with conditional := true }) (self .type)
        expect "]"
        return some (index :: done)
      else return none)
    [first]
  return .of parts.reverse

-- `infer T`, with its bound unless that would begin a conditional type.
def inferred : Parser Tree := do
  expectWord "infer"
  let (name, _) ← identifier
  let declared : Tree := .leaf (.bind .block .type name)
  let bound ← attempt do
    expectWord "extends"
    let type ← under (fun f => { f with conditional := false }) (self .type)
    if (← flags).conditional && (← sees "?") then giveUp
    return type
  return .of (declared :: bound.toList)

def operatorType : Parser Tree := do
  let _ ← collect do
    if ← seesAny ["keyof", "unique", "readonly"] then
      advance
      return some .plain
    else return none
  if ← seesWord "infer" then inferred self else postfixType self

-- Whether a function type starts here, rather than a type in parentheses.
def startsFunction : Parser Bool := do
  if ← sees "<" then return true
  if ← seesWord "new" then return true
  if (← seesWord "abstract") && (← nextIs (seesWord "new")) then return true
  if !(← sees "(") then return false
  ahead do
    advance
    if (← sees ")") || (← sees "...") then return true
    skipParameterModifiers
    if (← sees "[") || (← sees "\x7b") then
      let _ ← self (.pattern .block)
    else
      let _ ← anyName
    if (← sees ":") || (← sees ",") || (← sees "?") || (← sees "=") then return true
    if ← accept ")" then sees "=>" else return false

def functionType : Parser Tree := do
  let _ ← acceptWord "abstract"
  let _ ← acceptWord "new"
  callSignature self true

-- Types with a mark between them, and perhaps before the first.
def joined (mark : String) (item : Parser Tree) : Parser Tree := do
  let _ ← accept mark
  let first ← item
  let rest ← collect do
    if ← accept mark then return some (← item) else return none
  return .of (first :: rest)

def partType (level : Parser Tree) : Parser Tree := do
  if ← startsFunction self then functionType self else level

def unionType : Parser Tree :=
  joined "|" (joined "&" (partType self (operatorType self)))

def type : Parser Tree := do
  if ← startsFunction self then functionType self
  else
    let subject ← unionType self
    if (← flags).conditional && !(← afterBreak) && (← seesWord "extends") then
      advance
      let bound ← under (fun f => { f with conditional := false }) (self .type)
      expect "?"
      let yes ← under (fun f => { f with conditional := true }) (self .type)
      expect ":"
      let no ← under (fun f => { f with conditional := true }) (self .type)
      return .node (.scope .block) [subject, bound, yes, no]
    else return subject

def canFollowArguments : Parser Bool := do
  match ← token with
  | .template .. => return true
  | .mark m =>
    if m == "(" then return true
    if ["<", ">", "+", "-"].contains m then return false
    if ← afterBreak then return true
    return !(["[", "\x7b", "!", "~", "++", "--", "/=", "@"].contains m)
  | .finish => return true
  | .name word =>
    if ← afterBreak then return true
    return word == "in" || word == "instanceof" || word == "as" || word == "satisfies" ||
      (isReserved word && !(["function", "class", "new", "this", "super", "null", "true", "false",
        "typeof", "void", "delete", "import"].contains word))
  | _ => return (← afterBreak)

-- Type arguments inside an expression, where an angle may also compare: it does if an equals sign
-- stands right behind it.
def expressionArguments? : Parser (Option (List Tree)) := attempt do
  if !(← splitAngle) then giveUp
  expect "<"
  let (types, _) ← commaList ">" (self .type)
  if (← wideMark) == ">=" then giveUp
  expect ">"
  blameIf types.isEmpty
  if !(← canFollowArguments) then giveUp
  return types

end Treeshake.Ecma.TypeGrammar
