import Treeshake.Ecma.Grammar

namespace Treeshake.Ecma.Signature

open Treeshake.Ecma.Parser

-- The name of a field or a member. A computed one is an expression, all others are only text.
structure Key where
  parts : List Tree
  text : Option String
  identifier : Option (String × Text.Span)
  isPrivate : Bool

variable (self : Grammar)

def computed : Parser Tree := do
  expect "["
  let key ← under (fun f => { f with inOperator := true, decorating := false })
    (self (.assignment true))
  expect "]"
  return key

def key : Parser Key := do
  match ← token with
  | .name _ =>
    let (text, place) ← placedName
    return ⟨[], some text, if isReserved text then none else some (text, place), false⟩
  | .string value =>
    advance
    return ⟨[], some value, none, false⟩
  | .numeral | .bigint =>
    advance
    return ⟨[], none, none, false⟩
  | .privateName text =>
    advance
    return ⟨[], some text, none, true⟩
  | _ => return ⟨[← computed self], none, none, false⟩

def startsKey : Parser Bool := do
  match ← token with
  | .name _ | .string _ | .numeral | .bigint | .privateName _ => return true
  | .mark m => return m == "["
  | _ => return false

def decorators : Parser (List Tree) := collect do
  if ← accept "@" then
    return some (← under (fun f => { f with decorating := true }) (self .leftHand))
  else return none

def annotation : Parser (List Tree) := do
  if ← isTyped <&&> accept ":" then return [← self .type] else return []

def initializer : Parser (List Tree) := do
  if ← accept "=" then
    return [← under (fun f => { f with inOperator := true }) (self (.assignment true))]
  else return []

def patternElement (reach : Reach) : Parser Tree := do
  let target ← self (.pattern reach)
  return .of (target :: (← initializer self))

def identifierPattern (reach : Reach) : Parser Tree := do
  let (name, _) ← identifier
  return .leaf (.bind reach .value name)

-- The rest of a pattern must be its last part, without a comma behind it.
def restElement (reach : Reach) (close : String) : Parser Tree := do
  expect "..."
  let target ← self (.pattern reach)
  if ← accept "=" then
    blame
    let _ ← self (.assignment true)
  if ← sees "," then
    blame
    advance
    if !(← sees close) then giveUp
  return target

def arrayPattern (reach : Reach) : Parser Tree := do
  expect "["
  let (items, _) ← commaList "]" do
    if ← sees "," then return .leaf .hole
    if ← sees "..." then restElement self reach "]" else patternElement self reach
  expect "]"
  return .of items

def patternField (reach : Reach) : Parser Tree := do
  if ← sees "..." then
    let target ← restElement self reach "\x7d"
    match target.form with
    | .bind .. => pure ()
    | _ => blame
    return target
  let k ← key self
  if k.isPrivate then giveUp
  if ← accept ":" then
    return .of (k.parts ++ [← patternElement self reach])
  match k.identifier with
  | some (name, _) =>
    checkIdentifier name
    return .of (.leaf (.bind reach .value name) :: (← initializer self))
  | none => giveUp

def objectPattern (reach : Reach) : Parser Tree := do
  expect "\x7b"
  let (fields, _) ← commaList "\x7d" (patternField self reach)
  expect "\x7d"
  return .of fields

def pattern (reach : Reach) : Parser Tree := do
  if ← sees "[" then arrayPattern self reach
  else if ← sees "\x7b" then objectPattern self reach
  else identifierPattern reach

def typeParameter : Parser Tree := do
  let _ ← collect do
    if ← seesAny ["const", "in", "out"] then
      if ← nextIs isNameToken then
        advance
        return some .plain
    return none
  let (name, _) ← identifier
  let bound ← if ← acceptWord "extends" then pure [← self .type] else pure []
  let default ← if ← accept "=" then pure [← self .type] else pure []
  return .of (.leaf (.bind .block .type name) :: bound ++ default)

def typeParameters : Parser (List Tree) := do
  if (← isTyped) && (← sees "<") then
    let items ← enclosed "<" ">" (typeParameter self)
    blameIf items.isEmpty
    return items
  else return []

-- Words that make a parameter of a constructor a field as well.
def parameterModifiers : List String :=
  ["public", "private", "protected", "readonly", "override"]

def skipParameterModifiers : Parser Unit := do
  let _ ← collect do
    if ← seesAny parameterModifiers then
      if ← nextIs (do return (← isNameToken) || (← sees "[") || (← sees "\x7b")) then
        advance
        return some .plain
    return none

def parameter : Parser Tree := do
  let marks ← decorators self
  if ← isTyped then skipParameterModifiers
  if ← sees "..." then
    expect "..."
    let target ← self (.pattern .block)
    let _ ← if ← isTyped then accept "?" else pure false
    let type ← annotation self
    if ← accept "=" then
      blame
      let _ ← self (.assignment true)
    if !(← sees ")") then
      blame
      giveUp
    return .node .spread (marks ++ target :: type)
  if (← isTyped) && (← seesWord "this") then
    advance
    return .of (← annotation self)
  let target ← self (.pattern .block)
  let _ ← if ← isTyped then accept "?" else pure false
  let type ← annotation self
  return .of (marks ++ target :: type ++ (← initializer self))

def parameters : Parser (List Tree) := enclosed "(" ")" (parameter self)

def isSubject : Parser Bool := do return (← isIdentifier) || (← seesWord "this")

def subject : Parser (List Tree) := do
  let (name, place) ← placedName
  return if name == "this" then [] else [.leaf (.use .value name place)]

-- A type that says something about an argument: `x is T`, `asserts x`, `asserts x is T`.
def predicate? : Parser (Option Tree) := do
  if (← seesWord "asserts") && (← nextOnLineIs isSubject) &&
      !(← nextIs (seesWord "is")) then
    advance
    let name ← subject
    let type ← if ← acceptWord "is" then pure [← self .type] else pure []
    return some (.of (name ++ type))
  else if (← isSubject) && (← nextOnLineIs (seesWord "is")) then
    let name ← subject
    advance
    return some (.of (name ++ [← self .type]))
  else return none

def resultType : Parser Tree := do
  match ← predicate? self with
  | some tree => return tree
  | none => self .type

def resultAnnotation : Parser (List Tree) := do
  if ← isTyped <&&> accept ":" then return [← resultType self] else return []

-- A template up to its end, with what stands in its substitutions. The flag tells whether all
-- its escapes are valid.
def template (item : Parser Tree) : Parser (List Tree × Bool) := do
  let (parts, valid, _) ← iterate (fun (done, valid, finished) => do
      if finished then return none
      match ← token with
      | .template true ok =>
        advance
        return some (done, valid && ok, true)
      | .template false ok =>
        advance
        let part ← item
        if !(← sees "\x7d") then giveUp
        advanceWith Lexer.templateRest
        return some (part :: done, valid && ok, false)
      | _ => giveUp)
    (([] : List Tree), true, false)
  return (parts.reverse, valid)

def statements : Parser (List Tree) := collect do
  if (← sees "\x7d") || (← seesEnd) then return none
  return some (← self (.statement false))

def block (reach : Reach) : Parser Tree := do
  expect "\x7b"
  let body ← statements self
  expect "\x7d"
  return .node (.scope reach) body

def bodyFlags (async generator : Bool) (f : Flags) : Flags :=
  { f with
    inOperator := true, yields := generator, awaits := async, returns := true,
    conditional := true, decorating := false }

def body (async generator : Bool) : Parser Tree :=
  under (bodyFlags async generator) (block self .body)

-- Parameters and body of a function, where names of the function's own are `own`. A dialect with
-- types has functions without a body.
def function (own : List Tree) (async generator : Bool) : Parser (Tree × List Tree × Bool) := do
  let types ← typeParameters self
  let params ← under
    (fun f => { f with yields := generator, awaits := async, inOperator := true,
                       decorating := false })
    (parameters self)
  let result ← resultAnnotation self
  let head := own ++ types ++ params ++ result
  if (← isTyped) && !(← sees "\x7b") then
    if !(← canEnd) then giveUp
    return (.node (.scope .block) head, params, false)
  else
    let code ← body self async generator
    return (.node (.scope .block) (head ++ [code]), params, true)

end Treeshake.Ecma.Signature
