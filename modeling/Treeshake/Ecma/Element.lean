import Treeshake.Ecma.Type

namespace Treeshake.Ecma.ElementGrammar

open Treeshake.Ecma.Parser Signature TypeGrammar

variable (self : Grammar)

structure Tag where
  text : String
  reference : List Tree

-- The end of an element leads back to text between elements, or to the expression around.
def leave (inChild : Bool) : Parser Unit := advanceWith (if inChild then Lexer.child else Lexer.next)

def hyphenName : Parser (String × Text.Span × Bool) := do
  match ← token with
  | .name name =>
    let place ← span
    let s ← get
    let after := Lexer.hyphenated s.after
    let tail := s.after.rest.take (s.after.rest.length - after.rest.length)
    set { s with after }
    advanceName
    return (name ++ String.ofList tail, place, !tail.isEmpty)
  | _ => giveUp

-- Whether a name is looked up, rather than naming an element of the page.
def isReference (name : String) : Bool :=
  match name.toList with
  | c :: _ => !('a' ≤ c && c ≤ 'z')
  | [] => false

def tag : Parser Tag := do
  let (name, place, hyphens) ← hyphenName
  if ← accept ":" then
    let (second, _, _) ← hyphenName
    return ⟨name ++ ":" ++ second, []⟩
  if (← sees ".") then
    blameIf hyphens
    let text ← iterate (fun (done : String) => do
        if ← accept "." then
          let (next, _, _) ← hyphenName
          return some (done ++ "." ++ next)
        else return none) name
    return ⟨text, if hyphens || name == "this" then [] else [.leaf (.use .value name place)]⟩
  if isReference name && !hyphens then return ⟨name, [.leaf (.use .value name place)]⟩
  return ⟨name, []⟩

def braced : Parser Tree :=
  under (fun f => { f with inOperator := true, decorating := false }) do
    let first ← self (.assignment true)
    if ← sees "," then
      blame
      let rest ← collect do
        if ← accept "," then return some (← self (.assignment true)) else return none
      return .of (first :: rest)
    return first

def setting : Parser Tree := do
  if ← accept "\x7b" then
    expect "..."
    let value ← under (fun f => { f with inOperator := true }) (self (.assignment true))
    expect "\x7d"
    return value
  let _ ← hyphenName
  if ← accept ":" then
    let _ ← hyphenName
  if !(← sees "=") then return .plain
  advanceWith Lexer.attributeValue
  match ← token with
  | .string _ =>
    advance
    return .plain
  | .mark "\x7b" =>
    advance
    blameIf (← sees "\x7d")
    let value ← braced self
    expect "\x7d"
    return value
  | .mark "<" => self (.element false)
  | _ => giveUp

def settings : Parser (List Tree) := collect do
  if (← sees "/") || (← sees ">") || (← seesEnd) then return none
  return some (← setting self)

def container : Parser Tree := do
  advance
  if ← sees "\x7d" then
    leave true
    return .plain
  let _ ← accept "..."
  let value ← braced self
  if !(← sees "\x7d") then giveUp
  leave true
  return value

def children : Parser (List Tree) := do
  let (done, _) ← iterate (fun (done, finished) => do
      if finished then return none
      match ← token with
      | .prose =>
        leave true
        return some (done, false)
      | .mark "\x7b" => return some ((← container self) :: done, false)
      | .mark "<" =>
        if ← nextIs (sees "/") then
          advance
          advance
          return some (done, true)
        else
          return some ((← self (.element true)) :: done, false)
      | _ => giveUp)
    (([] : List Tree), false)
  return done.reverse

def element (inChild : Bool) : Parser Tree := do
  expect "<"
  if ← sees ">" then
    leave true
    let inside ← children self
    if !(← sees ">") then giveUp
    leave inChild
    return .of inside
  let opening ← tag
  let types ← if ← isTyped then typeArguments? self else pure []
  let fields ← settings self
  if ← accept "/" then
    if !(← sees ">") then giveUp
    leave inChild
    return .of (opening.reference ++ types ++ fields)
  if !(← sees ">") then giveUp
  leave true
  let inside ← children self
  if ← sees ">" then
    blame
    leave inChild
    return .of (opening.reference ++ types ++ fields ++ inside)
  let closing ← tag
  blameIf (opening.text != closing.text)
  if !(← sees ">") then giveUp
  leave inChild
  return .of (opening.reference ++ types ++ fields ++ inside ++ closing.reference)

end Treeshake.Ecma.ElementGrammar
