import Treeshake.Node.Shape

namespace Treeshake.Node

-- Calls of members and of computed functions are no calls by name.
def isCallTo (name : String) (node : Json) : Bool :=
  type? node == some "CallExpression" && (node.field? "callee").bind identifier? == some name

def callsTo (root : Json) (name : String) : List Json := findAll root (isCallTo name)

def firstCallTo? (root : Json) (name : String) : Option Json := findFirst root (isCallTo name)

def literalArgument? (call : Json) : Option String := do
  let first ← (← (← call.field? "arguments").items?).head?
  if type? first != some "Literal" then none
  let value ← (← first.field? "value").string?
  return ((first.field? "raw").bind Json.string?).getD ("\"" ++ value ++ "\"")

structure Invocation where
  callee : String
  -- the argument with its quotes
  literal : String
  range : Option (Nat × Nat)
deriving DecidableEq, Repr

def Invocation.value (i : Invocation) : String :=
  String.ofList (i.literal.toList.filter fun c => c != '\'' && c != '"')

def invocation? (name : String) (call : Json) : Option Invocation :=
  (literalArgument? call).map fun literal => ⟨name, literal, range? call⟩

def invocations (root : Json) (name : String) : List Invocation :=
  (callsTo root name).filterMap (invocation? name)

def firstInvocation? (root : Json) (name : String) : Option Invocation :=
  (findFirst root fun node => isCallTo name node && (literalArgument? node).isSome).bind
    (invocation? name)

end Treeshake.Node
