import Treeshake.Json.Value

namespace Treeshake.Node

-- Nodes are objects with a type, and whatever field holds nodes leads to children.
def isNode : Json → Bool
  | .object fields => fields.any fun (name, _) => name == "type"
  | _ => false

def type? (node : Json) : Option String := (node.field? "type").bind Json.string?

-- A byte offset, which has 32 bits.
def offset? (value : Json) : Option Nat :=
  match value with
  | .number (.natural n) => if n < 0x100000000 then some n else none
  | _ => none

-- The bytes that a node covers, given as a pair or by its two ends. A pair counts even if it is
-- no good.
def range? (node : Json) : Option (Nat × Nat) :=
  match node.field? "range" with
  | some (.array [start, stop]) => do return (← offset? start, ← offset? stop)
  | _ => do return (← offset? (← node.field? "start"), ← offset? (← node.field? "end"))

def identifier? (node : Json) : Option String :=
  if type? node == some "Identifier" then (node.field? "name").bind Json.string? else none

def held : Json → List Json
  | .array items => items.filter isNode
  | .object fields => if isNode (.object fields) then [.object fields] else []
  | _ => []

-- The direct children of a node: fields in written order, items in order.
def children : Json → List Json
  | .object fields => fields.flatMap fun (_, value) => held value
  | _ => []

section Visit

-- A visitor sees one node after the other, each with what is kept from those before.
variable {σ α : Type} (visitor : σ → Json → Option α × σ)

def orOnward (outcome : Option α × σ) (more : σ → Option α × σ) : Option α × σ :=
  match outcome with
  | (some result, s) => (some result, s)
  | (none, s) => more s

def visitItems (s : σ) : List Json → Option α × σ
  | [] => (none, s)
  | item :: rest =>
    if isNode item then orOnward (visitor s item) (visitItems · rest) else visitItems s rest

def visitFields (s : σ) : List (String × Json) → Option α × σ
  | [] => (none, s)
  | (_, .array items) :: rest => orOnward (visitItems visitor s items) (visitFields · rest)
  | (_, .object fields) :: rest =>
    if isNode (.object fields) then orOnward (visitor s (.object fields)) (visitFields · rest)
    else visitFields s rest
  | _ :: rest => visitFields s rest

def visitChildren (s : σ) : Json → Option α × σ
  | .object fields => visitFields visitor s fields
  | _ => (none, s)

end Visit

mutual

def preorder : Json → List Json
  | .object fields => .object fields :: belowFields fields
  | value => [value]

def belowFields : List (String × Json) → List Json
  | [] => []
  | (_, .array items) :: rest => belowItems items ++ belowFields rest
  | (_, .object fields) :: rest =>
    (if isNode (.object fields) then .object fields :: belowFields fields else []) ++
      belowFields rest
  | _ :: rest => belowFields rest

def belowItems : List Json → List Json
  | [] => []
  | item :: rest => (if isNode item then preorder item else []) ++ belowItems rest

end

mutual

-- A value, if it has a property, or else the first one below it that does. The search ends there:
-- it goes neither below what it finds nor on behind it.
def search? (p : Json → Bool) : Json → Option Json
  | .object fields =>
    if p (.object fields) then some (.object fields) else searchFields? p fields
  | value => if p value then some value else none

def searchFields? (p : Json → Bool) : List (String × Json) → Option Json
  | [] => none
  | (_, .array items) :: rest => searchItems? p items <|> searchFields? p rest
  | (_, .object fields) :: rest =>
    (if !isNode (.object fields) then none
      else if p (.object fields) then some (.object fields)
      else searchFields? p fields) <|> searchFields? p rest
  | _ :: rest => searchFields? p rest

def searchItems? (p : Json → Bool) : List Json → Option Json
  | [] => none
  | item :: rest => (if isNode item then search? p item else none) <|> searchItems? p rest

end

def findFirst (root : Json) (p : Json → Bool) : Option Json := search? p root

-- Every node with a property, also below others that have it.
def findAll (root : Json) (p : Json → Bool) : List Json := (preorder root).filter p

end Treeshake.Node
