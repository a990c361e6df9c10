import Treeshake.Text.Offset

namespace Treeshake.Ecma

-- Values and types have names of their own; some declarations make both, and some references
-- take either.
inductive Space where
  | value
  | type
  | both
deriving DecidableEq, Repr, Inhabited

def Space.meets : Space → Space → Bool
  | .value, .type => false
  | .type, .value => false
  | _, _ => true

-- A declaration reaches over the nearest scope, or over the nearest one that is a whole body.
inductive Reach where
  | block
  | body
deriving DecidableEq, Repr, Inhabited

-- What matters to names is where one is read, written or declared. Everything else only holds its
-- parts, which stand in the order of the source.
inductive Form where
  | use (space : Space) (name : String) (span : Text.Span)
  -- a field of an object literal that stands for its own value
  | shorthand (name : String) (span : Text.Span)
  -- a shorthand field with a default, which only a target may have
  | cover (name : String) (span : Text.Span)
  | write (name : String) (span : Text.Span)
  | bind (reach : Reach) (space : Space) (name : String)
  | scope (reach : Reach)
  | group
  | chain
  | member
  -- a value with its type behind it, or before it
  | cast
  | assertion
  | array (comma : Bool)
  | object (comma : Bool)
  | hole
  | property
  | method
  | spread
  | assign (plain : Bool)
  | update
  -- a place that takes the values of a loop, and where these come from
  | each
  | unary
  | await
  | logical (coalesce : Bool)
  | importCall
  | arrow
  | parts
deriving DecidableEq, Repr, Inhabited

inductive Tree where
  | node (form : Form) (parts : List Tree)
deriving Repr, Inhabited

namespace Tree

def form : Tree → Form
  | node form _ => form

def parts : Tree → List Tree
  | node _ parts => parts

def leaf (form : Form) : Tree := node form []

def of (parts : List Tree) : Tree := node .parts parts

def plain : Tree := of []

def inner : Tree → Tree
  | node .group [value] => value.inner
  | node .cast (value :: _) => value.inner
  | node .assertion [_, value] => value.inner
  | tree => tree

def isName : Tree → Bool
  | node (.use ..) _ => true
  | _ => false

def isMember : Tree → Bool
  | node .member _ => true
  | _ => false

-- The target that an expression is when a single place is assigned to.
def place? : Tree → Option Tree
  | node (.use _ name span) _ => some (leaf (.write name span))
  | node .member parts => some (node .member parts)
  | node .group [value] => (place? value).map fun target => node .group [target]
  | node .cast parts =>
    let value := (node .cast parts).inner
    if value.isName || value.isMember then some (node .cast parts) else none
  | node .assertion parts =>
    let value := (node .assertion parts).inner
    if value.isName || value.isMember then some (node .assertion parts) else none
  | _ => none

mutual

-- The target that an expression is on the left of an assignment: a place, or a pattern of them.
def target? : Tree → Option Tree
  | node (.array comma) items => (elements? comma items).map (node (.array comma))
  | node (.object comma) fields => (fields? comma fields).map (node (.object comma))
  | tree => place? tree

-- An element may have a default, and the last one may take the rest.
def elements? (comma : Bool) : List Tree → Option (List Tree)
  | [] => some []
  | [node .spread [value]] =>
    if comma then none else do return [node .spread [← target? value]]
  | item :: rest => do
    let head ← element? item
    return head :: (← elements? comma rest)

def element? : Tree → Option Tree
  | node .hole _ => some (leaf .hole)
  | node (.assign true) parts => some (of parts)
  | node (.array comma) items => (elements? comma items).map (node (.array comma))
  | node (.object comma) fields => (fields? comma fields).map (node (.object comma))
  | tree => place? tree

def fields? (comma : Bool) : List Tree → Option (List Tree)
  | [] => some []
  | [node .spread [value]] =>
    if comma then none else do return [node .spread [← place? value]]
  | field :: rest => do
    let head ← field? field
    return head :: (← fields? comma rest)

def field? : Tree → Option Tree
  | node (.shorthand name span) _ => some (leaf (.write name span))
  | node (.cover name span) parts => some (of (leaf (.write name span) :: parts))
  | node .property [value] => do return node .property [← element? value]
  | node .property [key, value] => do return node .property [key, ← element? value]
  | _ => none

end

mutual

-- Whether a field with a default is left that no assignment has made a target.
def hasCover : Tree → Bool
  | node (.cover ..) _ => true
  | node _ parts => anyCover parts

def anyCover : List Tree → Bool
  | [] => false
  | tree :: rest => hasCover tree || anyCover rest

end

end Tree

end Treeshake.Ecma
