import Treeshake.Ecma.Tree

namespace Treeshake.Ecma

structure Known where
  name : String
  space : Space
deriving DecidableEq, Repr

mutual

-- The names that a part declares for the nearest scope of the given reach. Declarations for a
-- body pass through the blocks inside it.
def Tree.declared (reach : Reach) : Tree → List Known
  | .node (.bind r space name) _ => if r = reach then [⟨name, space⟩] else []
  | .node (.scope r) parts =>
    match reach, r with
    | .body, .block => Tree.declaredAll .body parts
    | _, _ => []
  | .node _ parts => Tree.declaredAll reach parts

def Tree.declaredAll (reach : Reach) : List Tree → List Known
  | [] => []
  | tree :: rest => tree.declared reach ++ Tree.declaredAll reach rest

end

-- A scope knows every name that its parts declare for it, wherever in it they stand.
def Tree.opens (form : Form) (parts : List Tree) : List Known :=
  match form with
  | .scope .block => Tree.declaredAll .block parts
  | .scope .body => Tree.declaredAll .block parts ++ Tree.declaredAll .body parts
  | _ => []

def resolves (known : List Known) (space : Space) (name : String) : Bool :=
  known.any fun k => k.name == name && space.meets k.space

-- A free name that is read, and where. A shorthand field is read under its own name.
structure Mention where
  name : String
  span : Text.Span
  shorthand : Bool
deriving DecidableEq, Repr

mutual

def Tree.mentions (known : List Known) : Tree → List Mention
  | .node (.use space name span) _ =>
    if resolves known space name then [] else [⟨name, span, false⟩]
  | .node (.shorthand name span) _ =>
    if resolves known .value name then [] else [⟨name, span, true⟩]
  | .node form parts => Tree.mentionsAll (Tree.opens form parts ++ known) parts

def Tree.mentionsAll (known : List Known) : List Tree → List Mention
  | [] => []
  | tree :: rest => tree.mentions known ++ Tree.mentionsAll known rest

end

end Treeshake.Ecma
