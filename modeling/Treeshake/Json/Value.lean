namespace Treeshake

-- A number is a whole one that fits 64 bits, or else the double of the given bits.
inductive Number where
  | natural (n : Nat)
  | negative (n : Nat)
  | real (bits : UInt64)
deriving DecidableEq, Repr, Inhabited

-- Objects keep their fields in written order.
inductive Json where
  | null
  | bool (b : Bool)
  | number (n : Number)
  | string (s : String)
  | array (items : List Json)
  | object (fields : List (String × Json))
deriving Repr, Inhabited, BEq

namespace Json

def field? (value : Json) (name : String) : Option Json :=
  match value with
  | .object fields => fields.lookup name
  | _ => none

def string? : Json → Option String
  | .string s => some s
  | _ => none

def bool? : Json → Option Bool
  | .bool b => some b
  | _ => none

def natural? : Json → Option Nat
  | .number (.natural n) => some n
  | _ => none

def items? : Json → Option (List Json)
  | .array items => some items
  | _ => none

-- Puts a value under a name: in the place of the old value, or after all other fields.
def put (name : String) (value : Json) : List (String × Json) → List (String × Json)
  | [] => [(name, value)]
  | (key, old) :: rest =>
    if key == name then (key, value) :: rest else (key, old) :: put name value rest

end Json

end Treeshake
