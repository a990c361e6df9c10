import Treeshake.Json.Writer
import Treeshake.Node.Shape

namespace Treeshake.Node

def hiddenFields : List String :=
  ["type", "value", "loc", "range", "start", "end", "leadingComments", "trailingComments"]

def indent (depth : Nat) : String := String.ofList (List.replicate (2 * depth) ' ')

def inlineField (name : String) : Json → String
  | .string s => " " ++ name ++ ":" ++ s
  | .number n => " " ++ name ++ ":" ++ Json.renderNumber n
  | .bool true => " " ++ name ++ ":true"
  | .bool false => " " ++ name ++ ":false"
  | _ => ""

def inlineFields (fields : List (String × Json)) : String :=
  "".intercalate (fields.map fun (name, value) =>
    if hiddenFields.contains name then "" else inlineField name value)

def headLine (fields : List (String × Json)) (depth : Nat) : String :=
  indent depth ++ (type? (.object fields)).getD "?" ++ inlineFields fields ++ "\n"

def fieldLine (name : String) (depth : Nat) : String :=
  indent (depth + 1) ++ "(" ++ name ++ ")\n"

mutual

def outlineAt (depth : Nat) : Json → String
  | .object fields => headLine fields depth ++ outlineFields depth fields
  | _ => ""

def outlineFields (depth : Nat) : List (String × Json) → String
  | [] => ""
  | (name, .array items) :: rest =>
    (if hiddenFields.contains name || !items.any isNode then ""
      else fieldLine name depth ++ outlineItems (depth + 2) items) ++ outlineFields depth rest
  | (name, .object fields) :: rest =>
    (if hiddenFields.contains name || !isNode (.object fields) then ""
      else fieldLine name depth ++ headLine fields (depth + 2) ++
        outlineFields (depth + 2) fields) ++ outlineFields depth rest
  | _ :: rest => outlineFields depth rest

def outlineItems (depth : Nat) : List Json → String
  | [] => ""
  | item :: rest => (if isNode item then outlineAt depth item else "") ++ outlineItems depth rest

end

def outline (root : Json) : String := outlineAt 0 root

end Treeshake.Node
