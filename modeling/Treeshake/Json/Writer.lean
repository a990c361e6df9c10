import Treeshake.Json.Value
import Treeshake.Decimal.Shortest

namespace Treeshake.Json

def hexPair (c : Char) : List Char :=
  [Nat.digitChar (c.toNat / 16), Nat.digitChar (c.toNat % 16)]

-- Only quotes, backslashes and control characters are written as escapes.
def escape (c : Char) : List Char :=
  if c == '"' then ['\\', '"']
  else if c == '\\' then ['\\', '\\']
  else if c == '\x08' then ['\\', 'b']
  else if c == '\t' then ['\\', 't']
  else if c == '\n' then ['\\', 'n']
  else if c == '\x0c' then ['\\', 'f']
  else if c == '\r' then ['\\', 'r']
  else if c.toNat < 0x20 then ['\\', 'u', '0', '0'] ++ hexPair c
  else [c]

def literal (text : String) : String :=
  String.ofList ('"' :: text.toList.flatMap escape ++ ['"'])

-- A double that is not finite has no number text.
def renderReal (bits : UInt64) : String :=
  if bits.toNat / Decimal.twoTo 52 % Decimal.twoTo 11 == 2047 then "null" else Decimal.render (Float.ofBits bits)

def renderNumber : Number → String
  | .natural n => toString n
  | .negative n => "-" ++ toString n
  | .real bits => renderReal bits

mutual

def render : Json → String
  | .null => "null"
  | .bool true => "true"
  | .bool false => "false"
  | .number n => renderNumber n
  | .string s => literal s
  | .array items => "[" ++ ",".intercalate (renderItems items) ++ "]"
  | .object fields => "\x7b" ++ ",".intercalate (renderFields fields) ++ "\x7d"

def renderItems : List Json → List String
  | [] => []
  | item :: rest => render item :: renderItems rest

def renderFields : List (String × Json) → List String
  | [] => []
  | (name, value) :: rest => (literal name ++ ":" ++ render value) :: renderFields rest

end

end Treeshake.Json
