import Treeshake.Unicode.Property

namespace Treeshake.Text

def hexText (n : Nat) : List Char := Nat.toDigits 16 n

def braced (c : Char) : List Char := "\\u\x7b".toList ++ hexText c.toNat ++ ['\x7d']

def escaped (c : Char) : List Char :=
  if c == '\x00' then ['\\', '0']
  else if c == '\t' then ['\\', 't']
  else if c == '\r' then ['\\', 'r']
  else if c == '\n' then ['\\', 'n']
  else if c == '"' then ['\\', '"']
  else if c == '\\' then ['\\', '\\']
  else if Unicode.extendsGrapheme c || !Unicode.isPrintable c then braced c
  else [c]

-- A text between double quotes, with marks that join their neighbours and characters without
-- a shape given by number.
def quoted (text : String) : String :=
  String.ofList ('"' :: text.toList.flatMap escaped ++ ['"'])

end Treeshake.Text
