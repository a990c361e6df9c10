import Treeshake.Unicode.Property

namespace Treeshake.Text

def contains (needle : List Char) : List Char → Bool
  | [] => needle.isEmpty
  | c :: cs => needle.isPrefixOf (c :: cs) || contains needle cs

theorem contains_iff_infix {needle text : List Char} :
    contains needle text = true ↔ needle <:+: text := by
  induction text with
  | nil => simp [contains]
  | cons c cs ih => simp [contains, ih, List.infix_cons_iff]

-- The text that `skip` more characters are taken from, then every needle.
def eraseFrom (needle : List Char) : Nat → List Char → List Char
  | _, [] => []
  | skip + 1, _ :: cs => eraseFrom needle skip cs
  | 0, c :: cs =>
    if needle.isPrefixOf (c :: cs) then eraseFrom needle (needle.length - 1) cs
    else c :: eraseFrom needle 0 cs

-- Takes every occurrence of the needle out, from the left and without overlap.
def erase (needle text : List Char) : List Char := eraseFrom needle 0 text

def piecesFrom (separator : List Char) : Nat → List Char → List (List Char)
  | _, [] => [[]]
  | skip + 1, _ :: cs => piecesFrom separator skip cs
  | 0, c :: cs =>
    if separator.isPrefixOf (c :: cs) then
      [] :: piecesFrom separator (separator.length - 1) cs
    else (piecesFrom separator 0 cs).modifyHead (c :: ·)

def pieces (separator text : List Char) : List (List Char) := piecesFrom separator 0 text

def trimStart (text : List Char) : List Char := text.dropWhile Unicode.isBlank

def trimEnd (text : List Char) : List Char := (text.reverse.dropWhile Unicode.isBlank).reverse

def trim (text : List Char) : List Char := trimEnd (trimStart text)

-- What follows the last mark, or all of a text without one.
def afterLast (mark : Char) (text : List Char) : List Char :=
  (text.reverse.takeWhile (· != mark)).reverse

def beforeFirst (mark : Char) (text : List Char) : List Char := text.takeWhile (· != mark)

end Treeshake.Text
