import Treeshake.Text.Search

namespace Treeshake.Source.Import

-- A name of a module and the name that it gets.
structure Specifier where
  imported : List Char
  bound : List Char
deriving DecidableEq, Repr

def line (path : String) (s : Specifier) : List Char :=
  ("import \x7b ").toList ++ s.imported ++ (" as ").toList ++ s.bound ++
    (" \x7d from '" ++ path ++ "';\n").toList

def after? (word text : List Char) : Option (List Char) :=
  if word.isPrefixOf text then some (text.drop word.length) else none

def afterQuote? : List Char → Option (List Char)
  | [] => none
  | c :: rest => if c = '\'' || c = '"' then some rest else none

def isListed (c : Char) : Bool := Unicode.isWord c || c == '$' || c == ',' || Unicode.isBlank c

-- The list of an import statement at the start of a text, and what follows the statement. Blanks
-- on its line and a semicolon are part of it.
def statement? (library text : List Char) : Option (List Char × List Char) := do
  let rest ← after? "import".toList text
  let rest ← after? ['\x7b'] (Text.trimStart rest)
  let list := rest.takeWhile isListed
  if list.isEmpty then none
  let rest ← after? ['\x7d'] (rest.drop list.length)
  let rest ← after? "from".toList (Text.trimStart rest)
  let rest ← afterQuote? (Text.trimStart rest)
  let rest ← afterQuote? (← after? library rest)
  let rest := rest.dropWhile fun c => c == ' ' || c == '\t'
  return (list, (after? [';'] rest).getD rest)

-- One item of a list: a name, or a name as another one. An empty item is nothing.
def specifier? (item : List Char) : Option Specifier :=
  let parts := (Text.pieces " as ".toList item).map Text.trim
  match parts with
  | [] => none
  | imported :: others =>
    if imported.isEmpty then none
    else some ⟨imported, (others.head?.filter fun bound => !bound.isEmpty).getD imported⟩

def specifiers (list : List Char) : List Specifier :=
  (Text.pieces [','] list).filterMap specifier?

def lines (path : String) (list : List Char) : List Char :=
  (specifiers list).flatMap (line path)

def splitFrom (library : List Char) (path : String) : Nat → List Char → List Char
  | _, [] => []
  | skip + 1, _ :: cs => splitFrom library path skip cs
  | 0, c :: cs =>
    match statement? library (c :: cs) with
    | some (list, rest) => lines path list ++ splitFrom library path (cs.length - rest.length) cs
    | none => c :: splitFrom library path 0 cs

def occurs (library : List Char) : List Char → Bool
  | [] => false
  | c :: cs => (statement? library (c :: cs)).isSome || occurs library cs

-- Replaces the statements that import from the library. Without any there is no new text.
def split? (library path source : String) : Option String :=
  if occurs library.toList source.toList then
    some (String.ofList (splitFrom library.toList path 0 source.toList))
  else none

end Treeshake.Source.Import
