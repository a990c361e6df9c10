import Treeshake.Json.Reader

namespace Treeshake.Library

open Json Json.Reader

structure Patterns where
  components : String
  directives : String
deriving DecidableEq, Repr

structure Table where
  exports : List (String × String)
  patterns : Patterns
deriving DecidableEq, Repr

namespace Table

def foldFields {σ : Type} (step : σ → String → Reader σ) (first : Bool) (s : σ) : Nat → Reader σ
  | 0 => fault .endInObject
  | fuel + 1 => do
    match ← anotherField first with
    | some name =>
      colon
      let s ← step s name
      foldFields step false s fuel
    | none => return s

def item {α : Type} (index : Nat) (expected : String) (read : Reader α) : Reader α := do
  if ← anotherItem (index == 0) then read else fault (.wrongLength index expected)

-- Fields in any order, or a list of them in the order in which they are declared.
def record {α : Type} (expected : String) (fields items : Reader α) : Reader α := do
  match ← peek with
  | none => fault .endInValue
  | some '\x7b' =>
    next
    let result ← fields
    endFields
    return result
  | some '[' =>
    next
    let result ← items
    endItems
    return result
  | some c => wrongKind expected c

def once {α : Type} (name : String) (old : Option α) (read : Reader α) : Reader (Option α) := do
  if old.isSome then fault (.duplicateField name) else return some (← read)

def require {α : Type} (name : String) (found : Option α) : Reader α :=
  match found with
  | some value => return value
  | none => fault (.missingField name)

-- Texts by name; of two with one name the last counts.
def readExports : Reader (List (String × String)) := do
  match ← peek with
  | none => fault .endInValue
  | some '\x7b' =>
    next
    let step (done : List (String × String)) (name : String) : Reader (List (String × String)) := do
      let text ← expectString "a string"
      return done.filter (·.1 != name) ++ [(name, text)]
    let result ← foldFields step true [] (← fuel)
    endFields
    return result
  | some c => wrongKind "a map" c

def readPattern : Reader String := expectString "a string"

def patternFields : Reader Patterns := do
  let step (found : Option String × Option String) (name : String) :
      Reader (Option String × Option String) := do
    match name with
    | "components" => return (← once name found.1 readPattern, found.2)
    | "directives" => return (found.1, ← once name found.2 readPattern)
    | _ =>
      skip
      return found
  let (components, directives) ← foldFields step true (none, none) (← fuel)
  return ⟨← require "components" components, ← require "directives" directives⟩

def patternsWhole : String := "struct AutoImportRegex with 2 elements"

def patternItems : Reader Patterns := do
  let components ← item 0 patternsWhole readPattern
  let directives ← item 1 patternsWhole readPattern
  return ⟨components, directives⟩

def readPatterns : Reader Patterns := record "struct AutoImportRegex" patternFields patternItems

def tableFields : Reader Table := do
  let step (found : Option (List (String × String)) × Option Patterns) (name : String) :
      Reader (Option (List (String × String)) × Option Patterns) := do
    match name with
    | "importName" => return (← once name found.1 readExports, found.2)
    | "regex" => return (found.1, ← once name found.2 readPatterns)
    | _ =>
      skip
      return found
  let (exports, found) ← foldFields step true (none, none) (← fuel)
  return ⟨← require "importName" exports, ← require "regex" found⟩

def tableWhole : String := "struct AutoImportTable with 2 elements"

def tableItems : Reader Table := do
  let exports ← item 0 tableWhole readExports
  let found ← item 1 tableWhole readPatterns
  return ⟨exports, found⟩

-- It is read from left to right, so the first fault in the text is the one reported, whether of
-- the text or of the shape.
def ofText (text : String) : Except Json.Fault Table :=
  run' (do
    let table ← record "struct AutoImportTable" tableFields tableItems
    finish
    return table) text.toList

end Table

end Treeshake.Library
