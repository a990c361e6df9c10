import Treeshake.Build.Fault
import Treeshake.Build.Settings
import Treeshake.Text.Search

namespace Treeshake.Source.Barrel

def afterWord? (word text : List Char) : Option (List Char) :=
  let rest := text.drop word.length
  if word.isPrefixOf text && !rest.head?.any Unicode.isWord then some rest else none

def afterKey? (mark : Char) (word text : List Char) : Option (List Char) :=
  match text with
  | c :: rest => if c = mark then afterWord? word (Text.trimStart rest) else none
  | [] => none

def isExpanded (behind : List Char) : Bool := (Text.trimStart behind).head? == some ':'

def componentsKey : String := "components"

def directivesKey : String := "directives"

def splitAtComponents? : List Char → Option (List Char × List Char)
  | [] => none
  | c :: cs =>
    match afterKey? '\x7b' componentsKey.toList (c :: cs) with
    | some behind => some ((c :: cs).take ((c :: cs).length - behind.length), behind)
    | none => (splitAtComponents? cs).map fun (through, behind) => (c :: through, behind)

-- The text through a directives key that comes next and is not expanded, and the text behind it.
def splitAtDirectives? (text : List Char) : Option (List Char × List Char) :=
  match afterKey? ',' directivesKey.toList (Text.trimStart text) with
  | some behind =>
    if isExpanded behind then none else some (text.take (text.length - behind.length), behind)
  | none => none

def memberList (key : String) (names : List String) : List Char :=
  (": [" ++ ", ".intercalate (names.map fun name => key ++ "." ++ name) ++ "]").toList

inductive Outcome where
  | expanded (source : String)
  | expandedBefore
  | noKey
deriving DecidableEq, Repr

def expandDirectives (names : List String) (text : List Char) : List Char :=
  match splitAtDirectives? text with
  | some (through, behind) => through ++ memberList directivesKey names ++ behind
  | none => text

-- A barrel hands all components and all directives to an installer, as in
-- `{ components, directives }`. Lists of those in use let go of the others.
def expand (source : String) (components directives : List String) : Outcome :=
  match splitAtComponents? source.toList with
  | none => .noKey
  | some (through, behind) =>
    if isExpanded behind then .expandedBefore
    else .expanded (String.ofList
      (through ++ memberList componentsKey components ++ expandDirectives directives behind))

def sideEffectsKey : String := "sideEffects"

-- Puts what is known of the library's side effects into the descriptor of its package, so that
-- members that nobody mentions any more may go.
def overrideSideEffects (request : String) (package : Option Json) (effects : SideEffects) :
    Except Fault Json :=
  match package with
  | some (.object fields) => .ok (.object (Json.put sideEffectsKey effects.toJson fields))
  | _ => .error (.missingDescriptor request)

end Treeshake.Source.Barrel
