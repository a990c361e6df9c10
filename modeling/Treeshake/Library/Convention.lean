import Treeshake.Build.Fault
import Treeshake.Library.Table
import Treeshake.Pattern.Reader

namespace Treeshake.Library

-- Patterns recognise names; the exports tell what a recognised name stands for.
structure Convention where
  exports : List (String × String)
  texts : Patterns
  components : Pattern
  directives : Pattern

def compile (place : PatternPlace) (text : String) : Except Fault Pattern :=
  match Pattern.ofText? text with
  | some p => .ok p
  | none => .error (.pattern place text)

namespace Convention

def make (exports : List (String × String)) (texts : Patterns) : Except Fault Convention := do
  let components ← compile (.names .component) texts.components
  let directives ← compile (.names .directive) texts.directives
  return ⟨exports, texts, components, directives⟩

def isComponent (c : Convention) (name : String) : Bool := c.components.isMatch name

-- Directives are recognised with the prefix that they have in templates.
def isDirective (c : Convention) (name : String) : Bool := c.directives.isMatch name

def canonical? (c : Convention) (name : String) : Option String := c.exports.lookup name

def componentExport? (c : Convention) (name : String) : Option String :=
  if c.isComponent name then c.canonical? name else none

def directivePrefix : String := "v-"

def directiveExport? (c : Convention) (name : String) : Option String :=
  let full := directivePrefix ++ name
  if c.isDirective full then c.canonical? full else none

def exportOf? (c : Convention) (kind : NameKind) (name : String) : Option String :=
  match kind with
  | .component => c.componentExport? name
  | .directive => c.directiveExport? name

end Convention

end Treeshake.Library
