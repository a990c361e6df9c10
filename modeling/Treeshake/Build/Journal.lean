namespace Treeshake

inductive Level where
  | trace
  | debug
  | info
  | warn
deriving DecidableEq, Repr

def Level.name : Level → String
  | .trace => "TRACE"
  | .debug => "DEBUG"
  | .info => "INFO"
  | .warn => "WARN"

structure Entry where
  level : Level
  text : String
deriving DecidableEq, Repr

abbrev Journal := List Entry

namespace Journal

def trace (text : String) : Journal := [⟨.trace, text⟩]

def debug (text : String) : Journal := [⟨.debug, text⟩]

def info (text : String) : Journal := [⟨.info, text⟩]

def warn (text : String) : Journal := [⟨.warn, text⟩]

end Journal

end Treeshake
