import Treeshake.Text.Offset

namespace Treeshake.Ecma

inductive Token where
  | finish
  -- an identifier or a keyword, its escapes decoded
  | name (text : String)
  | privateName (text : String)
  | mark (text : String)
  | numeral
  | bigint
  | string (value : String)
  -- a template up to its end or its first substitution; `valid` tells whether all escapes are
  | template (complete valid : Bool)
  | pattern
  | prose
  -- characters that make no token
  | broken
deriving DecidableEq, Repr, Inhabited

structure Lexeme where
  token : Token
  span : Text.Span
  afterBreak : Bool
  escaped : Bool
  sound : Bool
deriving Repr, Inhabited

def Token.isMark (token : Token) (text : String) : Bool :=
  match token with
  | .mark m => m == text
  | _ => false

def Token.isName (token : Token) (text : String) : Bool :=
  match token with
  | .name n => n == text
  | _ => false

def reservedWords : List String :=
  ["break", "case", "catch", "class", "const", "continue", "debugger", "default", "delete", "do",
   "else", "enum", "export", "extends", "finally", "for", "function", "if", "import", "in",
   "instanceof", "new", "return", "super", "switch", "this", "throw", "try", "typeof", "var",
   "void", "while", "with", "null", "true", "false"]

def isReserved (word : String) : Bool := reservedWords.contains word

def contextualWords : List String :=
  ["await", "yield", "let", "static", "async", "of", "get", "set", "as", "from", "accessor",
   "abstract", "any", "asserts", "assert", "bigint", "boolean", "declare", "defer", "global",
   "implements", "infer", "interface", "intrinsic", "is", "keyof", "meta", "module", "namespace",
   "never", "number", "object", "out", "override", "package", "private", "protected", "public",
   "readonly", "require", "satisfies", "source", "string", "symbol", "target", "type",
   "undefined", "unique", "unknown", "using", "constructor"]

def isKeyword (word : String) : Bool := isReserved word || contextualWords.contains word

end Treeshake.Ecma
