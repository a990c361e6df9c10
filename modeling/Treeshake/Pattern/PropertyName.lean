import Treeshake.Pattern.CharSet

namespace Treeshake.Property

open Unicode (Category)

-- Case, blanks, hyphens and underscores in a name do not matter, nor does "is" before it.
def loose (name : List Char) : List Char :=
  let name := (name.filter fun c => c != ' ' && c != '-' && c != '_' && c.toNat < 0x80).map Char.toLower
  match name with
  | 'i' :: 's' :: rest => if rest == ['c'] || rest.isEmpty then name else rest
  | _ => name

def categoryLongName : Category → String
  | .uppercaseLetter => "uppercaseletter"
  | .lowercaseLetter => "lowercaseletter"
  | .titlecaseLetter => "titlecaseletter"
  | .modifierLetter => "modifierletter"
  | .otherLetter => "otherletter"
  | .nonspacingMark => "nonspacingmark"
  | .spacingMark => "spacingmark"
  | .enclosingMark => "enclosingmark"
  | .decimalNumber => "decimalnumber"
  | .letterNumber => "letternumber"
  | .otherNumber => "othernumber"
  | .connectorPunctuation => "connectorpunctuation"
  | .dashPunctuation => "dashpunctuation"
  | .openPunctuation => "openpunctuation"
  | .closePunctuation => "closepunctuation"
  | .initialPunctuation => "initialpunctuation"
  | .finalPunctuation => "finalpunctuation"
  | .otherPunctuation => "otherpunctuation"
  | .mathSymbol => "mathsymbol"
  | .currencySymbol => "currencysymbol"
  | .modifierSymbol => "modifiersymbol"
  | .otherSymbol => "othersymbol"
  | .spaceSeparator => "spaceseparator"
  | .lineSeparator => "lineseparator"
  | .paragraphSeparator => "paragraphseparator"
  | .control => "control"
  | .format => "format"
  | .surrogate => "surrogate"
  | .privateUse => "privateuse"
  | .unassigned => "unassigned"

def categoryGroups : List (List String × (Category → Bool)) :=
  [(["l", "letter"], Category.isLetter),
   (["lc", "casedletter"], Category.isCasedLetter),
   (["m", "mark", "combiningmark"], Category.isMark),
   (["n", "number"], Category.isNumber),
   (["p", "punct", "punctuation"], Category.isPunctuation),
   (["s", "symbol"], Category.isSymbol),
   (["z", "separator"], Category.isSeparator),
   (["c", "other"], Category.isOther),
   (["digit"], (· == .decimalNumber)),
   (["cntrl"], (· == .control))]

def category? (name : List Char) : Option Property :=
  let name := String.ofList (loose name)
  if name == "any" then some .any
  else if name == "ascii" then some .ascii
  else if name == "assigned" then some .assigned
  else
    match categoryGroups.find? fun (names, _) => names.contains name with
    | some (_, test) => some (.category (Category.all.filter test))
    | none =>
      (Category.all.find? fun c =>
        String.ofList (c.code.toList.map Char.toLower) == name || categoryLongName c == name).map
        fun c => .category [c]

def script? (name : List Char) : Option Property :=
  let name := loose name
  (Unicode.Script.table.find? fun (short, long, _) =>
    loose short.toList == name || loose long.toList == name).map fun (short, _, _) => .script short

def binaryNames : List (List String × Property) :=
  [(["alphabetic", "alpha"], .alphabetic),
   (["lowercase", "lower"], .lowercase),
   (["uppercase", "upper"], .uppercase),
   (["whitespace", "wspace", "space"], .blank),
   (["emoji"], .emoji),
   (["idstart", "ids", "xidstart", "xids"], .nameStart),
   (["idcontinue", "idc", "xidcontinue", "xidc"], .namePart)]

def binary? (name : List Char) : Option Property :=
  (binaryNames.find? fun (names, _) => names.contains (String.ofList (loose name))).map (·.2)

def named? (name : List Char) : Option Property :=
  binary? name <|> category? name <|> script? name

def valued? (kind value : List Char) : Option Property :=
  let kind := String.ofList (loose kind)
  if kind == "generalcategory" || kind == "gc" then category? value
  else if ["script", "sc", "scriptextensions", "scx"].contains kind then script? value
  else none

end Treeshake.Property
