import Treeshake.Unicode.CaseFold
import Treeshake.Unicode.Property
import Treeshake.Unicode.Script

namespace Treeshake

inductive Property where
  | any
  | ascii
  | assigned
  | word
  | decimal
  | blank
  | alphabetic
  | lowercase
  | uppercase
  | emoji
  | nameStart
  | namePart
  | category (members : List Unicode.Category)
  | script (short : String)
deriving DecidableEq, Repr

def Property.holds : Property → Char → Bool
  | .any, _ => true
  | .ascii, c => c.toNat < 0x80
  | .assigned, c => Unicode.Category.ofChar c != .unassigned
  | .word, c => Unicode.isWord c
  | .decimal, c => Unicode.isDecimal c
  | .blank, c => Unicode.isBlank c
  | .alphabetic, c => Unicode.isAlphabetic c
  | .lowercase, c => Unicode.isLowercase c
  | .uppercase, c => Unicode.isUppercase c
  | .emoji, c => Unicode.isEmoji c
  | .nameStart, c => Unicode.startsName c
  | .namePart, c => Unicode.continuesName c
  | .category members, c => members.contains (Unicode.Category.ofChar c)
  | .script short, c => Unicode.Script.all.any fun s => s.short == short && s.points.contains c

inductive CharSet where
  | only (c : Char)
  | range (low high : Char)
  | property (p : Property)
  | none
  | union (a b : CharSet)
  | inter (a b : CharSet)
  | diff (a b : CharSet)
  | either (a b : CharSet)
  | complement (a : CharSet)
  -- with every character also its variants of other case
  | anyCase (a : CharSet)
  | anyAsciiCase (a : CharSet)
deriving DecidableEq, Repr

def CharSet.has : CharSet → Char → Bool
  | .only x, c => c == x
  | .range low high, c => low ≤ c && c ≤ high
  | .property p, c => p.holds c
  | .none, _ => false
  | .union a b, c => a.has c || b.has c
  | .inter a b, c => a.has c && b.has c
  | .diff a b, c => a.has c && !b.has c
  | .either a b, c => a.has c != b.has c
  | .complement a, c => !a.has c
  | .anyCase a, c => (Unicode.caseVariants c).any a.has
  | .anyAsciiCase a, c => a.has c || a.has c.toLower || a.has c.toUpper

end Treeshake
