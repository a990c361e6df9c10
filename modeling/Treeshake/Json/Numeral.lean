import Treeshake.Json.Fault

namespace Treeshake.Json.Numeral

def wordLimit : Nat := 0x10000000000000000

def digitValue (c : Char) : Nat := c.toNat - '0'.toNat

-- Sixty-four bits hold the significant digits. Those that do not fit are left over.
def absorb (significand : Nat) : List Char → Nat × List Char
  | [] => (significand, [])
  | c :: rest =>
    let next := 10 * significand + digitValue c
    if next < wordLimit then absorb next rest else (significand, c :: rest)

def powerOfTen (n : Nat) : Float := Float.ofScientific 1 false n

-- Scales by steps of at most `10 ^ 308`. A result that leaves the range upwards is a fault.
def scale (x : Float) (exponent : Int) : Nat → Except Fault Float
  | 0 => .ok x
  | fuel + 1 =>
    if exponent.natAbs ≤ 308 then
      if exponent < 0 then .ok (x / powerOfTen exponent.natAbs)
      else
        let scaled := x * powerOfTen exponent.natAbs
        if scaled.isInf then .error .numberTooLarge else .ok scaled
    else if x == 0 then .ok x
    else if 0 ≤ exponent then .error .numberTooLarge
    else scale (x / powerOfTen 308) (exponent + 308) fuel

-- Two steps take any significand to zero, so five are enough.
def real (negative : Bool) (significand : Nat) (exponent : Int) : Except Fault Number := do
  let x ← scale significand.toUInt64.toFloat exponent 5
  return .real (if negative then -x else x).toBits

def whole (negative : Bool) (significand : Nat) : Number :=
  if !negative then .natural significand
  else if significand == 0 || 0x8000000000000000 < significand then
    .real (-significand.toUInt64.toFloat).toBits
  else .negative significand

def digits (text : List Char) : List Char := text.takeWhile Char.isDigit

def exponent (text : List Char) : Except Fault (Int × List Char) :=
  let (sign, rest) := match text with
    | '+' :: rest => ((1 : Int), rest)
    | '-' :: rest => (-1, rest)
    | rest => (1, rest)
  let ds := digits rest
  match rest with
  | [] => .error .endInValue
  | c :: _ =>
    if c.isDigit then
      .ok (sign * Int.ofNat (ds.foldl (fun n d => 10 * n + digitValue d) 0), rest.drop ds.length)
    else .error .badNumber

def isExponentMark (c : Char) : Bool := c == 'e' || c == 'E'

def finish (negative : Bool) (significand : Nat) (shift : Int) (text : List Char) :
    Except Fault (Number × List Char) := do
  match text with
  | c :: rest =>
    if isExponentMark c then
      let (e, rest) ← exponent rest
      return (← real negative significand (shift + e), rest)
    else return (← real negative significand shift, text)
  | [] => return (← real negative significand shift, [])

def fraction (negative : Bool) (significand : Nat) (shift : Int) (text : List Char) :
    Except Fault (Number × List Char) :=
  let ds := digits text
  let (significand', left) := absorb significand ds
  if ds.isEmpty then .error (if text.isEmpty then .endInValue else .badNumber)
  else finish negative significand' (shift - (ds.length - left.length : Nat)) (text.drop ds.length)

-- A number without its sign. Zero is never followed by another digit.
def read (negative : Bool) (text : List Char) : Except Fault (Number × List Char) :=
  let ds := digits text
  let (significand, left) := absorb 0 ds
  let rest := text.drop ds.length
  if text.isEmpty then .error .endInValue
  else if ds.isEmpty then .error .badNumber
  else if ds.head? == some '0' && ds.length != 1 then .error .badNumber
  else
    match rest with
    | '.' :: after => fraction negative significand left.length after
    | c :: _ =>
      if isExponentMark c || !left.isEmpty then finish negative significand left.length rest
      else .ok (whole negative significand, rest)
    | [] =>
      if left.isEmpty then .ok (whole negative significand, [])
      else finish negative significand left.length []

-- Checks a number without computing it, so that no size is too large.
def skip (text : List Char) : Except Fault (List Char) :=
  let exponentPart (text : List Char) : Except Fault (List Char) :=
    match text with
    | c :: rest =>
      if isExponentMark c then
        let rest := match rest with
          | '+' :: rest => rest
          | '-' :: rest => rest
          | rest => rest
        if (digits rest).isEmpty then .error .badNumber
        else .ok (rest.drop (digits rest).length)
      else .ok text
    | [] => .ok []
  let ds := digits text
  let rest := text.drop ds.length
  if ds.isEmpty then .error .badNumber
  else if ds.head? == some '0' && ds.length != 1 then .error .badNumber
  else
    match rest with
    | '.' :: after =>
      if (digits after).isEmpty then .error .badNumber
      else exponentPart (after.drop (digits after).length)
    | _ => exponentPart rest

end Treeshake.Json.Numeral
