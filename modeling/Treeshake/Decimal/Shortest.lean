namespace Treeshake.Decimal

-- The number `mantissa · 2 ^ exponent`, whose neighbours above and below lie one unit away,
-- or half a unit below when the binary exponent drops there.
structure Binary where
  mantissa : Nat
  exponent : Int
  narrowBelow : Bool
deriving Repr

structure Scientific where
  digits : Nat
  exponent : Int
deriving DecidableEq, Repr

def twoTo (n : Nat) : Nat := Nat.pow 2 n

def tenTo (n : Nat) : Nat := Nat.pow 10 n

def Binary.ofBits (bits : Nat) : Binary :=
  let fraction : Nat := bits % twoTo 52
  let biased : Nat := bits / twoTo 52 % twoTo 11
  if biased == 0 then ⟨fraction, -1074, false⟩
  else ⟨fraction + twoTo 52, Int.ofNat biased - 1075, fraction == 0 && biased != 1⟩

-- The reals that round to a binary number, as quarters of its unit: between `low` and `high`
-- times `2 ^ exponent`, the ends included exactly when the mantissa is even.
structure Interval where
  low : Nat
  middle : Nat
  high : Nat
  exponent : Int
  closed : Bool

def Binary.interval (b : Binary) : Interval :=
  ⟨4 * b.mantissa - (if b.narrowBelow then 1 else 2), 4 * b.mantissa, 4 * b.mantissa + 2,
    b.exponent - 2, b.mantissa % 2 == 0⟩

-- Both sides of a comparison of `x · 2 ^ e` with `d · 10 ^ k`, as natural numbers.
def scaled (x : Nat) (e : Int) (d : Nat) (k : Int) : Nat × Nat :=
  (x * twoTo e.toNat * tenTo (-k).toNat, d * tenTo k.toNat * twoTo (-e).toNat)

def Interval.holds (i : Interval) (s : Scientific) : Bool :=
  let (low, value) := scaled i.low i.exponent s.digits s.exponent
  let (high, _) := scaled i.high i.exponent s.digits s.exponent
  if i.closed then low ≤ value && value ≤ high else low < value && value < high

-- Of two decimals on one grid that enclose the middle, the nearer; the even one on a tie.
def Interval.nearer (i : Interval) (below above : Scientific) : Scientific :=
  let (middle, first) := scaled i.middle i.exponent below.digits below.exponent
  let (_, second) := scaled i.middle i.exponent above.digits above.exponent
  if middle - first < second - middle then below
  else if second - middle < middle - first then above
  else if below.digits % 2 == 0 then below else above

def Interval.onGrid? (i : Interval) (k : Int) : Option Scientific :=
  let floor := (i.middle * twoTo i.exponent.toNat * tenTo (-k).toNat) /
    (tenTo k.toNat * twoTo (-i.exponent).toNat)
  let below : Scientific := ⟨floor, k⟩
  let above : Scientific := ⟨floor + 1, k⟩
  match i.holds below && floor != 0, i.holds above with
  | true, true => some (i.nearer below above)
  | true, false => some below
  | false, true => some above
  | false, false => none

def Interval.search (i : Interval) (start : Int) : Nat → Scientific
  | 0 => ⟨0, 0⟩
  | steps + 1 =>
    match i.onGrid? start with
    | some found => found
    | none => i.search (start - 1) steps

def Scientific.trim (s : Scientific) : Nat → Scientific
  | 0 => s
  | steps + 1 =>
    if s.digits % 10 == 0 && s.digits != 0 then
      Scientific.trim ⟨s.digits / 10, s.exponent + 1⟩ steps
    else s

-- No double exceeds `10 ^ 309`, and the grid of the smallest is `10 ^ (-324)`.
def shortest (b : Binary) : Scientific :=
  if b.mantissa == 0 then ⟨0, 0⟩
  else (b.interval.search 309 700).trim 400

-- Plain notation for numbers from `10 ^ -5` up to `10 ^ 16`, with at least one digit after
-- the point; an exponent with its sign outside.
def Scientific.render (s : Scientific) : String :=
  let digits := Nat.toDigits 10 s.digits
  let count := digits.length
  let lead : Int := s.exponent + count - 1
  if s.digits == 0 then "0.0"
  else if 0 ≤ s.exponent && lead < 16 then
    String.ofList (digits ++ List.replicate s.exponent.toNat '0') ++ ".0"
  else if 0 ≤ lead && lead < 16 then
    String.ofList (digits.take (lead.toNat + 1) ++ '.' :: digits.drop (lead.toNat + 1))
  else if -5 ≤ lead && lead < 0 then
    String.ofList ('0' :: '.' :: List.replicate (-lead - 1).toNat '0' ++ digits)
  else
    let tail := digits.drop 1
    let point := if tail.isEmpty then [] else '.' :: tail
    let sign := if lead < 0 then '-' else '+'
    String.ofList (digits.take 1 ++ point ++ 'e' :: sign :: Nat.toDigits 10 lead.natAbs)

def render (x : Float) : String :=
  let bits := x.toBits.toNat
  let sign := if bits / twoTo 63 == 1 then "-" else ""
  sign ++ (shortest (Binary.ofBits (bits % twoTo 63))).render

end Treeshake.Decimal
