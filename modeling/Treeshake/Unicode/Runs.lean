import Treeshake.Text.Digit

namespace Treeshake.Unicode

def words (text : String) : List (List Char) :=
  let step (state : List (List Char) × List Char) (c : Char) :=
    if c == ' ' || c == '\n' then
      if state.2.isEmpty then state else (state.2.reverse :: state.1, [])
    else (state.1, c :: state.2)
  let (done, last) := text.toList.foldl step ([], [])
  (if last.isEmpty then done else last.reverse :: done).reverse

-- A set of code points. A point belongs to it when an odd number of bounds is at or below it.
structure Runs where
  bounds : Array Nat
deriving Inhabited

namespace Runs

def sums : Nat → List Nat → List Nat
  | _, [] => []
  | total, step :: rest => (total + step) :: sums (total + step) rest

def ofText (text : String) : Runs :=
  ⟨(sums 0 ((words text).map Text.hexValue)).toArray⟩

def count (bounds : Array Nat) (code : Nat) : Nat → Nat → Nat → Nat
  | 0, low, _ => low
  | fuel + 1, low, high =>
    if high ≤ low then low
    else
      let middle := (low + high) / 2
      if bounds.getD middle 0 ≤ code then count bounds code fuel (middle + 1) high
      else count bounds code fuel low middle

def contains (runs : Runs) (c : Char) : Bool :=
  count runs.bounds c.toNat (runs.bounds.size.log2 + 2) 0 runs.bounds.size % 2 == 1

end Runs

end Treeshake.Unicode
