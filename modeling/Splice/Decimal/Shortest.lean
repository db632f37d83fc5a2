/-!
# Fewest digits

A binary number `m * 2 ^ e` stands for every real that rounds to it.  `shortest` takes the coarsest
decimal grid that has a point among these reals, and of two such points the nearer one; of two
equally near points it takes the greater.
-/

namespace Splice.Decimal

def two (power : Int) : Nat :=
  Nat.pow 2 power.toNat

def ten (power : Int) : Nat :=
  Nat.pow 10 power.toNat

structure Scaled where
  digits : Nat
  power : Int
  deriving DecidableEq, Repr

/-- The reals that round to one binary number: fractions with a common denominator.  The ends
belong to the interval when the significand is even. -/
structure Interval where
  low : Nat
  value : Nat
  high : Nat
  denominator : Nat
  closed : Bool
  deriving DecidableEq, Repr

namespace Interval

/-- The interval of `m * 2 ^ e`, in quarters of the last place.  Below a power of two the
neighbour is only half as far away, unless the exponent is already the least one. -/
def ofBinary (m : Nat) (e : Int) : Interval :=
  let scale := two (e - 2)
  let below := if m = two 52 ∧ -1074 < e then 1 else 2
  { low := (4 * m - below) * scale
    value := 4 * m * scale
    high := (4 * m + 2) * scale
    denominator := two (2 - e)
    closed := m % 2 == 0 }

def contains (i : Interval) (n : Nat) (power : Int) : Bool :=
  let point := n * ten power * i.denominator
  let scale := ten (-power)
  if i.closed then i.low * scale ≤ point && point ≤ i.high * scale
  else i.low * scale < point && point < i.high * scale

/-- The number of digits before the decimal point, or minus the number of zeros after it. -/
def magnitude (i : Interval) : Int :=
  let whole := i.value / i.denominator
  if whole = 0 then
    let reaches := fun (k : Nat) => i.denominator ≤ i.value * ten (k + 1)
    Int.negOfNat (((List.range 400).find? fun k => reaches k).getD 0)
  else
    (Nat.toDigits 10 whole).length

def floor (i : Interval) (power : Int) : Nat :=
  i.value * ten (-power) / (i.denominator * ten power)

def nearer (i : Interval) (n : Nat) (power : Int) : Bool :=
  2 * (i.value * ten (-power)) < (2 * n + 1) * (i.denominator * ten power)

def pick? (i : Interval) (power : Int) : Option Scaled :=
  let n := i.floor power
  match i.contains n power, i.contains (n + 1) power with
  | true, true => some ⟨if i.nearer n power then n else n + 1, power⟩
  | true, false => some ⟨n, power⟩
  | false, true => some ⟨n + 1, power⟩
  | false, false => none

end Interval

/-- The decimal with the fewest digits that reads back as `m * 2 ^ e`.  The first grid is so coarse
that only a power of ten can hit, and seventeen digits always suffice. -/
def shortest (m : Nat) (e : Int) : Scaled :=
  let i := Interval.ofBinary m e
  let places := i.magnitude
  ((List.range 18).findSome? fun (k : Nat) => i.pick? (places - k)).getD
    ⟨i.floor (places - 17), places - 17⟩

end Splice.Decimal
