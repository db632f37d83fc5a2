/-!
# Reading numbers

A number is an optional sign and either the word `inf`, `infinity` or `nan` in any case, or digits
with an optional point among them and an optional exponent.  The value is rounded to the nearest
number, and an overflow is infinite.
-/

namespace Splice.Decimal

def digitsValue (cs : List Char) : Nat :=
  cs.foldl (fun n c => 10 * n + (c.toNat - '0'.toNat)) 0

/-- An optional sign; `true` is negative. -/
def takeSign : List Char → Bool × List Char
  | '+' :: cs => (false, cs)
  | '-' :: cs => (true, cs)
  | cs => (false, cs)

def readExponent? : List Char → Option Int
  | [] => some 0
  | c :: cs =>
    let (negative, ds) := takeSign cs
    if (c = 'e' ∨ c = 'E') ∧ ds ≠ [] ∧ ds.all Char.isDigit then
      some (if negative then Int.negOfNat (digitsValue ds) else digitsValue ds)
    else none

def readUnsigned? (cs : List Char) : Option Float :=
  let whole := cs.takeWhile Char.isDigit
  let rest := cs.dropWhile Char.isDigit
  let (fraction, rest) := match rest with
    | '.' :: rest => (rest.takeWhile Char.isDigit, rest.dropWhile Char.isDigit)
    | rest => ([], rest)
  if whole.isEmpty && fraction.isEmpty then none
  else
    (readExponent? rest).map fun (e : Int) =>
      let power : Int := e - fraction.length
      Float.ofScientific (digitsValue (whole ++ fraction)) (power < 0) power.natAbs

def infinity : Float := Float.ofBits 0x7ff0000000000000

def notANumber : Float := Float.ofBits 0x7ff8000000000000

def readMagnitude? (cs : List Char) : Option Float :=
  let word := String.ofList (cs.map Char.toLower)
  if word = "inf" ∨ word = "infinity" then some infinity
  else if word = "nan" then some notANumber
  else readUnsigned? cs

def read? (s : String) : Option Float :=
  let (negative, cs) := takeSign s.toList
  (readMagnitude? cs).map fun x => if negative then -x else x

end Splice.Decimal
