import Splice.Decimal.Shortest

/-!
# Numbers as text

Whole numbers are written with all their digits, other numbers with the fewest digits that read
back.  There is never an exponent, and a negative zero keeps its sign.
-/

namespace Splice.Decimal

def whole? (m : Nat) (e : Int) : Option Nat :=
  if 0 ≤ e then some (m * two e)
  else if m % two (-e) = 0 then some (m / two (-e))
  else none

def integer? (x : Float) : Option Int :=
  match x.toModel.unpack with
  | .zero _ => some 0
  | .finite .positive m e _ => (whole? m e).map (↑·)
  | .finite .negative m e _ => (whole? m e).map fun n => -(n : Int)
  | _ => none

def numeral (n : Nat) : List Char :=
  Nat.toDigits 10 n

def Scaled.text (d : Scaled) : List Char :=
  if 0 ≤ d.power then
    numeral d.digits ++ List.replicate d.power.toNat '0'
  else
    let places := (-d.power).toNat
    let ds := numeral d.digits
    let padded := List.replicate (places + 1 - ds.length) '0' ++ ds
    padded.take (padded.length - places) ++ '.' :: padded.drop (padded.length - places)

def magnitudeText (m : Nat) (e : Int) : List Char :=
  match whole? m e with
  | some n => numeral n
  | none => (shortest m e).text

def signed : Float.Model.UnpackedFloat.Sign → List Char → List Char
  | .positive, cs => cs
  | .negative, cs => '-' :: cs

def text (x : Float) : String :=
  String.ofList <| match x.toModel.unpack with
    | .notANumber => ['N', 'a', 'N']
    | .infinity s => signed s ['i', 'n', 'f']
    | .zero s => signed s ['0']
    | .finite s m e _ => signed s (magnitudeText m e)

end Splice.Decimal
