import ServerActions.Decimal.Binary64

namespace ServerActions.Binary64

/-- The numbers that round to `significand * 2 ^ exponent`, as the ends of an interval in units of
`2 ^ (exponent - 2)`; the ends belong to it if the significand is even. -/
structure Rounding where
  low : Nat
  middle : Nat
  high : Nat
  closed : Bool
  unit : Int

def rounding (significand : Nat) (exponent : Int) : Rounding where
  low := 4 * significand -
    if significand = significandBound / 2 && minExponent < exponent then 1 else 2
  middle := 4 * significand
  high := 4 * significand + 2
  closed := significand % 2 == 0
  unit := exponent - 2

def onGrid? (r : Rounding) (place : Int) : Option Nat :=
  let a := Nat.pow 10 place.toNat * Nat.pow 2 (-r.unit).toNat
  let b := Nat.pow 2 r.unit.toNat * Nat.pow 10 (-place).toNat
  let inside (digits : Nat) : Bool :=
    if r.closed then r.low * b ≤ digits * a && digits * a ≤ r.high * b
    else r.low * b < digits * a && digits * a < r.high * b
  let below := r.middle * b / a
  match below != 0 && inside below, inside (below + 1) with
  | false, false => none
  | true, false => some below
  | false, true => some (below + 1)
  | true, true =>
    if r.middle * b - below * a < (below + 1) * a - r.middle * b then some below
    else some (below + 1)

def places : List Int :=
  (List.range 640).map fun (i : Nat) => 310 - (i : Int)

def shortest (significand : Nat) (exponent : Int) : Nat × Int :=
  if significand = 0 then (0, 0)
  else
    let r := rounding significand exponent
    (places.findSome? fun place => (onGrid? r place).map (·, place)).getD (0, 0)

def positional (digits : Nat) (place : Int) : String :=
  let ds := Nat.toDigits 10 digits
  if 0 ≤ place then String.ofList (ds ++ List.replicate place.toNat '0' ++ ['.', '0'])
  else
    let n := (-place).toNat
    let ds := List.replicate (n + 1 - ds.length) '0' ++ ds
    String.ofList (ds.take (ds.length - n) ++ ['.'] ++ ds.drop (ds.length - n))

def sign (negative : Bool) : String :=
  if negative then "-" else ""

def toText : Binary64 → String
  | finite negative significand exponent =>
    let (digits, place) := shortest significand exponent
    sign negative ++ positional digits place
  | infinite negative => sign negative ++ "inf"
  | nan => "NaN"

end ServerActions.Binary64
