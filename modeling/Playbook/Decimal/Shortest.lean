import Playbook.Decimal.Double

/-!
# Playbook — the shortest decimal of a double

A number is written with the fewest significant digits that read back as the
same double, and among those with the digits nearest to it. The reals that round
to a finite double form an interval around it, whose ends belong to it exactly
when the significand is even. For 1, 2, … 17 digits the two neighbours of the
value on that decimal grid are tested in exact integer arithmetic: if any point
of a grid lies in the interval, then so does one of the two neighbours, so the
first grid with a hit has the fewest digits.

`DecimalStyle` holds what the digits leave open: where positional notation ends
and how exponents look.
-/

namespace Playbook

/-- The decimal number `digits * 10 ^ exponent`. -/
structure Decimal where
  digits : Nat
  exponent : Int
deriving DecidableEq, Inhabited, Repr

namespace Decimal

/-- A positive rational number as a quotient of naturals. -/
structure Ratio where
  num : Nat
  den : Nat
deriving DecidableEq, Inhabited, Repr

/-- `k * 2 ^ e`. -/
def Ratio.scaled (k : Nat) (e : Int) : Ratio :=
  match e with
  | .ofNat n => ⟨k * Nat.pow 2 n, 1⟩
  | .negSucc n => ⟨k, Nat.pow 2 (n + 1)⟩

/-- The decimal number as a quotient of naturals. -/
def toRatio (d : Decimal) : Ratio :=
  match d.exponent with
  | .ofNat n => ⟨d.digits * Nat.pow 10 n, 1⟩
  | .negSucc n => ⟨d.digits, Nat.pow 10 (n + 1)⟩

def Ratio.lt (a b : Ratio) : Bool := a.num * b.den < b.num * a.den

def Ratio.le (a b : Ratio) : Bool := a.num * b.den ≤ b.num * a.den

/-- The reals that round to a double: between `low` and `high`, with the
ends if `closed`. -/
structure Interval where
  low : Ratio
  value : Ratio
  high : Ratio
  closed : Bool

/-- The rounding interval of a positive finite double. Below a power of two the
gap is half as wide. -/
def Interval.of (x : Double) : Interval :=
  let m := x.significand
  -- quarters of a unit in the last place, so that half a unit is a
  -- whole number of them
  let gap := if x.fractionField == 0 && x.exponentField > 1 then 1 else 2
  let e := x.scale - 2
  ⟨.scaled (4 * m - gap) e, .scaled (4 * m) e, .scaled (4 * m + 2) e, m % 2 == 0⟩

/-- Whether a decimal number lies in the interval. -/
def Interval.holds (i : Interval) (d : Decimal) : Bool :=
  let r := d.toRatio
  if i.closed then i.low.le r && r.le i.high else i.low.lt r && r.lt i.high

/-- The number of decimal digits. -/
def digitCount (n : Nat) : Nat := (Nat.toDigits 10 n).length

/-- The exponent `p` with `10 ^ p ≤ r < 10 ^ (p + 1)`. -/
def Ratio.magnitude (r : Ratio) : Int :=
  let p : Int := (digitCount r.num : Int) - digitCount r.den
  if (Decimal.toRatio ⟨1, p⟩).le r then p else p - 1

/-- The largest decimal with the given exponent that is not above `r`. -/
def Ratio.floorAt (r : Ratio) (exponent : Int) : Decimal :=
  match exponent with
  | .ofNat n => ⟨r.num / (r.den * Nat.pow 10 n), exponent⟩
  | .negSucc n => ⟨r.num * Nat.pow 10 (n + 1) / r.den, exponent⟩

/-- Whether `r` is nearer to the lower of two neighbouring decimals; a tie goes
to the even one. -/
def nearerBelow (r : Ratio) (below above : Decimal) : Bool :=
  let a := below.toRatio
  let b := above.toRatio
  -- compares `r - a` with `b - r` over the common denominator
  let twice := 2 * r.num * a.den * b.den
  let sum := (a.num * b.den + b.num * a.den) * r.den
  twice < sum || (twice == sum && below.digits % 2 == 0)

/-- The neighbour of the value on the grid of `10 ^ exponent` that lies in the
interval, if one does. -/
def Interval.onGrid (i : Interval) (exponent : Int) : Option Decimal :=
  let below := i.value.floorAt exponent
  let above : Decimal := ⟨below.digits + 1, exponent⟩
  -- zero is no text of a positive number, however near it lies
  match below.digits != 0 && i.holds below, i.holds above with
  | true, true => some (if nearerBelow i.value below above then below else above)
  | true, false => some below
  | false, true => some above
  | false, false => none

/-- Drops trailing zeros into the exponent. -/
def trimZeros : (fuel : Nat) → Decimal → Decimal
  | 0, d => d
  | fuel + 1, d =>
    if d.digits != 0 && d.digits % 10 == 0 then trimZeros fuel
      ⟨d.digits / 10, d.exponent + 1⟩ else d

/-- The shortest decimal that reads back as a positive finite double. -/
def shortest (x : Double) : Decimal :=
  let i := Interval.of x
  let p := i.value.magnitude
  -- coarse grids first: `p - n` leaves `n + 1` digits
  let found := (List.range 17).findSome? fun (n : Nat) => i.onGrid (p - n)
  trimZeros 20 (found.getD (i.value.floorAt (p - 16)))

end Decimal

/-- How a decimal number is laid out. -/
structure DecimalStyle where
  /-- Positional notation is used while the decimal point stands after at most
  this many digits … -/
  pointMax : Int
  /-- … and before more than this many (counted negatively for leading zeros). -/
  pointMin : Int
  /-- Written after a positional number without a fraction. -/
  wholeEnding : String
  /-- Between significand and exponent. -/
  exponentMark : String
  /-- Before a positive exponent. -/
  plus : String

namespace DecimalStyle

/-- The digits with a point after the first `point` of them. -/
def positional (style : DecimalStyle) (digits : List Char)
    (point : Int) : List Char :=
  if point ≤ 0 then ['0', '.'] ++ List.replicate point.natAbs '0' ++ digits
  else if (digits.length : Int) ≤ point then
    digits ++ List.replicate (point.natAbs - digits.length) '0' ++
    style.wholeEnding.toList
  else digits.take point.natAbs ++ '.' :: digits.drop point.natAbs

/-- One digit, the other digits after a point, then the exponent. -/
def scientific (style : DecimalStyle) (digits : List Char)
    (point : Int) : List Char :=
  let e := point - 1
  let sign := if e < 0 then "-" else style.plus
  let head := match digits with
    | [] => []
    | [d] => [d]
    | d :: more => d :: '.' :: more
  head ++ style.exponentMark.toList ++ sign.toList ++ Nat.toDigits 10 e.natAbs

/-- The text of a decimal number. -/
def render (style : DecimalStyle) (d : Decimal) : List Char :=
  let digits := Nat.toDigits 10 d.digits
  let point := (digits.length : Int) + d.exponent
  if style.pointMin < point ∧ point ≤ style.pointMax then
    style.positional digits point
  else style.scientific digits point

end DecimalStyle

end Playbook
