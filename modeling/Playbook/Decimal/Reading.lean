import Playbook.Json.Basic
import Playbook.Text

/-!
# Playbook — reading numbers

A number without fraction and exponent that fits a 64-bit word is an integer;
every other number is a double. A double is read in two roundings: the digits
are collected into a 64-bit significand, further digits only move the decimal
point, and the significand is then scaled by one power of ten. A magnitude
beyond the largest double is refused, one below the smallest becomes zero.
-/

namespace Playbook.Decimal

/-- Digits collected so far: what fits 64 bits, and how many were
kept and dropped. -/
structure Significand where
  value : Nat
  kept : Nat
  dropped : Nat
deriving DecidableEq, Inhabited, Repr

/-- Takes one more digit, unless an earlier one was dropped or this
one would overflow. -/
def Significand.push (s : Significand) (digit : Char) : Significand :=
  let next := s.value * 10 + (digit.toNat - '0'.toNat)
  if s.dropped = 0 ∧ next < 0x10000000000000000 then ⟨next, s.kept + 1, 0⟩
    else { s with dropped := s.dropped + 1 }

/-- The digits at the start of a text, and what follows them. -/
def spanDigits (cs : List Char) : List Char × List Char :=
  (cs.takeWhile Char.isDigit, cs.dropWhile Char.isDigit)

/-- `10 ^ n` rounded to the nearest double, for `n` up to 308. -/
def powerOfTen (n : Nat) : Float := Float.ofScientific 1 false n

/-- Divides by powers of ten until the exponent is used up or nothing is left. -/
def scaleDown : (rounds : Nat) → Float → Nat → Float
  | 0, _, _ => 0
  | rounds + 1, f, n => if n ≤ 308 then f / powerOfTen n
    else scaleDown rounds (f / powerOfTen 308) (n - 308)

/-- `significand * 10 ^ exponent` as a double; nothing when it is
too large for one. -/
def scale? (significand : Nat) (exponent : Int) : Option Float :=
  let f := Float.ofNat significand
  match exponent with
  | .ofNat n =>
    if significand = 0 then some f
    else if n ≤ 308 then
      let scaled := f * powerOfTen n
      if scaled.isInf then none else some scaled
    else none
  | .negSucc n => some (scaleDown 4 f (n + 1))

/-- The exponent part `e±digits`, and what follows it. Without an `e` the
exponent is zero. -/
def spanExponent (cs : List Char) : Option (Int × List Char) :=
  match cs with
  | c :: rest =>
    if c = 'e' ∨ c = 'E' then
      let (negative, rest) := match rest with
        | '+' :: more => (false, more)
        | '-' :: more => (true, more)
        | more => (false, more)
      let (digits, rest) := spanDigits rest
      if digits.isEmpty then none
      else
        let n := digits.foldl (fun n c => n * 10 + (c.toNat - '0'.toNat)) 0
        some (if negative then -(n : Int) else n, rest)
    else some (0, cs)
  | [] => some (0, [])

/-- The number at the start of a text, and what follows it. -/
def readNumber (cs : List Char) : Option (Number × List Char) := do
  let (negative, cs) := match cs with
    | '-' :: rest => (true, rest)
    | cs => (false, cs)
  let (whole, rest) := spanDigits cs
  guard !(whole.isEmpty || (whole.length > 1 && whole.head? == some '0'))
  let s := whole.foldl Significand.push ⟨0, 0, 0⟩
  let signed (f : Float) : Number := .real (.ofFloat (if negative then -f else f))
  match rest with
  | '.' :: more =>
    let (fraction, rest) := spanDigits more
    guard !fraction.isEmpty
    -- the fraction is collected as long as it fits, even if digits before the
    -- point were dropped
    let t := fraction.foldl Significand.push ⟨s.value, 0, 0⟩
    let (e, rest) ← spanExponent rest
    let f ← scale? t.value ((s.dropped : Int) - t.kept + e)
    return (signed f, rest)
  | rest =>
    let (e, after) ← spanExponent rest
    if after.length = rest.length ∧ s.dropped = 0 then
      -- minus zero and what is below the smallest word are doubles
      if !negative then return (.integer s.value, rest)
      else if s.value = 0 ∨ s.value > 0x8000000000000000 then
        return (signed (Float.ofNat s.value), rest)
      else return (.integer (-(s.value : Int)), rest)
    else
      let f ← scale? s.value ((s.dropped : Int) + e)
      return (signed f, after)

end Playbook.Decimal
