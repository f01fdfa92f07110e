/-!
# Playbook — double-precision numbers

A number with a fraction or an exponent is a 64-bit binary floating-point
number. It is kept as its bit pattern, so that two values are equal exactly when
they are the same number with the same sign of zero; `same` is numeric equality,
under which the two zeros are one.

`Arithmetic` names the operations that the figure of merit needs, so that
statements about it can be made for any choice of them.
-/

namespace Playbook

/-- A 64-bit binary floating-point number, given by its bit pattern. -/
structure Double where
  bits : UInt64
deriving DecidableEq, Inhabited, Repr

namespace Double

def ofFloat (x : Float) : Double := ⟨x.toBits⟩

def toFloat (x : Double) : Float := Float.ofBits x.bits

/-- The sign bit. -/
def isNegative (x : Double) : Bool := x.bits.toNat / 0x8000000000000000 == 1

/-- The eleven exponent bits. -/
def exponentField (x : Double) : Nat := x.bits.toNat / 0x10000000000000 % 0x800

/-- The fifty-two fraction bits. -/
def fractionField (x : Double) : Nat := x.bits.toNat % 0x10000000000000

/-- Neither infinite nor undefined. -/
def isFinite (x : Double) : Bool := x.exponentField != 2047

/-- The significand `m` of a finite number whose magnitude is `m * 2 ^ scale`. -/
def significand (x : Double) : Nat :=
  if x.exponentField == 0 then x.fractionField
    else 0x10000000000000 + x.fractionField

/-- The power of two that the significand is scaled by. -/
def scale (x : Double) : Int := if x.exponentField == 0 then -1074
    else (x.exponentField : Int) - 1075

/-- The nearest double to an integer; a half goes to the even neighbour. -/
def ofInt (n : Int) : Double :=
  match n with
  | .ofNat k => ofFloat (Float.ofNat k)
  | .negSucc k => ofFloat (-(Float.ofNat (k + 1)))

def zero : Double := ⟨0⟩

/-- Numeric equality: the two zeros are equal. -/
def same (x y : Double) : Bool := x.toFloat == y.toFloat

end Double

/-- The operations on numbers that a sum of squares is made of. -/
structure Arithmetic where
  ofInt : Int → Double
  add : Double → Double → Double
  mul : Double → Double → Double
  /-- The start of a sum. -/
  start : Double
  /-- The value of an absent summand. -/
  zero : Double

/-- The arithmetic of 64-bit binary floating point, rounding to nearest. A sum
starts from negative zero, the neutral element of its addition. -/
def Arithmetic.binary64 : Arithmetic where
  ofInt := Double.ofInt
  add x y := .ofFloat (x.toFloat + y.toFloat)
  mul x y := .ofFloat (x.toFloat * y.toFloat)
  start := ⟨0x8000000000000000⟩
  zero := Double.zero

end Playbook
