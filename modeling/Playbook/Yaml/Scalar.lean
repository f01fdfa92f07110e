import Playbook.Json.Draft

/-!
# Playbook — unquoted scalars

In a block document the text `5` is a number where any data may stand and the
text "5" where a text is asked for. This module says which kind an unquoted
scalar has when nothing is asked for: null, a truth value, an integer (also in
base 16, 8 or 2), a double, and text otherwise.

A decimal integer with a leading zero is text. An integer beyond 64 bits has no
value; one beyond 128 bits is read as a double.
-/

namespace Playbook.Yaml

/-- The four spellings of null; an absent scalar is null too. -/
def isNullWord (s : String) : Bool := s ∈ ["", "null", "Null", "NULL", "~"]

/-- The truth value that a scalar spells. -/
def bool? (s : String) : Option Bool :=
  if s ∈ ["true", "True", "TRUE"] then some true
  else if s ∈ ["false", "False", "FALSE"] then some false
  else none

/-- The number whose digits in a base are given. -/
def natInBase? (base : Nat) (cs : List Char) : Option Nat :=
  if cs.isEmpty then none
  else cs.foldlM (fun n c => do
    let d ← Draft.hexValue? c
    if d < base then some (n * base + d) else none) 0

/-- Digits with a needless leading zero: text rather than a number. -/
def isPaddedDigits (cs : List Char) : Bool :=
  let cs := match cs with
    | '-' :: rest | '+' :: rest => rest
    | cs => cs
  cs.length > 1 && cs.head? == some '0' && cs.all Char.isDigit

/-- An unsigned integer in one of the four bases. -/
def magnitude? (padded : Bool) (cs : List Char) : Option Nat :=
  match cs with
  | '0' :: 'x' :: rest => natInBase? 16 rest
  | '0' :: 'o' :: rest => natInBase? 8 rest
  | '0' :: 'b' :: rest => natInBase? 2 rest
  | cs => if padded then none else natInBase? 10 cs

/-- The integer that a scalar spells. -/
def int? (cs : List Char) : Option Int :=
  let padded := isPaddedDigits cs
  match cs with
  | '-' :: rest => (magnitude? padded rest).map fun n => -(n : Int)
  | '+' :: rest => (magnitude? padded rest).map Int.ofNat
  | cs => (magnitude? padded cs).map Int.ofNat

/-- A decimal with digits on at least one side of the point, and an
optional exponent. -/
def decimal? (cs : List Char) : Option Float := do
  let (negative, cs) := match cs with
    | '-' :: rest => (true, rest)
    | '+' :: rest => (false, rest)
    | cs => (false, cs)
  let (whole, rest) := Decimal.spanDigits cs
  let (fraction, rest) := match rest with
    | '.' :: more => Decimal.spanDigits more
    | rest => ([], rest)
  guard !(whole.isEmpty && fraction.isEmpty)
  let (e, rest) ← Decimal.spanExponent rest
  guard rest.isEmpty
  let digits := (whole ++ fraction).foldl (fun n c =>
      n * 10 + (c.toNat - '0'.toNat)) 0
  let exponent := e - fraction.length
  let f := Float.ofScientific digits (exponent < 0) exponent.natAbs
  return if negative then -f else f

/-- The double that a scalar spells; an infinite or undefined one is null. -/
def real? (s : String) : Option Draft :=
  if s ∈ [".inf", ".Inf", ".INF", "+.inf", "+.Inf", "+.INF", "-.inf",
    "-.Inf", "-.INF",
      ".nan", ".NaN", ".NAN"] then some .null
  else (decimal? s.toList).bind fun f =>
    if f.isInf then none else some (.num (.real (.ofFloat f)))

/-- The kind and value of an unquoted scalar. -/
def scalar (s : String) : Draft :=
  if isNullWord s then .null
  else match bool? s with
    | some b => .bool b
    | none =>
      let other : Draft := if isPaddedDigits s.toList then .str s
          else (real? s).getD (.str s)
      match int? s.toList with
      | some n =>
        if -0x8000000000000000 ≤ n ∧ n < 0x10000000000000000 then .num (.integer n)
        else if -0x80000000000000000000000000000000 ≤ n ∧
            n < 0x100000000000000000000000000000000 then
          .broken
        else other
      | none => other

end Playbook.Yaml
