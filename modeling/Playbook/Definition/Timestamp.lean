import Playbook.Text

/-!
# Playbook — timestamps

A saved state carries the instant of saving: seconds since the beginning of 1970
in universal time, and nanoseconds. It is written as date and time with a final
`Z`; the fraction has three, six or nine digits, as few as show it, and is left
out when it is zero. Reading takes any offset from universal time.

Dates are counted in days with the proleptic Gregorian calendar, in years that
begin in March, so that the leap day is the last day of its year.
-/

namespace Playbook

structure Timestamp where
  seconds : Int
  nanos : Nat
deriving DecidableEq, Inhabited, Repr

namespace Timestamp

/-- The days from 1970-01-01 to a date. -/
def daysOfDate (year : Int) (month day : Nat) : Int :=
  let y := if month ≤ 2 then year - 1 else year
  let era := y.fdiv 400
  let yearOfEra := y - era * 400
  let monthFromMarch : Int := if month > 2 then month - 3 else month + 9
  let dayOfYear := (153 * monthFromMarch + 2) / 5 + day - 1
  let dayOfEra := yearOfEra * 365 + yearOfEra / 4 - yearOfEra / 100 + dayOfYear
  era * 146097 + dayOfEra - 719468

/-- The date that many days after 1970-01-01. -/
def dateOfDays (days : Int) : Int × Nat × Nat :=
  let z := days + 719468
  let era := z.fdiv 146097
  let dayOfEra := z - era * 146097
  let yearOfEra :=
    (dayOfEra - dayOfEra / 1460 + dayOfEra / 36524 - dayOfEra / 146096) / 365
  let dayOfYear := dayOfEra - (365 * yearOfEra + yearOfEra / 4 - yearOfEra / 100)
  let monthFromMarch := (5 * dayOfYear + 2) / 153
  let day := dayOfYear - (153 * monthFromMarch + 2) / 5 + 1
  let month := if monthFromMarch < 10 then monthFromMarch + 3
      else monthFromMarch - 9
  (yearOfEra + era * 400 + (if month ≤ 2 then 1 else 0), month.toNat, day.toNat)

def isLeap (year : Int) : Bool :=
  year % 4 == 0 && (year % 100 != 0 || year % 400 == 0)

def daysInMonth (year : Int) (month : Nat) : Nat :=
  if month = 2 then (if isLeap year then 29 else 28)
  else if month ∈ [4, 6, 9, 11] then 30
  else 31

/-- A number in at least `width` digits. -/
def padded (width n : Nat) : String :=
  let digits := Nat.toDigits 10 n
  String.ofList (List.replicate (width - digits.length) '0' ++ digits)

/-- The fraction of a second with its point. -/
def fractionText (nanos : Nat) : String :=
  if nanos = 0 then ""
  else if nanos % 1000000 = 0 then "." ++ padded 3 (nanos / 1000000)
  else if nanos % 1000 = 0 then "." ++ padded 6 (nanos / 1000)
  else "." ++ padded 9 nanos

/-- The timestamp as date and time in universal time. -/
def text (t : Timestamp) : String :=
  let (year, month, day) := dateOfDays (t.seconds.fdiv 86400)
  let second := (t.seconds.fmod 86400).toNat
  let yearText :=
    if 0 ≤ year ∧ year ≤ 9999 then padded 4 year.natAbs
    else (if year < 0 then "-" else "+") ++ padded 4 year.natAbs
  let leap := t.nanos / 1000000000
  s!"{yearText}-{padded 2 month}-{padded 2 day}T{padded 2 (second / 3600)}:" ++
    s!"{padded 2 (second / 60 % 60)}:{padded 2 (second % 60 + leap)}" ++
    fractionText (t.nanos % 1000000000) ++ "Z"

/-- A number of one to `width` digits. -/
def readDigits (width : Nat) (cs : List Char) : Option (Nat × List Char) :=
  let digits := (cs.take width).takeWhile Char.isDigit
  if digits.isEmpty then none
  else some (digits.foldl (fun n c => n * 10 + (c.toNat - '0'.toNat)) 0,
    cs.drop digits.length)

/-- Passes over one expected character. -/
def expect (c : Char) : List Char → Option (List Char)
  | d :: rest => if c = d then some rest else none
  | [] => none

/-- The nanoseconds of an optional fraction; digits beyond the
ninth do not count. -/
def readFraction : List Char → Option (Nat × List Char)
  | '.' :: rest =>
    let digits := rest.takeWhile Char.isDigit
    if digits.isEmpty then none
    else
      let nine := (digits ++ List.replicate 9 '0').take 9
      some (nine.foldl (fun n c => n * 10 + (c.toNat - '0'.toNat)) 0,
        rest.drop digits.length)
  | cs => some (0, cs)

/-- The offset from universal time in seconds. -/
def readOffset (cs : List Char) : Option Int := do
  let cs := cs.dropWhile Text.isBlank
  match cs with
  | ['Z'] | ['z'] => return 0
  | [a, b, c] =>
    guard (String.ofList ([a, b, c].map Char.toUpper) == "UTC")
    return 0
  | sign :: rest =>
    guard (sign == '+' || sign == '-')
    let (hours, rest) ← readDigits 2 rest
    let rest := match rest with
      | ':' :: more => more
      | more => more
    let (minutes, rest) ← readDigits 2 rest
    guard (rest.isEmpty && minutes < 60 && hours < 24)
    let seconds : Int := hours * 3600 + minutes * 60
    return if sign == '-' then -seconds else seconds
  | [] => none

/-- Reads date, time and offset. -/
def parse? (text : String) : Option Timestamp := do
  let cs := text.toList
  let (year, rest) ← match cs with
    | '-' :: rest => (readDigits 9 rest).map fun (n, r) => (-(n : Int), r)
    | '+' :: rest => (readDigits 9 rest).map fun (n, r) => ((n : Int), r)
    | cs => (readDigits 4 cs).map fun (n, r) => ((n : Int), r)
  let (month, rest) ← readDigits 2 (← expect '-' rest)
  let (day, rest) ← readDigits 2 (← expect '-' rest)
  let rest ← match rest with
    | c :: more => if c ∈ ['T', 't', ' '] then some more else none
    | [] => none
  let (hour, rest) ← readDigits 2 rest
  let (minute, rest) ← readDigits 2 (← expect ':' rest)
  let (second, rest) ← readDigits 2 (← expect ':' rest)
  let (nanos, rest) ← readFraction rest
  let offset ← readOffset rest
  guard (1 ≤ month && month ≤ 12 && 1 ≤ day && day ≤ daysInMonth year month)
  guard (hour < 24 && minute < 60 && second ≤ 60)
  let leap := if second = 60 then 1 else 0
  return {
    seconds := daysOfDate year month day * 86400 + hour * 3600 + minute * 60 +
      (second - leap : Nat) - offset
    nanos := nanos + leap * 1000000000 }

end Timestamp

end Playbook
