import Playbook.Json.Basic
import Playbook.Text
import Playbook.Decimal.Shortest

/-!
# Playbook — the text of plain data

`Json.compact` writes data on one line without blanks; `Json.pretty` writes
every item and field on a line of its own, two blanks deeper than what contains
it, and an empty list or object as a bare pair of brackets.

A number with a fraction is written by its shortest decimal, always with a point or
an exponent, so that it reads back as the same number and never as an integer. A
number that is not finite has no text of its own and is written as `null`.
-/

namespace Playbook.Json

/-- Positional from `0.00001` up to sixteen digits before the point; exponents
carry a sign. -/
def numberStyle : DecimalStyle := ⟨16, -5, ".0", "e", "+"⟩

/-- The text of a double. -/
def realText (x : Double) : String :=
  if !x.isFinite then "null"
  else
    let sign := if x.isNegative then "-" else ""
    let magnitude :=
      if x.significand = 0 then "0.0"
        else String.ofList (numberStyle.render (Decimal.shortest x))
    sign ++ magnitude

/-- The text of a number. -/
def numberText : Number → String
  | .integer n => toString n
  | .real x => realText x

/-- One hexadecimal digit. -/
def hexDigit (n : Nat) : Char := Nat.digitChar (n % 16)

/-- A character inside quotes: quote, backslash and control
characters are escaped. -/
def escapeChar (c : Char) : List Char :=
  if c = '"' then ['\\', '"']
  else if c = '\\' then ['\\', '\\']
  else if c = '\n' then ['\\', 'n']
  else if c = '\r' then ['\\', 'r']
  else if c = '\t' then ['\\', 't']
  else if c = '\x08' then ['\\', 'b']
  else if c = '\x0c' then ['\\', 'f']
  else if c.toNat < 0x20 then ['\\', 'u', '0', '0', hexDigit (c.toNat / 16),
    hexDigit c.toNat]
  else [c]

/-- A text in quotes. -/
def quote (s : String) : String :=
  String.ofList ('"' :: s.toList.flatMap escapeChar ++ ['"'])

mutual
/-- The text on one line. -/
def compact : Json → String
  | null => "null"
  | bool b => if b then "true" else "false"
  | num n => numberText n
  | str s => quote s
  | arr items => "[" ++ Text.join "," (compactItems items) ++ "]"
  | obj fields => "\x7b" ++ Text.join "," (compactFields fields) ++ "\x7d"
termination_by structural j => j

def compactItems : List Json → List String
  | [] => []
  | x :: xs => compact x :: compactItems xs
termination_by structural js => js

def compactFields : List (String × Json) → List String
  | [] => []
  | (k, x) :: xs => (quote k ++ ":" ++ compact x) :: compactFields xs
termination_by structural js => js
end

/-- A bracketed block with one part on each line. -/
def block (opening closing : String) (depth : Nat) (parts : List String) : String :=
  if parts.isEmpty then opening ++ closing
  else
    let inner := "\n" ++ String.ofList (List.replicate (2 * (depth + 1)) ' ')
    let outer := "\n" ++ String.ofList (List.replicate (2 * depth) ' ')
    opening ++ inner ++ Text.join ("," ++ inner) parts ++ outer ++ closing

mutual
/-- The text over several lines, inside `depth` containers. -/
def prettyAt (depth : Nat) : Json → String
  | null => "null"
  | bool b => if b then "true" else "false"
  | num n => numberText n
  | str s => quote s
  | arr items => block "[" "]" depth (prettyItems (depth + 1) items)
  | obj fields => block "\x7b" "\x7d" depth (prettyFields (depth + 1) fields)
termination_by structural j => j

def prettyItems (depth : Nat) : List Json → List String
  | [] => []
  | x :: xs => prettyAt depth x :: prettyItems depth xs
termination_by structural js => js

def prettyFields (depth : Nat) : List (String × Json) → List String
  | [] => []
  | (k, x) :: xs => (quote k ++ ": " ++ prettyAt depth x) :: prettyFields depth xs
termination_by structural js => js
end

/-- The text over several lines. -/
def pretty (j : Json) : String := prettyAt 0 j

end Playbook.Json
