/-!
# Playbook — cutting and joining text

The reading rules of this library (placeholders, reference paths, durations,
file names) are stated on lists of characters. This module holds the few cuts
they share: splitting at the first or last occurrence of a character, dropping a
known beginning or ending, trimming blanks, deleting a marker.
-/

namespace Playbook.Text

/-- The characters that trimming removes: those with the property White_Space. -/
def isBlank (c : Char) : Bool :=
  let n := c.toNat
  (0x09 ≤ n && n ≤ 0x0D) || n == 0x20 || n == 0x85 || n == 0xA0 || n == 0x1680 ||
    (0x2000 ≤ n && n ≤ 0x200A) || n == 0x2028 || n == 0x2029 || n ==
    0x202F || n == 0x205F || n == 0x3000

/-- Drops blanks from both ends. -/
def trimChars (cs : List Char) : List Char :=
  ((cs.dropWhile isBlank).reverse.dropWhile isBlank).reverse

/-- Drops blanks from both ends. -/
def trim (s : String) : String := String.ofList (trimChars s.toList)

/-- What precedes and what follows the first occurrence of `c`. -/
def splitFirst (c : Char) : List Char → Option (List Char × List Char)
  | [] => none
  | d :: rest => if d = c then some ([], rest)
    else (splitFirst c rest).map fun (a, b) => (d :: a, b)

/-- What precedes and what follows the last occurrence of `c`. -/
def splitLast (c : Char) : List Char → Option (List Char × List Char)
  | [] => none
  | d :: rest => match splitLast c rest with
    | some (a, b) => some (d :: a, b)
    | none => if d = c then some ([], rest) else none

/-- The pieces between the occurrences of `c`; there is always at least one. -/
def pieces (c : Char) : List Char → List (List Char)
  | [] => [[]]
  | d :: rest =>
    if d = c then [] :: pieces c rest
    else match pieces c rest with
      | first :: more => (d :: first) :: more
      | [] => [[d]]

/-- What follows `start`, if the text begins with it. -/
def dropStart? : (start text : List Char) → Option (List Char)
  | [], text => some text
  | _ :: _, [] => none
  | a :: start, b :: text => if a = b then dropStart? start text else none

/-- What precedes `ending`, if the text ends with it. -/
def dropEnding? (ending text : List Char) : Option (List Char) :=
  (dropStart? ending.reverse text.reverse).map List.reverse

/-- Whether `part` occurs somewhere in the text. -/
def occurs (part : List Char) : List Char → Bool
  | [] => part.isEmpty
  | c :: rest => (dropStart? part (c :: rest)).isSome || occurs part rest

/-- Whether one text begins with another. -/
def startsWith (s start : String) : Bool :=
  (dropStart? start.toList s.toList).isSome

/-- Whether one text ends with another. -/
def endsWith (s ending : String) : Bool :=
  (dropEnding? ending.toList s.toList).isSome

/-- The texts one after the other with `separator` between them. -/
def join (separator : String) (parts : List String) : String :=
  separator.intercalate parts

/-- A natural number in decimal digits, with an optional leading plus sign. -/
def readNat? (cs : List Char) : Option Nat :=
  let digits := match cs with
    | '+' :: rest => rest
    | cs => cs
  if digits.isEmpty || !digits.all Char.isDigit then none
  else some (digits.foldl (fun n c => n * 10 + (c.toNat - '0'.toNat)) 0)

/-- A natural number below 2^64. -/
def readWord? (cs : List Char) : Option Nat :=
  (readNat? cs).bind fun n => if n < 0x10000000000000000 then some n else none

end Playbook.Text
