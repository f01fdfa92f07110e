import Playbook.Json.Basic
import Playbook.Decimal.Reading

/-!
# Playbook — documents before they are checked

A `Draft` is what a document's text says: data in which an object may repeat a
key, in which an unquoted scalar of a block document is still undecided between
text and other kinds, and in which `broken` marks the place where the text stops
being a document. What a reader of a definition reports is the first fault in
reading order, whether it is a fault of the text or of the shape, so the two
kinds have to be found in one pass over one value.

`Draft.ofJsonText` reads JSON text. It refuses more than 127 nested containers,
a control character inside quotes, half of a surrogate pair, a number outside
the range of doubles, and anything after the value.
-/

namespace Playbook

/-- What a document's text says. -/
inductive Draft where
  | null
  | bool (b : Bool)
  | num (n : Number)
  | str (s : String)
  | arr (items : List Draft)
  | obj (fields : List (String × Draft))
  /-- An unquoted scalar. -/
  | plain (text : String)
  /-- Here the text stops being a document. -/
  | broken
deriving Inhabited, Repr

namespace Draft

mutual
/-- Data as a draft. -/
def ofJson : Json → Draft
  | .null => null
  | .bool b => bool b
  | .num n => num n
  | .str s => str s
  | .arr items => arr (ofJsonItems items)
  | .obj fields => obj (ofJsonFields fields)
termination_by structural j => j

def ofJsonItems : List Json → List Draft
  | [] => []
  | x :: xs => ofJson x :: ofJsonItems xs
termination_by structural js => js

def ofJsonFields : List (String × Json) → List (String × Draft)
  | [] => []
  | (k, x) :: xs => (k, ofJson x) :: ofJsonFields xs
termination_by structural js => js
end

/-- Drops the blanks that may stand between tokens. -/
def skipBlanks (cs : List Char) : List Char :=
  cs.dropWhile fun c => c == ' ' || c == '\n' || c == '\t' || c == '\r'

/-- The value of a hexadecimal digit. -/
def hexValue? (c : Char) : Option Nat :=
  if '0' ≤ c ∧ c ≤ '9' then some (c.toNat - '0'.toNat)
  else if 'a' ≤ c ∧ c ≤ 'f' then some (c.toNat - 'a'.toNat + 10)
  else if 'A' ≤ c ∧ c ≤ 'F' then some (c.toNat - 'A'.toNat + 10)
  else none

/-- A 16-bit unit written as four hexadecimal digits. -/
def unit? (a b c d : Char) : Option Nat := do
  return (((← hexValue? a) * 16 + (← hexValue? b)) * 16 + (← hexValue? c)) *
    16 + (← hexValue? d)

/-- The character that a single letter after a backslash stands for. -/
def escaped? (c : Char) : Option Char :=
  match c with
  | '"' => some '"'
  | '\\' => some '\\'
  | '/' => some '/'
  | 'b' => some '\x08'
  | 'f' => some '\x0c'
  | 'n' => some '\n'
  | 'r' => some '\r'
  | 't' => some '\t'
  | _ => none

/-- The rest of a quoted text after its opening quote, and what
follows the closing one. -/
def readQuoted : List Char → Option (List Char × List Char)
  | [] => none
  | '"' :: rest => some ([], rest)
  | '\\' :: 'u' :: a :: b :: c :: d :: rest =>
    match unit? a b c d with
    | none => none
    | some high =>
      -- the second half of a pair has no place without the first
      if 0xDC00 ≤ high ∧ high < 0xE000 then none
      else if 0xD800 ≤ high ∧ high < 0xDC00 then
        match rest with
        | '\\' :: 'u' :: e :: f :: g :: h :: rest =>
          match unit? e f g h with
          | none => none
          | some low =>
            if 0xDC00 ≤ low ∧ low < 0xE000 then
              (readQuoted rest).map fun (s, r) =>
                (Char.ofNat
                  (0x10000 + (high - 0xD800) * 0x400 + (low - 0xDC00)) :: s, r)
            else none
        | _ => none
      else (readQuoted rest).map fun (s, r) => (Char.ofNat high :: s, r)
  | '\\' :: c :: rest =>
    match escaped? c with
    | none => none
    | some x => (readQuoted rest).map fun (s, r) => (x :: s, r)
  | c :: rest =>
    if c.toNat < 0x20 ∨ c = '\\' then none
      else (readQuoted rest).map fun (s, r) => (c :: s, r)

mutual
/-- A value, and what follows it; nothing follows a broken value. -/
def readValue : (fuel depth : Nat) → List Char → Draft × Option (List Char)
  | 0, _, _ => (broken, none)
  | fuel + 1, depth, cs =>
    match skipBlanks cs with
    | 'n' :: 'u' :: 'l' :: 'l' :: rest => (null, some rest)
    | 't' :: 'r' :: 'u' :: 'e' :: rest => (bool true, some rest)
    | 'f' :: 'a' :: 'l' :: 's' :: 'e' :: rest => (bool false, some rest)
    | '"' :: rest => match readQuoted rest with
      | some (s, rest) => (str (String.ofList s), some rest)
      | none => (broken, none)
    | '[' :: rest =>
      if depth = 0 then (broken, none)
      else match skipBlanks rest with
        | ']' :: rest => (arr [], some rest)
        | rest =>
          let (items, rest) := readItems fuel (depth - 1) rest
          (arr items, rest)
    | '\x7b' :: rest =>
      if depth = 0 then (broken, none)
      else match skipBlanks rest with
        | '\x7d' :: rest => (obj [], some rest)
        | rest =>
          let (fields, rest) := readFields fuel (depth - 1) rest
          (obj fields, rest)
    | rest => match Decimal.readNumber rest with
      | some (n, rest) => (num n, some rest)
      | none => (broken, none)

/-- The items of a list after its opening bracket. -/
def readItems : (fuel depth : Nat) → List Char → List Draft × Option (List Char)
  | 0, _, _ => ([broken], none)
  | fuel + 1, depth, cs =>
    match readValue fuel depth cs with
    | (item, none) => ([item], none)
    | (item, some rest) => match skipBlanks rest with
      | ',' :: rest =>
        let (items, rest) := readItems fuel depth rest
        (item :: items, rest)
      | ']' :: rest => ([item], some rest)
      | _ => ([item, broken], none)

/-- The fields of an object after its opening brace. -/
def readFields : (fuel depth : Nat) → List Char →
    List (String × Draft) × Option (List Char)
  | 0, _, _ => ([("", broken)], none)
  | fuel + 1, depth, cs =>
    match skipBlanks cs with
    | '"' :: rest => match readQuoted rest with
      | none => ([("", broken)], none)
      | some (key, rest) =>
        let key := String.ofList key
        match skipBlanks rest with
        | ':' :: rest => match readValue fuel depth rest with
          | (value, none) => ([(key, value)], none)
          | (value, some rest) => match skipBlanks rest with
            | ',' :: rest =>
              let (fields, rest) := readFields fuel depth rest
              ((key, value) :: fields, rest)
            | '\x7d' :: rest => ([(key, value)], some rest)
            | _ => ([(key, value), ("", broken)], none)
        | _ => ([(key, broken)], none)
    | _ => ([("", broken)], none)
end

/-- How many containers may be nested. -/
def maxDepth : Nat := 127

/-- Reads JSON text. The flag tells whether the text ends after the value. -/
def ofJsonText (text : String) : Draft × Bool :=
  let cs := text.toList
  match readValue (2 * cs.length + 2) maxDepth cs with
  | (draft, none) => (draft, true)
  | (draft, some rest) => (draft, (skipBlanks rest).isEmpty)

end Draft

end Playbook
