import Playbook.Text
import Playbook.Text.DecimalDigit

/-!
# Playbook — log messages with fields

In a message, an empty pair of braces stands for the next value and a pair of
braces with a number for the value of that index; two equal braces stand for
one. A field without a value stays as written. Values are put in as they are and
not scanned again, and a numbered field does not count as a next one.
-/

namespace Playbook.Message

/-- A part of a message. -/
inductive Piece where
  | char (c : Char)
  /-- The next value. -/
  | next
  /-- The value whose index these digits spell. -/
  | nth (digits : List Char)
deriving DecidableEq, Inhabited, Repr

/-- The digits of the field that an opening brace starts, if one does. -/
def fieldDigits (cs : List Char) : Option (List Char) :=
  let digits := cs.takeWhile Text.isDecimalDigit
  match cs.dropWhile Text.isDecimalDigit with
  | '\x7d' :: _ => some digits
  | _ => none

/-- Cuts a message into pieces, after passing over `skip` characters of the
piece before. -/
def piecesFrom : (skip : Nat) → List Char → List Piece
  | _, [] => []
  | skip + 1, _ :: rest => piecesFrom skip rest
  | 0, c :: rest =>
    if c = '\x7b' then
      if rest.head? = some '\x7b' then .char c :: piecesFrom 1 rest
      else match fieldDigits rest with
        | some [] => .next :: piecesFrom 1 rest
        | some digits => .nth digits :: piecesFrom (digits.length + 1) rest
        | none => .char c :: piecesFrom 0 rest
    else if c = '\x7d' ∧ rest.head? = some '\x7d' then .char c :: piecesFrom 1 rest
    else .char c :: piecesFrom 0 rest

/-- Puts the values in; `count` next fields came before. -/
def fillFrom (values : List String) : (count : Nat) → List Piece → List Char
  | _, [] => []
  | count, .char c :: rest => c :: fillFrom values count rest
  | count, .next :: rest =>
    (match values[count]? with
      | some value => value.toList
      | none => ['\x7b', '\x7d']) ++ fillFrom values (count + 1) rest
  | count, .nth digits :: rest =>
    (match (Text.readWord? digits).bind (values[·]?) with
      | some value => value.toList
      | none => '\x7b' :: digits ++ ['\x7d']) ++ fillFrom values count rest

/-- The message with its values. -/
def format (message : String) (values : List String) : String :=
  String.ofList (fillFrom values 0 (piecesFrom 0 message.toList))

end Playbook.Message
