import Playbook.Dict

/-!
# Playbook — templates

A placeholder is a token between two opening and two closing braces, on one
line. Scanning goes from left to right: at two opening braces the token is
everything up to the nearest two closing braces; where no such token fits on the
line, the brace is an ordinary character.

A text is thus cut into `Piece`s in one way. The tokens of a text are those of
its placeholders, and filling replaces every placeholder at once: what is filled
in is not scanned again.
-/

namespace Playbook.Template

/-- A part of a text. -/
inductive Piece where
  | char (c : Char)
  | placeholder (token : List Char)
deriving DecidableEq, Inhabited, Repr

/-- The characters up to the nearest two closing braces on the line. -/
def closeToken : List Char → Option (List Char)
  | [] => none
  | '\x7d' :: '\x7d' :: _ => some []
  | c :: rest => if c = '\n' then none else (closeToken rest).map (c :: ·)

/-- The token of the placeholder that starts a text, if one does. -/
def openToken : List Char → Option (List Char)
  | '\x7b' :: '\x7b' :: rest => closeToken rest
  | _ => none

/-- Cuts a text into pieces, after passing over `skip` characters of
the piece before. -/
def piecesFrom : (skip : Nat) → List Char → List Piece
  | _, [] => []
  | skip + 1, _ :: rest => piecesFrom skip rest
  | 0, c :: rest =>
    match openToken (c :: rest) with
    | some token => .placeholder token :: piecesFrom (token.length + 3) rest
    | none => .char c :: piecesFrom 0 rest

/-- Cuts a text into pieces. -/
def pieces (text : String) : List Piece := piecesFrom 0 text.toList

/-- The token of a placeholder. -/
def Piece.token? : Piece → Option String
  | char _ => none
  | placeholder token => some (String.ofList token)

/-- Keeps the first of equal items. -/
def firsts : List String → List String
  | [] => []
  | x :: xs => x :: (firsts xs).filter (· ≠ x)

/-- The distinct tokens of a text, in order of first appearance. -/
def tokens (text : String) : List String :=
  firsts ((pieces text).filterMap Piece.token?)

/-- What a piece becomes: a placeholder without a value stays as written. -/
def Piece.fill (values : Dict String) : Piece → List Char
  | char c => [c]
  | placeholder token => match values.get? (String.ofList token) with
    | some value => value.toList
    | none => '\x7b' :: '\x7b' :: token ++ ['\x7d', '\x7d']

/-- Replaces every placeholder that has a value. -/
def fill (text : String) (values : Dict String) : String :=
  String.ofList ((pieces text).flatMap (Piece.fill values))

end Playbook.Template
