import Playbook.Json.Draft
import Playbook.Text

/-!
# Playbook — block documents

Project files are written in the block style: keys and list items on lines of
their own, nested by indentation, with brackets, quotes and literal blocks where
they are handy. `Yaml.read` reads that style into a draft; anchors, tags,
directives and keys that are themselves lists or objects are refused.

Blocks are read line by line. A list item's dash counts as indentation, so the lines
of a document are rewritten as they are read: an item `- a: 1` is read as the line `
a: 1`. Brackets and quotes may span lines and are read character by character.
-/

namespace Playbook.Yaml

/-- The lines still to be read. -/
abbrev Lines := List (List Char)

def isBlank (c : Char) : Bool := c == ' ' || c == '\t'

/-- Whether a token ends here: at a blank, a line end or the end of the text. -/
def endsToken : List Char → Bool
  | [] => true
  | c :: _ => isBlank c || c == '\n'

/-- Nothing but blanks and a comment. -/
def isVoid (cs : List Char) : Bool :=
  match cs.dropWhile isBlank with
  | [] => true
  | c :: _ => c == '#'

/-- The number of leading spaces. -/
def indentOf (line : List Char) : Nat := (line.takeWhile (· == ' ')).length

/-- Drops blank lines and comments. -/
def skipVoid (lines : Lines) : Lines := lines.dropWhile isVoid

def trimBlanks (cs : List Char) : List Char :=
  ((cs.dropWhile isBlank).reverse.dropWhile isBlank).reverse

/-- Characters that no unquoted scalar starts with; `-`, `?` and `:`
only before a blank. -/
def startsPlain : List Char → Bool
  | [] => false
  | c :: rest =>
    if c ∈ [' ', '\t', ',', '[', ']', '\x7b', '\x7d', '#', '&', '*', '!', '|',
      '>', '\'', '"', '%', '@', '\x60'] then false
    -- before a blank these three are marks of the block style
    else if c ∈ ['-', '?', ':'] then !endsToken rest
    else true

/-- A line break inside a scalar becomes a blank, an empty line a line break. -/
def foldLines (lines : Lines) : List Char :=
  let step (acc : List Char × Nat) (line : List Char) : List Char × Nat :=
    -- the count is of the empty lines since the last text
    if line.isEmpty then (acc.1, acc.2 + 1)
    else if acc.1.isEmpty then (line, 0)
    else (acc.1 ++ (if acc.2 = 0 then [' ']
      else List.replicate acc.2 '\n') ++ line, 0)
  (lines.foldl step ([], 0)).1

/-- The character that a single letter after a backslash stands for. -/
def escaped? (c : Char) : Option Char :=
  match c with
  | '0' => some '\x00'
  | 'a' => some '\x07'
  | 'b' => some '\x08'
  | 't' | '\t' => some '\t'
  | 'n' => some '\n'
  | 'v' => some '\x0b'
  | 'f' => some '\x0c'
  | 'r' => some '\r'
  | 'e' => some '\x1b'
  | ' ' => some ' '
  | '"' => some '"'
  | '/' => some '/'
  | '\\' => some '\\'
  | 'N' => some '\u0085'
  | '_' => some '\u00a0'
  | 'L' => some '\u2028'
  | 'P' => some '\u2029'
  | _ => none

/-- Blanks and line ends inside quotes that are still to be written. -/
structure Gap where
  /-- The blanks before the first line end, the last one first. -/
  blanks : List Char := []
  breaks : Nat := 0
  /-- Whether the first line end was escaped, so that it joins the
  lines without a blank. -/
  joined : Bool := false

namespace Gap

/-- Blanks stand for themselves unless a line end follows them; then a line end
becomes a blank, and several become one fewer. -/
def text (g : Gap) : List Char :=
  match g.breaks with
  | 0 => g.blanks.reverse
  | 1 => if g.joined then [] else [' ']
  | n + 1 => List.replicate n '\n'

def addBreak (g : Gap) : Gap := { g with blanks := [], breaks := g.breaks + 1 }

/-- Blanks at the start of a line do not count. -/
def addBlank (g : Gap) (c : Char) : Gap :=
  if g.breaks = 0 then { g with blanks := c :: g.blanks } else g

/-- The gap after an escaped line end. -/
def escaped : Gap := { breaks := 1, joined := true }

end Gap

/-- Puts a gap and a character before what has been read. -/
def putBefore (g : Gap) (c : Char) (read : Option (List Char × List Char)) :
    Option (List Char × List Char) :=
  read.map fun (s, r) => (g.text ++ c :: s, r)

/-- A scalar in single quotes after its opening quote: two quotes stand for one. -/
def readSingle (g : Gap) : List Char → Option (List Char × List Char)
  | [] => none
  | '\'' :: '\'' :: rest => putBefore g '\'' (readSingle {} rest)
  | '\'' :: rest => some (g.text, rest)
  | c :: rest =>
    if c = '\n' then readSingle g.addBreak rest
    else if isBlank c then readSingle (g.addBlank c) rest
    else putBefore g c (readSingle {} rest)

/-- A scalar in double quotes after its opening quote. -/
def readDouble (g : Gap) : List Char → Option (List Char × List Char)
  | [] => none
  | '"' :: rest => some (g.text, rest)
  -- an escaped line end ends the gap before it and starts a new one
  | '\\' :: '\n' :: rest => (readDouble .escaped rest).map fun (s, r) =>
    (g.text ++ s, r)
  | '\\' :: 'x' :: a :: b :: rest => do
    let n := (← Draft.hexValue? a) * 16 + (← Draft.hexValue? b)
    putBefore g (Char.ofNat n) (readDouble {} rest)
  | '\\' :: 'u' :: a :: b :: c :: d :: rest => do
    let n ← Draft.unit? a b c d
    -- halves of surrogate pairs are no characters
    if 0xD800 ≤ n ∧ n < 0xE000 then none
      else putBefore g (Char.ofNat n) (readDouble {} rest)
  | '\\' :: 'U' :: a :: b :: c :: d :: e :: f :: g' :: h :: rest => do
    let n := (← Draft.unit? a b c d) * 0x10000 + (← Draft.unit? e f g' h)
    if n.isValidChar then putBefore g (Char.ofNat n) (readDouble {} rest) else none
  | '\\' :: c :: rest => do
    let x ← escaped? c
    putBefore g x (readDouble {} rest)
  | c :: rest =>
    if c = '\n' then readDouble g.addBreak rest
    else if isBlank c then readDouble (g.addBlank c) rest
    else putBefore g c (readDouble {} rest)

/-- Blanks, line ends and comments between the tokens of a bracket. -/
def skipFlow : (comment : Bool) → List Char → List Char
  | _, [] => []
  | true, c :: rest => skipFlow (c != '\n') rest
  | false, c :: rest =>
    if isBlank c || c == '\n' then skipFlow false rest
    else if c == '#' then skipFlow true rest
    else c :: rest

def isBracket (c : Char) : Bool := c ∈ [',', '[', ']', '\x7b', '\x7d']

/-- An unquoted scalar inside brackets. A colon right before a bracket, a comma
or a question mark has no place there. -/
def spanFlowPlain : (afterBlank : Bool) → List Char → Option (List Char × List Char)
  | _, [] => some ([], [])
  | afterBlank, c :: rest =>
    if isBracket c || (c == '#' && afterBlank) ||
      (c == ':' && endsToken rest) then some ([], c :: rest)
    else if c == ':' && (rest.head?.map fun d => isBracket d || d == '?').getD
      false then none
    else (spanFlowPlain (isBlank c || c == '\n') rest).map fun (s, r) => (c :: s, r)

/-- The text of a scalar that serves as a key. -/
def keyText? : Draft → Option String
  | .str s => some s
  | .plain s => some s
  | _ => none

mutual
/-- A node inside brackets, and what follows it. -/
def readFlow : (fuel : Nat) → List Char → Option (Draft × List Char)
  | 0, _ => none
  | fuel + 1, cs =>
    match skipFlow false cs with
    | '[' :: rest => (readFlowItems fuel rest).map fun (items, r) => (.arr items, r)
    | '\x7b' :: rest => (readFlowFields fuel rest).map fun (fields, r) =>
      (.obj fields, r)
    | '"' :: rest => (readDouble {} rest).map fun (s, r) =>
      (.str (String.ofList s), r)
    | '\'' :: rest => (readSingle {} rest).map fun (s, r) =>
      (.str (String.ofList s), r)
    | rest =>
      if startsPlain rest && rest.head? != some ':' && rest.head? != some '?' then
        (spanFlowPlain false rest).map fun (s, r) =>
          (.plain (String.ofList
            (foldLines ((Text.pieces '\n' s).map trimBlanks))), r)
      else none

/-- The items after an opening bracket. An item `key: value` is an
object with one field. -/
def readFlowItems : (fuel : Nat) → List Char → Option (List Draft × List Char)
  | 0, _ => none
  | fuel + 1, cs =>
    match skipFlow false cs with
    | ']' :: rest => some ([], rest)
    | rest => do
      let (item, rest) ← readFlow fuel rest
      let (item, rest) ← match skipFlow false rest with
        -- `[a: b]` is a list with one object
        | ':' :: more => do
          let key ← keyText? item
          let (value, more) ← readFlow fuel more
          pure (Draft.obj [(key, value)], more)
        | more => pure (item, more)
      match skipFlow false rest with
      | ',' :: rest => do
        let (items, rest) ← readFlowItems fuel rest
        return (item :: items, rest)
      | ']' :: rest => return ([item], rest)
      | _ => none

/-- The fields after an opening brace. A key may stand without a value. -/
def readFlowFields : (fuel : Nat) → List Char →
    Option (List (String × Draft) × List Char)
  | 0, _ => none
  | fuel + 1, cs =>
    match skipFlow false cs with
    | '\x7d' :: rest => some ([], rest)
    | rest => do
      let (node, rest) ← readFlow fuel rest
      let key ← keyText? node
      let (value, rest) ← match skipFlow false rest with
        | ':' :: more => match skipFlow false more with
          -- a colon without a value after it
          | ',' :: _ | '\x7d' :: _ => pure (Draft.plain "", more)
          | more => readFlow fuel more
        | more => pure (Draft.plain "", more)
      match skipFlow false rest with
      | ',' :: rest => do
        let (fields, rest) ← readFlowFields fuel rest
        return ((key, value) :: fields, rest)
      | '\x7d' :: rest => return ([(key, value)], rest)
      | _ => none
end

/-- The part of a line that belongs to an unquoted scalar, and whether a comment
ended it. A colon that ends a token has no place there. -/
def spanPlain : (afterBlank : Bool) → List Char → Option (List Char × Bool)
  | _, [] => some ([], false)
  | afterBlank, c :: rest =>
    if c == '#' && afterBlank then some ([], true)
    else if c == ':' && endsToken rest then none
    else (spanPlain (isBlank c) rest).map fun (s, ended) => (c :: s, ended)

/-- The following lines of an unquoted scalar. -/
def readContinuation (minIndent : Nat) :
    (pending : Lines) → Lines → Option (Lines × Lines)
  | _, [] => some ([], [])
  | pending, line :: rest =>
    -- empty lines count only if the scalar goes on after them
    if (trimBlanks line).isEmpty then
      (readContinuation minIndent ([] :: pending) rest).map fun (more, r) =>
        if more.isEmpty then ([], line :: r) else (more, r)
    else if isVoid line || indentOf line < minIndent then some ([], line :: rest)
    else match spanPlain true line with
      | none => none
      -- a comment ends the scalar
      | some (s, true) => some (pending ++ [trimBlanks s], rest)
      | some (s, false) => (readContinuation minIndent [] rest).map fun (more, r) =>
          (pending ++ trimBlanks s :: more, r)

/-- A key at the start of a line, and what follows its colon. -/
def splitKey? (cs : List Char) : Option (String × List Char) :=
  let afterQuoted (read : Option (List Char × List Char)) : Option
      (String × List Char) := do
    let (s, rest) ← read
    match rest.dropWhile isBlank with
    | ':' :: more => if endsToken more then some (String.ofList s, more) else none
    | _ => none
  let rec plainKey : (afterBlank : Bool) → List Char →
    Option (List Char × List Char)
    | _, [] => none
    | afterBlank, c :: rest =>
      if c == '#' && afterBlank then none
      else if c == ':' && endsToken rest then some ([], rest)
      else (plainKey (isBlank c) rest).map fun (s, r) => (c :: s, r)
  match cs with
  | '"' :: rest => afterQuoted (readDouble {} rest)
  | '\'' :: rest => afterQuoted (readSingle {} rest)
  | cs =>
    if startsPlain cs then (plainKey false cs).map fun (s, r) =>
      (String.ofList (trimBlanks s), r)
    else none

/-- Whether a list item starts here. -/
def isDash : List Char → Bool
  | '-' :: rest => endsToken rest
  | _ => false

/-- Cuts off the trailing empty lines. -/
def dropLastEmpty (lines : Lines) : Lines :=
  (lines.reverse.dropWhile List.isEmpty).reverse

/-- A literal block keeps its line breaks. -/
def literalText (lines : Lines) : List Char := lines.flatMap (· ++ ['\n'])

/-- A folded block joins lines that start at its indentation. -/
def foldedText : Lines → List Char
  | [] => []
  | [line] => line ++ ['\n']
  | line :: next :: rest =>
    let isMore (l : List Char) : Bool := (l.head?.map isBlank).getD false
    if line.isEmpty then '\n' :: foldedText (next :: rest)
    else if isMore line || isMore next then line ++ '\n' :: foldedText
      (next :: rest)
    else if next.isEmpty then line ++ foldedText (next :: rest)
    else line ++ ' ' :: foldedText (next :: rest)

/-- A block scalar after its header, and the lines that follow it. -/
def readBlockScalar (minIndent : Nat) (header : List Char) (lines : Lines) :
    Option (Draft × Lines) := do
  let (folded, marks) ← match header with
    | '|' :: rest => some (false, rest)
    | '>' :: rest => some (true, rest)
    | _ => none
  -- the header: what happens to line ends at the end, and how far the
  -- block is indented
  let flags := marks.takeWhile fun c => c == '+' || c == '-' || c.isDigit
  guard (isVoid (marks.drop flags.length))
  let given := (flags.find? Char.isDigit).map fun c => c.toNat - '0'.toNat
  -- without a given indentation that of the first line with text counts
  let indent := match given with
    | some n => minIndent - 1 + n
    | none =>
      max minIndent
        (((lines.find? fun line => !(trimBlanks line).isEmpty).map
          indentOf).getD 0)
  let belongs (line : List Char) : Bool :=
    indentOf line ≥ indent || (trimBlanks line).isEmpty
  let body := (lines.takeWhile belongs).map (·.drop indent)
  let rest := lines.dropWhile belongs
  let render := if folded then foldedText else literalText
  let kept := dropLastEmpty body
  let text :=
    -- `+` keeps all line ends, `-` none, and otherwise one is kept
    if flags.contains '+' then render body
    else if flags.contains '-' then (render kept).dropLast
    else render kept
  return (.str (String.ofList text), rest)

/-- A scalar or bracket that starts on a line, and the lines that follow it. -/
def readInline (minIndent : Nat) (text : List Char) (rest : Lines) :
    Option (Draft × Lines) :=
  match text with
  | '|' :: _ | '>' :: _ => readBlockScalar minIndent text rest
  | '[' :: _ | '\x7b' :: _ | '"' :: _ | '\'' :: _ => do
    -- brackets and quotes may reach over lines, so the lines are joined again
    let cs := rest.foldl (fun acc line => acc ++ '\n' :: line) text
    let (node, after) ← readFlow (2 * cs.length + 2) cs
    -- nothing but a comment may follow on the last line
    let tail := after.takeWhile (· != '\n')
    guard (isVoid tail)
    let lines := match after.dropWhile (· != '\n') with
      | [] => []
      | _ :: more => Text.pieces '\n' more
    return (node, lines)
  | text =>
    if startsPlain text then do
      let (s, ended) ← spanPlain false text
      if ended then return (.plain (String.ofList (trimBlanks s)), rest)
      let (more, rest) ← readContinuation minIndent [] rest
      return (.plain (String.ofList (foldLines (trimBlanks s :: more))), rest)
    else none

mutual
/-- The node on the next lines indented by at least `minIndent`; an absent one
is an empty scalar. -/
def readNode : (fuel minIndent : Nat) → Lines → Option (Draft × Lines)
  | 0, _, _ => none
  | fuel + 1, minIndent, lines =>
    match skipVoid lines with
    | [] => some (.plain "", [])
    | line :: rest =>
      let indent := indentOf line
      let content := line.drop indent
      if indent < minIndent then some (.plain "", line :: rest)
      else if isDash content then
        (readItems fuel indent (line :: rest)).map fun (items, r) => (.arr items, r)
      else if (splitKey? content).isSome then
        (readFields fuel indent (line :: rest)).map fun (fields, r) =>
          (.obj fields, r)
      else readInline minIndent content rest

/-- The items of a list whose dashes stand at `indent`. -/
def readItems : (fuel indent : Nat) → Lines → Option (List Draft × Lines)
  | 0, _, _ => none
  | fuel + 1, indent, lines =>
    match skipVoid lines with
    | [] => some ([], [])
    | line :: rest =>
      if indentOf line < indent then some ([], line :: rest)
      else if indentOf line > indent then none
      else match line.drop indent with
        | '-' :: content =>
          if !endsToken content then none
          else do
            -- the dash becomes a blank, so that the item's own lines
            -- are indented alike
            let next := if isVoid content then rest
                else (List.replicate (indent + 1) ' ' ++ content) :: rest
            let (item, rest) ← readNode fuel (indent + 1) next
            let (items, rest) ← readItems fuel indent rest
            return (item :: items, rest)
        | _ => some ([], line :: rest)

/-- The fields of an object whose keys stand at `indent`. -/
def readFields : (fuel indent : Nat) → Lines →
    Option (List (String × Draft) × Lines)
  | 0, _, _ => none
  | fuel + 1, indent, lines =>
    match skipVoid lines with
    | [] => some ([], [])
    | line :: rest =>
      if indentOf line < indent then some ([], line :: rest)
      else if indentOf line > indent then none
      else match splitKey? (line.drop indent) with
        | none => some ([], line :: rest)
        | some (key, text) => do
          let (value, rest) ←
            if isVoid text then
              match skipVoid rest with
              | [] => some (Draft.plain "", [])
              | next :: _ =>
                -- a list may stand right below its key, without further indentation
                if indentOf next > indent then readNode fuel (indent + 1) rest
                else if indentOf next = indent ∧ isDash (next.drop indent) then
                  (readItems fuel indent rest).map fun (items, r) => (.arr items, r)
                else some (.plain "", rest)
            else readInline (indent + 1) (text.dropWhile isBlank) rest
          let (fields, rest) ← readFields fuel indent rest
          return ((key, value) :: fields, rest)
end

/-- The lines of a document after its start marker. -/
def bodyLines (lines : Lines) : Lines :=
  match skipVoid lines with
  -- the rest of the marker's line belongs to the document
  | ('-' :: '-' :: '-' :: rest) :: more =>
    if endsToken rest then rest :: more else lines
  | _ => lines

/-- Reads one document. -/
def read (text : String) : Option Draft := do
  let chars := match text.toList with
    | '\ufeff' :: rest => rest
    | cs => cs
  let lines := (Text.pieces '\n' chars).map fun line =>
    if line.getLast? == some '\r' then line.dropLast else line
  let (node, rest) ← readNode (4 * chars.length + 8) 0 (bodyLines lines)
  match skipVoid rest with
  | [] => some node
  | ['.', '.', '.'] :: more => if (skipVoid more).isEmpty then some node else none
  | _ => none

end Playbook.Yaml
