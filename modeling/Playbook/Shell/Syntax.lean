import Playbook.Text

/-!
# Playbook — the syntax of job scripts

Job scripts are written in the common command language: simple commands with
quoting, variables, command substitution, redirections and here-documents,
joined by pipes, `&&`, `||`, line ends and semicolons, and the compound commands
`if`, `case`, `while`, `until` and `for`, groups and subshells.

A script is parsed one line at a time, so that the lines before a
faulty one are still run.
-/

namespace Playbook.Shell

/-- A part of a word. What is quoted is neither split nor matched
against file names. -/
inductive Part where
  | text (s : List Char) (quoted : Bool)
  | variable (name : String) (quoted : Bool)
  /-- The output of the commands in this source. -/
  | output (source : List Char) (quoted : Bool)
deriving DecidableEq, Inhabited, Repr

abbrev Word := List Part

/-- Where a redirection leads. -/
inductive Redirection where
  | input (file : Word)
  | write (descriptor : Nat) (file : Word)
  | append (descriptor : Nat) (file : Word)
  | duplicate (descriptor : Nat) (of : Word)
  | hereDocument (body : Word)
deriving DecidableEq, Inhabited, Repr

inductive Command where
  | nothing
  | simple (assignments : List (String × Word)) (words : List Word)
      (redirections : List Redirection)
  | pipe (first second : Command)
  | negate (body : Command)
  | both (first second : Command)
  | either (first second : Command)
  | sequence (first second : Command)
  | branch (condition yes no : Command)
  | loop (whileTrue : Bool) (condition body : Command)
  | each (name : String) (words : List Word) (body : Command)
  | select (subject : Word) (clauses : List (List Word × Command))
  | background (body : Command)
  | group (body : Command) (redirections : List Redirection)
  | subshell (body : Command) (redirections : List Redirection)
deriving Inhabited, Repr

/-- Characters that end an unquoted word. -/
def endsWord (c : Char) : Bool :=
  c ∈ [' ', '\t', '\n', ';', '&', '|', '<', '>', '(', ')']

def isNameChar (c : Char) : Bool := c.isAlphanum || c == '_'

/-- Passes over blanks, joined lines and a comment. -/
def skipBlanks : (fuel : Nat) → List Char → List Char
  | 0, cs => cs
  | fuel + 1, cs =>
    match cs with
    | ' ' :: rest | '\t' :: rest => skipBlanks fuel rest
    | '\\' :: '\n' :: rest => skipBlanks fuel rest
    | '#' :: rest => rest.dropWhile (· != '\n')
    | cs => cs

/-- The source up to the closing parenthesis, and what follows it. -/
def readParenthesis : (depth : Nat) → (quote : Option Char) → List Char →
    Option (List Char × List Char)
  | _, _, [] => none
  | depth, some q, c :: rest =>
    (readParenthesis depth (if c = q then none else some q) rest).map
      fun (s, r) => (c :: s, r)
  | depth, none, c :: rest =>
    if c = ')' then
      match depth with
      | 0 => some ([], rest)
      | depth + 1 => (readParenthesis depth none rest).map fun (s, r) => (c :: s, r)
    else
      let depth := if c = '(' then depth + 1 else depth
      let quote := if c = '\'' ∨ c = '"' then some c else none
      (readParenthesis depth quote rest).map fun (s, r) => (c :: s, r)

/-- What a dollar sign starts. -/
def readDollar (quoted : Bool) (cs : List Char) : Option (Part × List Char) :=
  match cs with
  | '\x7b' :: rest =>
    match Text.splitFirst '\x7d' rest with
    | some (name, rest) => some (.variable (String.ofList name) quoted, rest)
    | none => none
  | '(' :: rest => (readParenthesis 0 none rest).map fun (s, r) =>
    (.output s quoted, r)
  | c :: rest =>
    if c ∈ ['#', '?', '$', '@', '*', '!', '-'] || c.isDigit then some
      (.variable (String.ofList [c]) quoted, rest)
    else if isNameChar c then
      let name := cs.takeWhile isNameChar
      some (.variable (String.ofList name) quoted, cs.drop name.length)
    else some (.text ['$'] quoted, cs)
  | [] => some (.text ['$'] quoted, [])

/-- The parts between double quotes, after the opening one. -/
def readDoubleQuoted : (fuel : Nat) → List Char → Option (Word × List Char)
  | 0, _ => none
  | _, [] => none
  | _, '"' :: rest => some ([], rest)
  | fuel + 1, '\\' :: c :: rest => do
    let (parts, r) ← readDoubleQuoted fuel rest
    -- a backslash stays where it has nothing to protect
    if c = '\n' then return (parts, r)
    else if c ∈ ['$', '\x60', '"', '\\'] then return (.text [c] true :: parts, r)
    else return (.text ['\\', c] true :: parts, r)
  | fuel + 1, '$' :: rest => do
    let (part, rest) ← readDollar true rest
    let (parts, r) ← readDoubleQuoted fuel rest
    return (part :: parts, r)
  | fuel + 1, '\x60' :: rest => do
    let (source, rest) ← Text.splitFirst '\x60' rest
    let (parts, r) ← readDoubleQuoted fuel rest
    return (.output source true :: parts, r)
  | fuel + 1, c :: rest => do
    let (parts, r) ← readDoubleQuoted fuel rest
    return (.text [c] true :: parts, r)

/-- The parts of a word. -/
def readWord : (fuel : Nat) → List Char → Option (Word × List Char)
  | 0, _ => none
  | _, [] => some ([], [])
  | fuel + 1, c :: rest =>
    if endsWord c then some ([], c :: rest)
    else match c with
      | '\'' => do
        let (s, rest) ← Text.splitFirst '\'' rest
        let (parts, r) ← readWord fuel rest
        return (.text s true :: parts, r)
      | '"' => do
        let (inner, rest) ← readDoubleQuoted (rest.length + 1) rest
        let (parts, r) ← readWord fuel rest
        -- the empty quoted part makes `""` a field
        return (.text [] true :: inner ++ parts, r)
      | '\\' => match rest with
        | '\n' :: rest => readWord fuel rest
        | d :: rest => do
          let (parts, r) ← readWord fuel rest
          return (.text [d] true :: parts, r)
        | [] => some ([.text ['\\'] true], [])
      | '$' => do
        let (part, rest) ← readDollar false rest
        let (parts, r) ← readWord fuel rest
        return (part :: parts, r)
      | '\x60' => do
        let (source, rest) ← Text.splitFirst '\x60' rest
        let (parts, r) ← readWord fuel rest
        return (.output source false :: parts, r)
      | c => do
        let (parts, r) ← readWord fuel rest
        return (.text [c] false :: parts, r)

/-- A word; a tilde at its start, alone or before a slash, is the home directory. -/
def readTilded (cs : List Char) : Option (Word × List Char) :=
  match cs with
  | '~' :: rest =>
    match rest with
    | [] => some ([.variable "HOME" true], [])
    | c :: _ =>
      if c = '/' ∨ endsWord c then (readWord (cs.length + 1) rest).map
        fun (w, r) => (.variable "HOME" true :: w, r)
      else readWord (cs.length + 1) cs
  | _ => readWord (cs.length + 1) cs

/-- The text of a word that holds nothing to be expanded. -/
def literal? : Word → Option (List Char)
  | [] => some []
  | .text s _ :: rest => (literal? rest).map (s ++ ·)
  | _ => none

/-- Whether any part of a word is quoted. -/
def isQuoted (w : Word) : Bool :=
  w.any fun | .text _ q => q | .variable _ q => q | .output _ q => q

/-- The lines up to one that equals the delimiter, and what follows it. -/
def splitHere (tabs : Bool) (delimiter : List Char) :
    List (List Char) → List (List Char) × List (List Char)
  | [] => ([], [])
  | line :: rest =>
    let line := if tabs then line.dropWhile (· == '\t') else line
    if line = delimiter then ([], rest)
    else
      let (body, after) := splitHere tabs delimiter rest
      (line :: body, after)

/-- The parts of a here-document whose delimiter is not quoted. -/
def readHereParts : (fuel : Nat) → List Char → Word
  | 0, _ => []
  | _, [] => []
  | fuel + 1, '\\' :: c :: rest =>
    if c = '\n' then readHereParts fuel rest
    else if c ∈ ['$', '\x60', '\\'] then .text [c] true :: readHereParts fuel rest
    else .text ['\\', c] true :: readHereParts fuel rest
  | fuel + 1, '$' :: rest => match readDollar true rest with
    | some (part, rest) => part :: readHereParts fuel rest
    | none => .text ['$'] true :: readHereParts fuel rest
  | fuel + 1, '\x60' :: rest => match Text.splitFirst '\x60' rest with
    | some (source, rest) => .output source true :: readHereParts fuel rest
    | none => .text ['\x60'] true :: readHereParts fuel rest
  | fuel + 1, c :: rest => .text [c] true :: readHereParts fuel rest

/-- A here-document, and the source without its body. -/
def readHere (tabs : Bool) (cs : List Char) : Option (Redirection × List Char) := do
  let (word, rest) ← readWord (cs.length + 1)
    (cs.dropWhile fun c => c == ' ' || c == '\t')
  let delimiter ← literal? word
  -- the body starts on the next line; what follows the delimiter
  -- is still to be read
  let line := rest.takeWhile (· != '\n')
  let after := rest.drop (line.length + 1)
  let (body, after) := splitHere tabs delimiter (if after.isEmpty then []
      else Text.pieces '\n' after)
  let text := body.flatMap (· ++ ['\n'])
  let parts := if isQuoted word then [.text text true]
      else readHereParts (text.length + 1) text
  return (.hereDocument parts, line ++ '\n' :: List.intercalate ['\n'] after)

/-- A redirection at the start of a source, if there is one. -/
def readRedirection (cs : List Char) : Option (Option (Redirection × List Char)) :=
  let digits := cs.takeWhile Char.isDigit
  let given := if digits.isEmpty then none
      else some (digits.foldl (fun n c => n * 10 + (c.toNat - '0'.toNat)) 0)
  let target (make : Word → Redirection) (rest : List Char) : Option
      (Option (Redirection × List Char)) :=
    match readTilded (skipBlanks (rest.length + 1) rest) with
    -- a redirection needs a word to lead to
    | some ([], _) | none => none
    | some (word, rest) => some (some (make word, rest))
  match cs.drop digits.length with
  | '<' :: '<' :: '-' :: rest => (readHere true rest).map some
  | '<' :: '<' :: rest => (readHere false rest).map some
  | '<' :: '&' :: _ => none
  | '<' :: rest => target .input rest
  | '>' :: '>' :: rest => target (.append (given.getD 1)) rest
  | '>' :: '&' :: rest => target (.duplicate (given.getD 1)) rest
  | '>' :: '|' :: rest => target (.write (given.getD 1)) rest
  | '>' :: rest => target (.write (given.getD 1)) rest
  | _ => some none

/-- The redirections at the start of a source. -/
def readRedirections : (fuel : Nat) → List Char →
    Option (List Redirection × List Char)
  | 0, _ => none
  | fuel + 1, cs => do
    let cs := skipBlanks (cs.length + 1) cs
    match ← readRedirection cs with
    | none => return ([], cs)
    | some (r, rest) =>
      let (more, rest) ← readRedirections fuel rest
      return (r :: more, rest)

/-- A name and a value, for a word of the form `name=value`. -/
def assignment? (w : Word) : Option (String × Word) :=
  let name := (w.takeWhile fun | .text [c] false => isNameChar c | _ => false)
  match w.drop name.length with
  | .text ['='] false :: value => do
    let value := match value with
      | .text ['~'] false :: rest =>
        if rest.isEmpty || rest.head? == some (.text ['/'] false) then .variable
          "HOME" true :: rest else value
      | value => value
    let chars ← literal? name
    match chars with
    | c :: _ => if c.isDigit then none else some (String.ofList chars, value)
    | [] => none
  | _ => none

/-- The words and redirections of a simple command. -/
def readSimple : (fuel : Nat) → List Char →
    Option (List Word × List Redirection × List Char)
  | 0, _ => none
  | fuel + 1, cs => do
    let cs := skipBlanks (cs.length + 1) cs
    match ← readRedirection cs with
    | some (r, rest) =>
      let (words, rs, rest) ← readSimple fuel rest
      return (words, r :: rs, rest)
    | none => match cs with
      | [] => return ([], [], [])
      | c :: _ =>
        if endsWord c then return ([], [], cs)
        else
          let (word, rest) ← readTilded cs
          let (words, rs, rest) ← readSimple fuel rest
          return (word :: words, rs, rest)

/-- Splits off the assignments before the first other word. -/
def splitAssignments : List Word → List (String × Word) × List Word
  | [] => ([], [])
  | w :: ws => match assignment? w with
    | some a =>
      let (as, rest) := splitAssignments ws
      (a :: as, rest)
    | none => ([], w :: ws)

/-- The word at the start of a source, if it is one of the language's own. -/
def peekKeyword (cs : List Char) : String :=
  let word := cs.takeWhile fun c => !endsWord c
  String.ofList word

/-- Passes over a keyword. -/
def expect (word : String) (cs : List Char) : Option (List Char) :=
  if peekKeyword cs = word then some (cs.drop word.length) else none

/-- Passes over blanks, comments, line ends and semicolons. -/
def skipSeparators : (fuel : Nat) → List Char → List Char
  | 0, cs => cs
  | fuel + 1, cs =>
    match skipBlanks (cs.length + 1) cs with
    | ';' :: ';' :: rest => ';' :: ';' :: rest
    | '\n' :: rest | ';' :: rest => skipSeparators fuel rest
    | cs => cs

/-- Passes over blanks, comments and line ends. -/
def skipLines : (fuel : Nat) → List Char → List Char
  | 0, cs => cs
  | fuel + 1, cs =>
    match skipBlanks (cs.length + 1) cs with
    | '\n' :: rest => skipLines fuel rest
    | cs => cs

/-- Words that end a list of commands. -/
def closers : List String :=
  ["then", "else", "elif", "fi", "do", "done", "esac", "\x7d"]

/-- The patterns of a clause, up to the closing parenthesis. -/
def readPatterns : (fuel : Nat) → List Char → Option (List Word × List Char)
  | 0, _ => none
  | fuel + 1, cs => do
    let (word, rest) ← readWord (cs.length + 1) (skipBlanks (cs.length + 1) cs)
    match skipBlanks (rest.length + 1) rest with
    | '|' :: rest =>
      let (more, rest) ← readPatterns fuel rest
      return (word :: more, rest)
    | ')' :: rest => return ([word], rest)
    | _ => none

mutual
/-- The commands up to a closing word or parenthesis, over several lines. -/
def parseList : (fuel : Nat) → List Char → Option (Command × List Char)
  | 0, _ => none
  | fuel + 1, cs =>
    match skipSeparators (cs.length + 1) cs with
    | [] => some (.nothing, [])
    | cs =>
      if cs.head? == some ')' || cs.take 2 == [';', ';'] || peekKeyword cs ∈
        closers then some (.nothing, cs)
      else do
        let (first, rest) ← parseAndOr fuel cs
        -- `&&` has been read by now, so one `&` is left only for the background
        let (first, rest) := match skipBlanks (rest.length + 1) rest with
          | '&' :: more => (.background first, more)
          | more => (first, more)
        let (more, rest) ← parseList fuel rest
        return (match more with
          | .nothing => (first, rest)
          | more => (.sequence first more, rest))

/-- Pipelines joined by `&&` and `||`. -/
def parseAndOr : (fuel : Nat) → List Char → Option (Command × List Char)
  | 0, _ => none
  | fuel + 1, cs => do
    let (first, rest) ← parsePipeline fuel cs
    parseAndOrAfter fuel first rest

def parseAndOrAfter : (fuel : Nat) → Command → List Char →
    Option (Command × List Char)
  | 0, _, _ => none
  | fuel + 1, first, cs =>
    match skipBlanks (cs.length + 1) cs with
    | '&' :: '&' :: rest => do
      let (second, rest) ← parsePipeline fuel (skipLines (rest.length + 1) rest)
      parseAndOrAfter fuel (.both first second) rest
    | '|' :: '|' :: rest => do
      let (second, rest) ← parsePipeline fuel (skipLines (rest.length + 1) rest)
      parseAndOrAfter fuel (.either first second) rest
    | rest => some (first, rest)

/-- Commands joined by pipes. -/
def parsePipeline : (fuel : Nat) → List Char → Option (Command × List Char)
  | 0, _ => none
  | fuel + 1, cs => do
    let cs := skipBlanks (cs.length + 1) cs
    if peekKeyword cs = "!" then
      let (body, rest) ← parsePipeline fuel (cs.drop 1)
      return (.negate body, rest)
    let (first, rest) ← parseCommand fuel cs
    match skipBlanks (rest.length + 1) rest with
    -- `||` joins pipelines, not commands
    | '|' :: '|' :: more => return (first, '|' :: '|' :: more)
    | '|' :: more =>
      let (second, rest) ← parsePipeline fuel (skipLines (more.length + 1) more)
      return (.pipe first second, rest)
    | rest => return (first, rest)

/-- What follows the first condition of an `if`. -/
def parseBranches : (fuel : Nat) → List Char → Option (Command × List Char)
  | 0, _ => none
  | fuel + 1, cs => do
    let (condition, rest) ← parseList fuel cs
    let (yes, rest) ← parseList fuel (← expect "then" rest)
    match peekKeyword rest with
    | "elif" =>
      let (no, rest) ← parseBranches fuel (← expect "elif" rest)
      return (.branch condition yes no, rest)
    | "else" =>
      let (no, rest) ← parseList fuel (← expect "else" rest)
      return (.branch condition yes no, ← expect "fi" rest)
    | _ => return (.branch condition yes .nothing, ← expect "fi" rest)

/-- The clauses of a `case`, up to its end. -/
def parseClauses : (fuel : Nat) → List Char →
    Option (List (List Word × Command) × List Char)
  | 0, _ => none
  | fuel + 1, cs => do
    let cs := skipLines (cs.length + 1) cs
    match expect "esac" cs with
    | some rest => return ([], rest)
    | none =>
      let cs := if cs.head? == some '(' then cs.drop 1 else cs
      let (patterns, rest) ← readPatterns (cs.length + 1) cs
      let (body, rest) ← parseList fuel rest
      match rest with
      | ';' :: ';' :: rest =>
        let (more, rest) ← parseClauses fuel rest
        return ((patterns, body) :: more, rest)
      | rest => return ([(patterns, body)], ← expect "esac" rest)

/-- One command. -/
def parseCommand : (fuel : Nat) → List Char → Option (Command × List Char)
  | 0, _ => none
  | fuel + 1, cs => do
    let cs := skipBlanks (cs.length + 1) cs
    let word := peekKeyword cs
    let redirected (body : Command) (rest : List Char) : Option
        (Command × List Char) := do
      let (rs, rest) ← readRedirections (rest.length + 1) rest
      return (.group body rs, rest)
    if cs.head? == some '(' then
      let (body, rest) ← parseList fuel (cs.drop 1)
      match rest with
      | ')' :: rest =>
        let (rs, rest) ← readRedirections (rest.length + 1) rest
        return (.subshell body rs, rest)
      | _ => none
    else if word = "\x7b" then
      let (body, rest) ← parseList fuel (cs.drop 1)
      redirected body (← expect "\x7d" rest)
    else if word = "if" then
      let (body, rest) ← parseBranches fuel (cs.drop 2)
      redirected body rest
    else if word = "while" ∨ word = "until" then
      let (condition, rest) ← parseList fuel (cs.drop 5)
      let (body, rest) ← parseList fuel (← expect "do" rest)
      redirected (.loop (word = "while") condition body) (← expect "done" rest)
    else if word = "for" then
      let rest := skipBlanks (cs.length + 1) (cs.drop 3)
      let name := rest.takeWhile isNameChar
      let rest := skipBlanks (rest.length + 1) (rest.drop name.length)
      let (words, rest) ← match expect "in" rest with
        | some rest => do
          let (words, rs, rest) ← readSimple (rest.length + 1) rest
          if rs.isEmpty then pure (words, rest) else none
        -- without a list a loop goes over the arguments
        | none => pure ([[.variable "@" true]], rest)
      let rest := skipSeparators (rest.length + 1) rest
      let (body, rest) ← parseList fuel (← expect "do" rest)
      redirected (.each (String.ofList name) words body) (← expect "done" rest)
    else if word = "case" then
      let rest := skipBlanks (cs.length + 1) (cs.drop 4)
      let (subject, rest) ← readTilded rest
      let rest ← expect "in" (skipLines (rest.length + 1) rest)
      let (clauses, rest) ← parseClauses fuel rest
      redirected (.select subject clauses) rest
    -- a closing word without its opening one
    else if word ∈ closers then none
    else
      let (words, rs, rest) ← readSimple (cs.length + 1) cs
      -- an operator where a command should stand
      if words.isEmpty && rs.isEmpty then none
      else
        let (assignments, words) := splitAssignments words
        return (.simple assignments words rs, rest)
end

/-- The commands on the first line that holds any, and the source after it. -/
def parseLine (cs : List Char) : Option (Command × List Char) := do
  let fuel := 8 * cs.length + 16
  let cs := skipLines (cs.length + 1) cs
  if cs.isEmpty then return (.nothing, [])
  let rec more : (count : Nat) → List Char → Option (Command × List Char)
    | 0, _ => none
    | count + 1, cs => do
      let (first, rest) ← parseAndOr fuel cs
      let goOn (first : Command) (rest : List Char) : Option
          (Command × List Char) := do
        let rest := skipBlanks (rest.length + 1) rest
        if rest.isEmpty || rest.head? == some '\n' then return (first, rest.drop 1)
        else
          let (second, rest) ← more count rest
          return (.sequence first second, rest)
      match skipBlanks (rest.length + 1) rest with
      | [] => return (first, [])
      | '\n' :: rest => return (first, rest)
      | ';' :: rest => goOn first rest
      | '&' :: rest => goOn (.background first) rest
      | _ => none
  more (cs.length + 1) cs

end Playbook.Shell
