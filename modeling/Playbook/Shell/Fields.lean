import Playbook.Disk
import Playbook.Path

/-!
# Playbook — the fields of a command

Expanding the words of a command gives marked characters: each knows whether it
was quoted. Text that comes out of an unquoted variable or command is cut at
blanks, and a field with an unquoted `*`, `?` or bracket stands for the files
that it matches, sorted, if there are any.
-/

namespace Playbook.Shell

/-- A character and whether it was quoted. -/
abbrev Marked := Char × Bool

/-- What a part of a word expands to. -/
inductive Expansion where
  /-- Characters that stay together. -/
  | whole (cs : List Marked)
  /-- Unquoted characters, to be cut at blanks. -/
  | split (cs : List Char)
  /-- One field for every text; the first and the last join what
  stands beside them. -/
  | each (texts : List String)
deriving Inhabited, Repr

/-- The marked characters of a part where nothing is cut. -/
def Expansion.marked : Expansion → List Marked
  | .whole cs => cs
  | .split cs => cs.map (·, false)
  | .each texts => (Text.join " " texts).toList.map (·, true)

namespace Fields

/-- Finished fields, the last one first, and the field that is being built. -/
structure Building where
  finished : List (List Marked) := []
  current : Option (List Marked) := none

def Building.add (b : Building) (cs : List Marked) : Building :=
  { b with current := some (b.current.getD [] ++ cs) }

def Building.close (b : Building) : Building :=
  match b.current with
  | none => b
  | some field => { finished := field :: b.finished, current := none }

def quoteAll (s : String) : List Marked := s.toList.map (·, true)

/-- Adds the fields of a list of texts. -/
def addEach (b : Building) : List String → Building
  | [] => b
  | [s] => b.add (quoteAll s)
  | s :: rest => addEach (b.add (quoteAll s)).close rest

def addExpansion (b : Building) : Expansion → Building
  | .whole cs => b.add cs
  | .split cs => cs.foldl (fun b c => if c ∈ [' ', '\t', '\n'] then b.close
    else b.add [(c, false)]) b
  | .each texts => addEach b texts

/-- The fields that the expanded parts of one word make. -/
def ofExpansions (parts : List Expansion) : List (List Marked) :=
  ((parts.foldl addExpansion {}).close.finished).reverse

/-- Shares a line out: every name gets a word of it, and the last
name what is left. -/
def share (blank : Char → Bool) : (names : List String) → List Char →
    List (String × String)
  | [], _ => []
  | [name], line =>
    let rest := (line.dropWhile blank).reverse.dropWhile blank
    [(name, String.ofList rest.reverse)]
  | name :: names, line =>
    let line := line.dropWhile blank
    let word := line.takeWhile (!blank ·)
    (name, String.ofList word) :: share blank names (line.drop word.length)

end Fields

/-- The characters without their marks. -/
def plainText (field : List Marked) : String := String.ofList (field.map (·.1))

/-- A character set such as `[a-z]` or `[!0]`, after its opening bracket: the
members, whether they are excluded, and what follows. -/
def readSet (pattern : List Marked) :
    Option (List (Char × Char) × Bool × List Marked) :=
  let (excluded, pattern) := match pattern with
    | ('!', false) :: rest => (true, rest)
    | rest => (false, rest)
  let rec members : List Marked → List (Char × Char) →
    Option (List (Char × Char) × List Marked)
    | [], _ => none
    | (']', false) :: rest, (r :: rs) => some (r :: rs, rest)
    | (a, _) :: ('-', false) :: (b, q) :: rest, rs =>
      if b = ']' ∧ !q then members (('-', true) :: (b, q) :: rest) ((a, a) :: rs)
      else members rest ((a, b) :: rs)
    | (a, _) :: rest, rs => members rest ((a, a) :: rs)
  termination_by p => p.length
  (members pattern []).map fun (rs, rest) => (rs, excluded, rest)

/-- Whether a name matches a pattern. -/
def matchesName : (fuel : Nat) → List Marked → List Char → Bool
  | 0, _, _ => false
  | _, [], name => name.isEmpty
  | fuel + 1, ('*', false) :: rest, name =>
    matchesName fuel rest name || (match name with
      | [] => false
      | _ :: more => matchesName fuel (('*', false) :: rest) more)
  | fuel + 1, (p, quoted) :: rest, name =>
    match name with
    | [] => false
    | c :: more =>
      if !quoted && p == '?' then matchesName fuel rest more
      else if !quoted && p == '[' then
        match readSet rest with
        | some (rs, excluded, rest) =>
          (rs.any fun (a, b) => a ≤ c && c ≤ b) !=
          excluded && matchesName fuel rest more
        | none => c == p && matchesName fuel rest more
      else c == p && matchesName fuel rest more

/-- Whether a pattern matches more than its own text. -/
def isPattern (field : List Marked) : Bool :=
  field.any fun (c, quoted) => !quoted && c ∈ ['*', '?', '[']

/-- The names in a directory, sorted. -/
def namesIn (disk : Disk) (place : Place) : List String :=
  let above := (List.range disk.cwd.length).map fun n => disk.cwd.take (n + 1)
  let names := (above ++ disk.entries.map (·.1)).filterMap fun p =>
    if p.length = place.length + 1 ∧ p.take place.length = place then p.getLast?
      else none
  names.mergeSort fun a b => a ≤ b

/-- The parts of a pattern between slashes. -/
def patternParts : List Marked → List (List Marked)
  | [] => [[]]
  | (c, q) :: rest =>
    if c = '/' then [] :: patternParts rest
    else match patternParts rest with
      | first :: more => ((c, q) :: first) :: more
      | [] => [[(c, q)]]

/-- The paths below `found` that match the parts of a pattern. -/
def matchingPaths (disk : Disk) (dir : String) :
    List (List Marked) → List String → List String
  | [], found => found
  | part :: parts, found =>
    let next := found.flatMap fun path =>
      if !isPattern part then [path ++ plainText part]
      else
        let place := match disk.lookup
            (Path.join dir (if path.isEmpty then "." else path)) with
          | .ok (place, .directory) => some place
          | _ => none
        match place with
        | none => []
        | some place => ((namesIn disk place).filter fun name =>
            (name.toList.head? != some '.' || part.head? ==
              some ('.', false) || part.head? == some ('.', true)) &&
              matchesName (part.length + name.length + 2) part name.toList).map
                (path ++ ·)
    if parts.isEmpty then matchingPaths disk dir parts next
    else matchingPaths disk dir parts (next.map (· ++ "/"))

/-- What a field stands for: the matching files, or itself. -/
def expandField (disk : Disk) (dir : String) (field : List Marked) : List String :=
  if !isPattern field then [plainText field]
  else
    let found :=
      (matchingPaths disk dir (patternParts field) [""]).filter fun path =>
      match disk.lookup (Path.join dir path) with
      | .ok _ => true
      | .error _ => false
    if found.isEmpty then [plainText field] else found

end Playbook.Shell
