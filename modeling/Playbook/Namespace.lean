import Playbook.Definition.Step
import Playbook.Registry

/-!
# Playbook — the namespace of a run

Steps read and write named values. A path such as `a.b[0].c` leads from a named
value to what is inside it; a name that is written just like a path comes first.
`@name` stands for a registry item, `#path` for the value a path leads to, and
everything else for itself.
-/

namespace Playbook

/-- Named values in the order in which they were first written. -/
abbrev Namespace := Dict Value

namespace Namespace

/-- The indices among bracketed parts. Parts that are not a number and a closing
bracket do not count. -/
def readIndices (cs : List Char) : List Nat :=
  (Text.pieces '[' cs).filterMap fun part =>
    (Text.dropEnding? [']'] part).bind Text.readWord?

/-- A key and the indices behind it. -/
def splitIndices (segment : List Char) : List Char × List Nat :=
  (segment.takeWhile (· != '['), readIndices (segment.dropWhile (· != '[')))

/-- Follows the steps of a path from a value. -/
def follow (value : Value) : List String → Option Value
  | [] => some value
  | step :: rest => (value.child? step).bind fun inner => follow inner rest

/-- The steps that a segment behind the first one takes. -/
def segmentSteps (segment : List Char) : List String :=
  let (key, indices) := splitIndices segment
  (if key.isEmpty then [] else [String.ofList key]) ++ indices.map toString

/-- The segments of a path. -/
def segments (path : String) : List (List Char) :=
  (Text.pieces '.' (Text.trimChars path.toList)).filter fun segment =>
    !segment.isEmpty

/-- The value that a path leads to. -/
def lookup (n : Namespace) (path : String) : Option Value :=
  match n.get? path with
  | some value => some value
  | none =>
    match segments path with
    | [] => none
    | first :: rest =>
      let (root, indices) := splitIndices first
      (n.get? (String.ofList root)).bind fun value =>
        follow value (indices.map toString ++ rest.flatMap segmentSteps)

/-- A failed binding and the namespace it leaves, or the new namespace. -/
abbrev Bound := Except Failure Unit × Namespace

/-- Binds names to the values of a mapping, one after the other; each
value is taken out. -/
def bindKeys (n : Namespace) (entries : Dict Value) : List String → Bound
  | [] => (.ok (), n)
  | name :: names =>
    match entries.get? name with
    | none => (.error (Cause.outputBinding (.noKey name)), n)
    | some value => bindKeys (n.insert name value) (entries.erase name) names

/-- Writes a result as an output says. -/
def bind (n : Namespace) (output : OutputSpec) (value : Value) : Bound :=
  match output with
  | .name name => (.ok (), n.insert name value)
  | .names names =>
    match value.sequence? with
    | some items =>
      if items.length < names.length then
        (.error (Cause.outputBinding (.tooFew names.length items.length)), n)
      else (.ok (), Dict.extend n (names.zip items))
    | none =>
      match value.mapping? with
      | none => (.error (Cause.outputBinding .notACollection), n)
      | some entries => bindKeys n entries names
  | .copyDict false => (.ok (), n)
  | .copyDict true =>
    match value.mapping? with
    | none => (.error (Cause.outputBinding .notAMapping), n)
    | some entries => (.ok (), n.extend entries)

/-- What a token stands for. -/
def resolve (n : Namespace) (r : Registry) (token : Json) : Except Failure Value :=
  match token with
  | .str text =>
    match text.toList with
    | '@' :: name => (r.get (String.ofList name)).map Value.item
    | '#' :: path =>
      match n.lookup (String.ofList path) with
      | some value => .ok value
      | none => .error (Cause.resolution text)
    | _ => .ok (.json token)
  | other => .ok (.json other)

end Namespace

end Playbook
