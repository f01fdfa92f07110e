import Playbook.Json.Decode

/-!
# Playbook — descriptions of playbooks

A playbook has initial steps, run once, and possibly a loop of steps, repeated
until one of them stops it. Of a step only its kind and the output of its result
are fixed; its other fields are kept as data and looked at when the step is run.
-/

namespace Playbook

/-- Where the result of a step goes. -/
inductive OutputSpec where
  /-- The whole result under one name. -/
  | name (name : String)
  /-- The items of a list result, or the named values of a mapping result. -/
  | names (names : List String)
  /-- Every entry of a mapping result, if the flag is set. -/
  | copyDict (enabled : Bool)
deriving DecidableEq, Inhabited, Repr

namespace OutputSpec

def encode : OutputSpec → Json
  | name n => .str n
  | names ns => .ofStrings ns
  | copyDict enabled => .obj [("copydict", .bool enabled)]

/-- Reads an output: a text, a list of texts, or a record with the flag. -/
def decode (d : Draft) : Except Fault OutputSpec := do
  match ← d.settle with
  | .str n => return name n
  | .arr items => return names (← items.mapM Draft.text)
  | .obj fields =>
    let flag ← (Draft.obj fields).record [["copydict"]] [0] false
      fun _ _ value => value.truth
    return copyDict flag
  | _ => .error .wrongShape

/-- Reads an output; whatever is wrong with its shape is one fault. -/
def decodeStrict (d : Draft) : Except Fault OutputSpec :=
  match decode d with
  | .error .malformed => .error .malformed
  | .error _ => .error .wrongShape
  | .ok output => .ok output

end OutputSpec

/-- One step of a playbook. -/
structure Step where
  kind : String
  output : Option OutputSpec
  fields : Dict Json
deriving DecidableEq, Inhabited, Repr

namespace Step

/-- A field. -/
def field? (s : Step) (key : String) : Option Json := s.fields.get? key

/-- A field that holds a text. -/
def text? (s : Step) (key : String) : Option String := (s.field? key).bind Json.str?

/-- The step as data: kind and output first. A field of the same name
takes their place. -/
def encode (s : Step) : Json :=
  .obj (Dict.ofList (("type", .str s.kind) :: (match s.output with
    | none => []
    | some output => [("output", output.encode)]) ++ s.fields))

/-- What has been read of a step. -/
structure Parts where
  kind : Option String := none
  output : Option (Option OutputSpec) := none
  fields : List (String × Draft) := []

/-- Reads one field of a step; the fields that are kept as data are
settled as they come. -/
def readField (parts : Parts) (entry : String × Draft) : Except Fault Parts :=
  if entry.1 = "type" then
    if parts.kind.isSome then .error (.duplicateField "type")
    else entry.2.text.map fun kind => { parts with kind := some kind }
  else if entry.1 = "output" then
    if parts.output.isSome then .error (.duplicateField "output")
    else (entry.2.optional OutputSpec.decodeStrict).map fun output =>
      { parts with output := some output }
  else entry.2.settle.map fun value =>
    { parts with fields := parts.fields ++ [(entry.1, value)] }

/-- Reads a step. -/
def decode (d : Draft) : Except Fault Step := do
  let parts ← (← d.fields).foldlM readField {}
  match parts.kind with
  | none => .error (.missingField "type")
  | some kind =>
    let fields ← Draft.toJsonFields parts.fields
    return { kind, output := parts.output.join, fields := Dict.ofList fields }

end Step

/-- The steps of a playbook. -/
structure Plan where
  init : List Step := []
  /-- The loop, if there is one. -/
  body : Option (List Step) := none
deriving DecidableEq, Inhabited, Repr

namespace Plan

def encode (p : Plan) : Json :=
  .obj (("init", .arr (p.init.map Step.encode)) :: match p.body with
    | none => []
    | some steps => [("loop", .arr (steps.map Step.encode))])

def decode (d : Draft) : Except Fault Plan :=
  d.record [["init"], ["loop"]] [] {} fun (plan : Plan) i value =>
    match i with
    | 0 => return { plan with init := ← value.listOf Step.decode }
    | _ => return { plan with body := ← value.optional (Draft.listOf Step.decode) }

end Plan

end Playbook
