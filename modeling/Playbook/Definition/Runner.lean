import Playbook.Json.Decode

/-!
# Playbook — descriptions of runners

A runner is described by its kind, the action name it is registered under, and
what the kind needs: the identifier of a computation, the path of a script
prototype with its shell, or a list of runners to be run one after the other. A
runner is built from its description and saved as the same description.
-/

namespace Playbook

/-- The description of a runner. -/
inductive RunnerSpec where
  /-- Calls a computation. -/
  | module (name identifier : String) (workdir : Option String)
  /-- Fills a script prototype and runs it with a shell. -/
  | script (name path shell : String) (parallel : Bool) (workdir : Option String)
  /-- Runs other runners in order. -/
  | sequence (name : String) (actions : List RunnerSpec)
deriving Inhabited, Repr

namespace RunnerSpec

/-- The action name. -/
def name : RunnerSpec → String
  | module name .. | script name .. | sequence name .. => name

/-- The word for the kind. -/
def kind : RunnerSpec → String
  | module .. => "module"
  | script .. => "script"
  | sequence .. => "sequence"

/-- The shell of a script whose description names none. -/
def defaultShell : String := "bash"

/-- The field for an optional working directory: left out when there is none. -/
def workdirField : Option String → List (String × Json)
  | none => []
  | some dir => [("workdir", .str dir)]

mutual
/-- The description as data. -/
def encode : RunnerSpec → Json
  | module name identifier workdir =>
    .obj ([("runner", .str "module"), ("name", .str name),
      ("module", .str identifier)] ++ workdirField workdir)
  | script name path shell parallel workdir =>
    .obj ([("runner", .str "script"), ("name", .str name), ("path", .str path),
      ("shell", .str shell),
      ("parallel", .bool parallel)] ++ workdirField workdir)
  | sequence name actions =>
    .obj [("runner", .str "sequence"), ("name", .str name),
      ("actions", .arr (encodeList actions))]
termination_by structural s => s

def encodeList : List RunnerSpec → List Json
  | [] => []
  | x :: xs => encode x :: encodeList xs
termination_by structural xs => xs
end

/-- The three kinds. -/
def kinds : List String := ["module", "script", "sequence"]

/-- Separates the word for the kind from the other fields, which are
settled as they come. -/
def splitKind : Option String → List (String × Draft) →
    Except Fault (Option String × List (String × Draft))
  | tag, [] => .ok (tag, [])
  | tag, (key, value) :: rest =>
    if key = "runner" then
      match tag with
      | some _ => .error (.duplicateField "runner")
      | none => do
        let word ← value.text
        if word ∈ kinds then splitKind (some word) rest
          else .error (.unknownVariant word kinds)
    else do
      let value ← value.settle
      let (tag, fields) ← splitKind tag rest
      return (tag, (key, value) :: fields)

/-- The kind and the record of the other fields. -/
def splitDraft : Draft → Except Fault (String × Draft)
  | .arr [] => .error (.missingField "runner")
  | .arr (head :: rest) => do
    let word ← head.text
    if word ∈ kinds then return (word, .arr (← Draft.settleItems rest))
      else .error (.unknownVariant word kinds)
  | d => do
    let fields ← match d with
      | .obj fields => pure fields
      | d => .error d.mismatch
    match ← splitKind none fields with
    | (some word, fields) => return (word, .obj fields)
    | (none, _) => .error (.missingField "runner")

/-- The fields that any kind may have, before they are put together. -/
structure Parts where
  name : String := ""
  target : String := ""
  shell : String := defaultShell
  parallel : Bool := false
  workdir : Option String := none
  actions : List RunnerSpec := []

/-- Reads a description whose containers are nested less deeply than `depth`. -/
def decodeWithin : (depth : Nat) → Draft → Except Fault RunnerSpec
  | 0, d => .error d.mismatch
  | depth + 1, d => do
    let (word, body) ← splitDraft d
    if word = "module" then
      let parts ← body.record [["name"], ["module"], ["workdir"]] [0, 1] {}
          fun (parts : Parts) i value =>
        match i with
        | 0 => return { parts with name := ← value.text }
        | 1 => return { parts with target := ← value.text }
        | _ => return { parts with workdir := ← value.optional Draft.text }
      return .module parts.name parts.target parts.workdir
    else if word = "script" then
      let names := [["name"], ["path"], ["shell"], ["parallel"], ["workdir"]]
      let parts ← body.record names [0, 1] {} fun (parts : Parts) i value =>
        match i with
        | 0 => return { parts with name := ← value.text }
        | 1 => return { parts with target := ← value.text }
        | 2 => return { parts with shell := ← value.text }
        | 3 => return { parts with parallel := ← value.truth }
        | _ => return { parts with workdir := ← value.optional Draft.text }
      return .script parts.name parts.target parts.shell
        parts.parallel parts.workdir
    else
      let parts ← body.record [["name"], ["actions"]] [0] {}
          fun (parts : Parts) i value =>
        match i with
        | 0 => return { parts with name := ← value.text }
        | _ => return { parts with actions := ← value.listOf (decodeWithin depth) }
      return .sequence parts.name parts.actions

/-- Reads a description. -/
def decode (d : Draft) : Except Fault RunnerSpec := decodeWithin (d.depth + 1) d

end RunnerSpec

end Playbook
