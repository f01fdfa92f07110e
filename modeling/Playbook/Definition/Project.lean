import Playbook.Definition.Runner
import Playbook.Definition.Step
import Playbook.Definition.Timestamp

/-!
# Playbook — descriptions of projects

A project names a working directory, databases and algorithms, and the playbook
that drives them. The saved state of a registry has the same databases and
algorithms with their current contents, and the instant of saving.
-/

namespace Playbook

/-- The description of a database: its columns, what it exports, and possibly
its contents. -/
structure DatabaseSpec where
  name : String
  /-- Descriptions of the columns that are written when an entry is added; each
  has at least a name. -/
  variableSpecs : List Json := []
  /-- Further columns, which may be written later. -/
  storages : List String := []
  /-- The columns that each export writes. -/
  exporters : Dict (List String) := []
  /-- For each column the values by entry. -/
  data : Dict (Dict Json) := []
deriving DecidableEq, Inhabited, Repr

namespace DatabaseSpec

/-- The names of the variables. -/
def variableNames (s : DatabaseSpec) : List String :=
  s.variableSpecs.filterMap fun v => (v.field? "name").bind Json.str?

/-- The description as data. Without columns the contents are left out. -/
def encode (s : DatabaseSpec) : Json :=
  .obj ([("name", .str s.name), ("variables", .arr s.variableSpecs),
    ("storages", .ofStrings s.storages),
    ("exporters", .obj (s.exporters.mapValues Json.ofStrings))] ++
    if s.data.isEmpty then [] else [("_data", .obj (s.data.mapValues Json.obj))])

def decode (d : Draft) : Except Fault DatabaseSpec :=
  d.record [["name"], ["variables"], ["storages", "storage"], ["exporters"],
    ["_data"]] [0] { name := "" }
    fun (spec : DatabaseSpec) i value =>
      match i with
      | 0 => return { spec with name := ← value.text }
      | 1 => return { spec with variableSpecs := ← value.listOf Draft.toJson }
      | 2 => return { spec with storages := ← value.listOf Draft.text }
      | 3 =>
        return { spec with exporters := ← value.dictOf (Draft.listOf Draft.text) }
      | _ => return { spec with data := ← value.dictOf (Draft.dictOf Draft.toJson) }

end DatabaseSpec

/-- The description of an algorithm: its runners and the defaults
of their arguments. -/
structure AlgorithmSpec where
  name : String
  actions : List RunnerSpec := []
  config : Dict Json := []
  /-- A working directory of its own. -/
  workdir : Option String := none
deriving Inhabited, Repr

namespace AlgorithmSpec

def encode (s : AlgorithmSpec) : Json :=
  .obj ([("name", .str s.name),
      ("actions", .arr (RunnerSpec.encodeList s.actions)),
      ("config", .obj s.config)] ++
    RunnerSpec.workdirField s.workdir)

def decode (d : Draft) : Except Fault AlgorithmSpec :=
  d.record [["name"], ["actions"], ["config"], ["workdir"]] [0] { name := "" }
    fun (spec : AlgorithmSpec) i value =>
      match i with
      | 0 => return { spec with name := ← value.text }
      | 1 => return { spec with actions := ← value.listOf RunnerSpec.decode }
      | 2 => return { spec with config := ← value.dictOf Draft.toJson }
      | _ => return { spec with workdir := ← value.optional Draft.text }

end AlgorithmSpec

/-- The description of a project. -/
structure ProjectSpec where
  workdir : String := "."
  datasets : List DatabaseSpec := []
  algorithms : List AlgorithmSpec := []
  plan : Plan := {}
deriving Inhabited, Repr

namespace ProjectSpec

def encode (s : ProjectSpec) : Json :=
  .obj [("workdir", .str s.workdir),
    ("datasets", .arr (s.datasets.map DatabaseSpec.encode)),
    ("algorithms", .arr (s.algorithms.map AlgorithmSpec.encode)),
    ("playbook", s.plan.encode)]

def decode (d : Draft) : Except Fault ProjectSpec :=
  d.record [["workdir"], ["datasets"], ["algorithms"], ["playbook"]] [] {}
    fun (spec : ProjectSpec) i value =>
    match i with
    | 0 => return { spec with workdir := ← value.text }
    | 1 => return { spec with datasets := ← value.listOf DatabaseSpec.decode }
    | 2 => return { spec with algorithms := ← value.listOf AlgorithmSpec.decode }
    | _ => return { spec with plan := ← Plan.decode value }

end ProjectSpec

/-- The saved state of a registry. -/
structure Snapshot where
  workdir : String
  savedAt : Timestamp
  datasets : List DatabaseSpec := []
  algorithms : List AlgorithmSpec := []
deriving Inhabited, Repr

namespace Snapshot

def encode (s : Snapshot) : Json :=
  .obj [("workdir", .str s.workdir), ("saved_at", .str s.savedAt.text),
    ("datasets", .arr (s.datasets.map DatabaseSpec.encode)),
    ("algorithms", .arr (s.algorithms.map AlgorithmSpec.encode))]

/-- Reads an instant. -/
def decodeTimestamp (d : Draft) : Except Fault Timestamp := do
  match Timestamp.parse? (← d.text) with
  | some t => return t
  | none => .error .wrongShape

def decode (d : Draft) : Except Fault Snapshot :=
  d.record [["workdir"], ["saved_at"], ["datasets"], ["algorithms"]] [0, 1]
    { workdir := "", savedAt := default }
    fun (spec : Snapshot) i value =>
      match i with
      | 0 => return { spec with workdir := ← value.text }
      | 1 => return { spec with savedAt := ← decodeTimestamp value }
      | 2 => return { spec with datasets := ← value.listOf DatabaseSpec.decode }
      | _ => return { spec with algorithms := ← value.listOf AlgorithmSpec.decode }

/-- The project that a saved state resumes; its playbook is empty. -/
def toProject (s : Snapshot) : ProjectSpec :=
  { workdir := s.workdir, datasets := s.datasets, algorithms := s.algorithms }

end Snapshot

end Playbook
