import Playbook.Calls
import Playbook.Sentinel

/-!
# Playbook — script runners

A script runner fills its prototype with the texts of its arguments, writes the
result to a new file and starts it with a shell. The path of a sentinel is one
of the arguments; the run ends when the sentinel is there. If a variable drives
a batch, there is a job for each of its elements, with a sentinel and output
files of its own: all jobs are started before the first is waited for, and every
job that was started is awaited, after being killed if the batch is given up.

Items among the arguments are exported to files, whose paths stand for them.
These files and the scripts are removed at the end of the run.
-/

namespace Playbook.ScriptRunner

/-- Nested lists as one text with blanks between the parts. -/
def jsonText : Json → String
  | .arr items => Text.join " " (jsonTexts items)
  | other => (Value.json other).displayText
where
  jsonTexts : List Json → List String
    | [] => []
    | x :: xs => jsonText x :: jsonTexts xs

mutual
/-- The text of a value in a script, with every item exported in a format. -/
def renderValue (calls : Calls) (format : String) : Value → Act String
  | .item h => calls.exportItem h format
  | .list items => Text.join " " <$> renderValues calls format items
  | .json j => pure (jsonText j)
  | .map entries => pure (Value.map entries).displayText
termination_by structural v => v

def renderValues (calls : Calls) (format : String) : List Value → Act (List String)
  | [] => pure []
  | x :: xs => do
    let x ← renderValue calls format x
    let xs ← renderValues calls format xs
    return x :: xs
termination_by structural vs => vs
end

/-- Gives every variable that names a file made by the job a new path. -/
def nameFiles (dir : String) : List Binding → Args → Act Args
  | [], args => pure args
  | b :: bs, args => do
    let path ← Act.uniquePath dir b.name "npz"
    nameFiles dir bs (args.insert b.name (.ofText path))

/-- Checks that no variable is missing, and warns of arguments that no
placeholder uses. -/
def validate (r : ScriptRunner) (args : Args) : Act Unit := do
  match r.prototype.bindings.keys.filter fun name => !args.contains name with
  | [] =>
    for name in args.keys do
      unless r.prototype.bindings.contains name do
        Act.warn "argument is not used by the prototype"
          [⟨"runner", r.name, false⟩, ⟨"variable", name, false⟩]
  | missing => Act.fail (.missingArguments r.name missing)

/-- The texts of the arguments that all jobs share, in the order
of the arguments. -/
def renderShared (calls : Calls) (bindings : Dict Binding) :
    Args → Act (Dict String)
  | [] => pure []
  | (name, value) :: rest => do
    match bindings.get? name with
    | none => renderShared calls bindings rest
    | some b =>
      -- each job of a batch has an element of its own here
      if b.isArray then renderShared calls bindings rest
      else
        let text ← renderValue calls b.role.exportFormat value
        let texts ← renderShared calls bindings rest
        return (name, text) :: texts

/-- Writes a script and returns its path. -/
def writeScript (r : ScriptRunner) (texts : Dict String) : Act String := do
  Act.within (.createWorkdir r.workdir)
    (Act.onDisk (Store.makeDirectories r.workdir))
  let path ← Act.uniquePath r.workdir r.name "sh"
  Act.within (.writeScript path)
    (Act.onDisk
      (Store.change .io (·.write path (.text (r.prototype.render texts)))))
  Act.track path
  return path

/-- A detail that tells which runner warns. -/
def runnerField (r : ScriptRunner) : Field := ⟨"runner", r.name, false⟩

/-- Runs the only job of a call. -/
def runSingle (ctx : Context) (r : ScriptRunner) (args : Args)
    (texts : Dict String) (sentinel : String) :
    Act Value := do
  let script ← writeScript r texts
  match ← Act.launch ctx { program := r.launcher, arguments := [script] } with
  | .error kind => throw ⟨[.launch r.launcher r.name], .io kind⟩
  | .ok (job, outcome) =>
    Act.print outcome.output
    Act.note (.awaited job)
    unless outcome.status.isSuccess do
      Act.warn "script exited unsuccessfully"
        [r.runnerField, ⟨"status", outcome.status.text, false⟩]
  -- the exit code does not end the run, only the sentinel does
  Sentinel.waitAll ctx [sentinel]
  return .ofMap (r.prototype.outputs.filterMap fun b =>
    (args.get? b.name).map fun value => (b.name, value))

/-- A job of a batch that was started. -/
structure Element where
  job : Nat
  status : Status
  sentinel : String
  /-- The arguments with the element and its own paths. -/
  args : Args
deriving Inhabited

/-- The path in an argument with the index of an element. -/
def indexedPath (args : Args) (name : String) (index : Nat) : String :=
  Path.withIndex (((args.get? name).map Value.displayText).getD "") index

/-- The arguments of an element: its sentinel, its output files and itself. -/
def elementArgs (r : ScriptRunner) (variableName : String) (args : Args)
    (index : Nat) (element : Value) : Args :=
  let start := args.insert Prototype.touchfile
      (.ofText (indexedPath args Prototype.touchfile index))
  (r.prototype.fileOutputs.foldl (fun acc b =>
    acc.insert b.name (.ofText (indexedPath args b.name index)))
    start).insert variableName element

/-- The texts of an element, whose own text is given. -/
def elementTexts (r : ScriptRunner) (variableName : String) (args : Args)
    (shared : Dict String) (index : Nat) (text : String) : Dict String :=
  let start := shared.insert Prototype.touchfile
      (indexedPath args Prototype.touchfile index)
  (r.prototype.fileOutputs.foldl (fun acc b =>
    acc.insert b.name (indexedPath args b.name index))
    start).insert variableName text

/-- Starts the job of an element. -/
def launchElement (ctx : Context) (calls : Calls) (r : ScriptRunner)
    (b : Binding) (args : Args) (shared : Dict String) (index : Nat)
    (element : Value) : Act Element := do
  let text ← renderValue calls b.role.exportFormat element
  let script ← writeScript r (elementTexts r b.name args shared index text)
  match ← Act.launch ctx { program := r.launcher, arguments := [script] } with
  | .error kind => throw ⟨[.launchElement index r.name], .io kind⟩
  | .ok (job, outcome) =>
    Act.print outcome.output
    return { job
             status := outcome.status
             sentinel := indexedPath args Prototype.touchfile index
             args := elementArgs r b.name args index element }

/-- Starts the jobs of elements up to the first that cannot be started, whose
failure is returned too. -/
def launchAll (launch : Nat → Value → Act Element) : (index : Nat) → List Value →
    Act (List Element × Option Failure)
  | _, [] => pure ([], none)
  | index, x :: xs => do
    -- the jobs before it are running, so the caller has to learn of them too
    match ← Act.attempt (launch index x) with
    | .error failure => return ([], some failure)
    | .ok element =>
      let (elements, failure) ← launchAll launch (index + 1) xs
      return (element :: elements, failure)

/-- Awaits the jobs of a batch; those of a batch that is given up
are killed before. -/
def reap (r : ScriptRunner) (kill : Bool) : List Element → Act Unit
  | [] => if kill then Act.warn
    "array batch aborted, launched elements terminated" [r.runnerField]
    else pure ()
  | element :: rest => do
    if kill then Act.note (.killed element.job)
    Act.note (.awaited element.job)
    -- how a killed job ended is not worth a warning
    unless kill || element.status.isSuccess do
      Act.warn "array element exited unsuccessfully"
        [r.runnerField, ⟨"status", element.status.text, false⟩]
    reap r kill rest

/-- The values that a batch returns: for each output the list of its
values by element. -/
def batchOutputs (r : ScriptRunner) (elements : List Element) : Args :=
  r.prototype.outputs.map fun b =>
    (b.name, .ofList (elements.map fun element =>
      (element.args.get? b.name).getD .null))

/-- Runs a job for each element of a list. -/
def runArray (ctx : Context) (calls : Calls) (r : ScriptRunner) (b : Binding)
    (args : Args) (shared : Dict String) : Act Value := do
  match (args.get? b.name).bind Value.sequence? with
  | none => Act.fail (.arrayNotAList b.name r.name)
  | some values =>
    match ← launchAll (launchElement ctx calls r b args shared) 0 values with
    -- the batch is given up: what was started is killed and awaited
    | (elements, some failure) =>
      reap r true elements
      throw failure
    | (elements, none) =>
      match ← Act.attempt (Sentinel.waitAll ctx (elements.map (·.sentinel))) with
      | .error failure =>
        reap r true elements
        throw failure
      | .ok () =>
        reap r false elements
        return .ofMap (batchOutputs r elements)

/-- Runs the prototype on arguments. -/
def run (ctx : Context) (calls : Calls) (r : ScriptRunner) (args : Args) :
    Act Value := Act.cleaning do
  let sentinel ← Act.uniquePath r.workdir "" "ended"
  let args ← nameFiles r.workdir r.prototype.fileOutputs
    (args.insert Prototype.touchfile (.ofText sentinel))
  validate r args
  let shared ← renderShared calls r.prototype.bindings args
  match r.prototype.arrayVariable.bind r.prototype.bindings.get? with
  | none => runSingle ctx r args shared sentinel
  | some b => runArray ctx calls r b args shared

/-- Reads the prototype of a runner. -/
def load (r : ScriptRunner) : Act ScriptRunner := do
  let prototype ← Act.fromDisk (Prototype.load r.path)
  return { r with prototype }

/-- Builds a runner. The configured shell takes the place of the default shell. -/
def build (ctx : Context) (name path shell : String) (parallel : Bool)
    (pinned : Option String) :
    Act ScriptRunner :=
  Act.within (.buildScript name) (load {
    name, path, shell, parallel, pinned
    launcher := if shell =
      RunnerSpec.defaultShell then ctx.settings.defaultShell else shell
    workdir := pinned.getD "."
    prototype := default })

end Playbook.ScriptRunner
