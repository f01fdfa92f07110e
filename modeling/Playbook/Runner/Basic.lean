import Playbook.Computation
import Playbook.Definition.Runner
import Playbook.Prototype

/-!
# Playbook — runners

A runner does the work behind an action. A leaf calls a computation or runs the
script of a prototype; a sequence runs other runners one after the other over a
shared pool of arguments: each gets from the pool the variables that it
requires, and the mapping that it returns is written into the pool.

What a leaf does is a parameter of `Runner.run`, in any monad.
-/

namespace Playbook

/-- Calls a computation. -/
structure ModuleRunner where
  name : String
  identifier : String
  workdir : String
  /-- The working directory that its description names. -/
  pinned : Option String
  /-- The required variables by name. -/
  required : Dict Binding
  computation : Computation
deriving Inhabited

/-- Fills a prototype and runs it with a shell. -/
structure ScriptRunner where
  name : String
  path : String
  shell : String
  /-- The program that is launched: the shell, or the configured one in place of
  the default shell. -/
  launcher : String
  parallel : Bool
  workdir : String
  /-- The working directory that its description names. -/
  pinned : Option String
  prototype : Prototype
deriving Inhabited

/-- A runner that runs no others. -/
inductive Leaf where
  | module (r : ModuleRunner)
  | script (r : ScriptRunner)
deriving Inhabited

namespace Leaf

def name : Leaf → String
  | module r => r.name
  | script r => r.name

def workdir : Leaf → String
  | module r => r.workdir
  | script r => r.workdir

/-- The required variables by name. -/
def required : Leaf → Dict Binding
  | module r => r.required
  | script r => r.prototype.bindings

def toSpec : Leaf → RunnerSpec
  | module r => .module r.name r.identifier r.pinned
  | script r => .script r.name r.path r.shell r.parallel r.pinned

/-- The leaf with its own working directory, or else the given one. -/
def adopt (dir : String) : Leaf → Leaf
  | module r => if r.pinned.isSome then module r
    else module { r with workdir := dir }
  | script r => if r.pinned.isSome then script r
    else script { r with workdir := dir }

end Leaf

/-- A runner. A sequence knows the variables that it requires. -/
inductive Runner where
  | leaf (l : Leaf)
  | sequence (name : String) (actions : List Runner) (required : Dict Binding)
deriving Inhabited

namespace Runner

def name : Runner → String
  | leaf l => l.name
  | sequence name .. => name

/-- The required variables by name. -/
def required : Runner → Dict Binding
  | leaf l => l.required
  | sequence _ _ required => required

/-- Adds the variables that are not there yet. -/
def addRequired (found more : Dict Binding) : Dict Binding :=
  more.foldl (fun found entry => if found.contains entry.1 then found
    else found.insert entry.1 entry.2) found

/-- The variables that runners require together; the first to name
one says what it is. -/
def union (actions : List Runner) : Dict Binding :=
  actions.foldl (fun found action => addRequired found action.required) []

/-- A sequence of runners. -/
def ofActions (name : String) (actions : List Runner) :
    Runner := sequence name actions (union actions)

mutual
/-- The description of a runner. -/
def toSpec : Runner → RunnerSpec
  | leaf l => l.toSpec
  | sequence name actions _ => .sequence name (toSpecs actions)
termination_by structural r => r

def toSpecs : List Runner → List RunnerSpec
  | [] => []
  | r :: rs => toSpec r :: toSpecs rs
termination_by structural rs => rs
end

/-- The arguments that a runner requires, in the order in which it names them. -/
def project (required : Dict Binding) (pool : Args) : Args :=
  required.keys.filterMap fun key => (pool.get? key).map fun value => (key, value)

/-- The pool after a runner has returned. -/
def feed (pool : Args) (returned : Value) : Args :=
  match returned.mapping? with
  | some entries => pool.extend entries
  | none => pool

section Run

variable {m : Type → Type} [Monad m] (runLeaf : Leaf → Args → m Value)

mutual
/-- Runs a runner. -/
def run : Runner → Args → m Value
  | leaf l, args => runLeaf l args
  | sequence _ actions _, args => Value.ofMap <$> runActions actions args
termination_by structural r => r

/-- Runs runners one after the other and returns the pool they leave. -/
def runActions : List Runner → Args → m Args
  | [], pool => pure pool
  | r :: rs, pool => do
    let returned ← run r (project r.required pool)
    runActions rs (feed pool returned)
termination_by structural rs => rs
end

end Run

section Change

variable {m : Type → Type} [Monad m] (change : Leaf → m (Leaf × Option Failure))

mutual
/-- Changes the leaves one after the other up to the first that fails. The
variables of a sequence are gathered anew, if `gather` says so, after all its
leaves have been changed. -/
def changeLeaves (gather : Bool) : Runner → m (Runner × Option Failure)
  | leaf l => do
    let (l, failure) ← change l
    return (leaf l, failure)
  | sequence name actions required => do
    let (actions, failure) ← changeAll gather actions
    -- variables are gathered only from runners that have all been changed
    return (sequence name actions (if gather && failure.isNone then union
      actions else required), failure)
termination_by structural r => r

def changeAll (gather : Bool) : List Runner → m (List Runner × Option Failure)
  | [] => pure ([], none)
  | r :: rs => do
    match ← changeLeaves gather r with
    | (r, some failure) => return (r :: rs, some failure)
    | (r, none) =>
      let (rs, failure) ← changeAll gather rs
      return (r :: rs, failure)
termination_by structural rs => rs
end

end Change

/-- Gives a leaf a working directory, unless it has its own, and creates it. -/
def placeLeaf (dir : String) (l : Leaf) :
    StateM Disk (Leaf × Option Failure) := fun disk =>
  let l := l.adopt dir
  match disk.makeDirectories l.workdir with
  | (.ok (), disk) => ((l, none), disk)
  | (.error kind, disk) => ((l, some ⟨[.createWorkdir l.workdir], .io kind⟩), disk)

/-- Gives all leaves a working directory; one that cannot be created ends this. -/
def setWorkdir (dir : String) (r : Runner) :
    StateM Disk (Runner × Option Failure) :=
  changeLeaves (placeLeaf dir) false r

end Runner

end Playbook
