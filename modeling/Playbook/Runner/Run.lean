import Playbook.Runner.Module
import Playbook.Runner.Script

/-!
# Playbook — running and rebuilding runners

The leaves of a runner are module runners and script runners. A runner is built
from its description, and reloaded by reading the sources of its leaves again,
up to the first that fails.
-/

namespace Playbook

namespace Leaf

/-- Runs a leaf on arguments. -/
def run (ctx : Context) (calls : Calls) : Leaf → Args → Act Value
  | module r, args => r.run ctx calls args
  | script r, args => r.run ctx calls args

/-- Reads the sources of a leaf again. -/
def load (ctx : Context) : Leaf → Act Leaf
  | module r => module <$> r.load ctx
  | script r => script <$> r.load

/-- Reloads a leaf; one that fails stays as it is. -/
def reload (ctx : Context) (l : Leaf) : StateM World (Leaf × Option Failure) := do
  match ← (l.load ctx).run with
  | .ok l => return (l, none)
  | .error failure => return (l, some failure)

end Leaf

namespace Runner

mutual
/-- Builds the runner of a description. -/
def build (ctx : Context) : RunnerSpec → Act Runner
  | .module name identifier workdir =>
    (leaf ∘ .module) <$> ModuleRunner.build ctx name identifier workdir
  | .script name path shell parallel workdir =>
    (leaf ∘ .script) <$> ScriptRunner.build ctx name path shell parallel workdir
  | .sequence name actions => Act.within (.buildSequence name)
    (ofActions name <$> buildAll ctx actions)
termination_by structural s => s

def buildAll (ctx : Context) : List RunnerSpec → Act (List Runner)
  | [] => pure []
  | s :: ss => do
    let r ← build ctx s
    let rs ← buildAll ctx ss
    return r :: rs
termination_by structural ss => ss
end

/-- Reads the sources of all leaves again and gathers the variables
of sequences anew. -/
def reload (ctx : Context) (r : Runner) : StateM World (Runner × Option Failure) :=
  changeLeaves (Leaf.reload ctx) true r

end Runner

end Playbook
