import Playbook.Catalog
import Playbook.Computation.Run

/-!
# Playbook — module runners

A module runner passes its arguments to the computation under its identifier.
The required ones have to be there; others are passed on with a warning.
-/

namespace Playbook

namespace ModuleRunner

/-- The required variables that are not among the arguments. -/
def missing (required : Dict Binding) (args : Args) : List String :=
  required.keys.filter fun name => !args.contains name

/-- Looks up the computation of a runner and asks for its variables. -/
def load (ctx : Context) (r : ModuleRunner) : Act ModuleRunner := do
  let found ← Catalog.load r.identifier
  let required ← Catalog.required ctx r.identifier found.computation
  return { r with computation := found.computation, required }

/-- Builds a runner. Only a failure to find the computation is put into a frame. -/
def build (ctx : Context) (name identifier : String) (pinned : Option String) :
    Act ModuleRunner :=
  Act.within (.buildModule name) (load ctx {
    name, identifier, pinned
    workdir := pinned.getD "."
    required := []
    computation := default })

/-- Runs the computation of a runner. -/
def run (ctx : Context) (calls : Calls) (r : ModuleRunner) (args : Args) :
    Act Value := do
  match missing r.required args with
  | [] =>
    for name in args.keys do
      unless r.required.contains name do
        Act.warn "variable was not in requirements"
          [⟨"runner", r.name, false⟩, ⟨"variable", name, false⟩]
    Act.within (.computation r.identifier r.name)
      (r.computation.run ctx calls ⟨r.name, r.workdir⟩ args)
  | names => Act.fail (.missingArguments r.name names)

end ModuleRunner

end Playbook
