import Playbook.World

/-!
# Playbook — the catalog of computations

Computations are known by identifiers. An identifier under which nothing is
registered but which is the path of a file stands for the program in that file;
it is registered when it is first asked for, so that the same identifier always
gives the same computation.
-/

namespace Playbook.Catalog

/-- The computation under an identifier. -/
def load (identifier : String) : Act Registered := fun w =>
  match w.catalog.get? identifier with
  | some found => (.ok found, w)
  | none =>
    if w.disk.isFile identifier then
      let computation := Computation.external identifier
      (.ok ⟨w.instances, computation⟩, w.register identifier computation)
    else (.error (Cause.configuration identifier .noComputation), w)

/-- The identifiers in order. -/
def identifiers (w : World) : List String :=
  w.catalog.keys.mergeSort fun a b => a ≤ b

/-- The variables that the answer of a program to the question for its
requirements names. -/
def requirementsOf (answer : String) : Option (List String) := do
  let json ← match Draft.ofJsonText answer with
    | (draft, true) => draft.toJson.toOption
    | (_, false) => none
  let list ← match json with
    | .obj fields => Dict.get? fields "variables"
    | other => some other
  return (← list.arr?).filterMap Json.str?

/-- Asks a computation for the variables that it requires. -/
def requirements (ctx : Context) : Computation → Act (Option (List String))
  | .native requirements _ => pure requirements
  | .external program => do
    match ← Act.launch ctx { program, arguments := ["requires"] } with
    | .error kind =>
      Act.warn "could not query requirements"
        [⟨"executable", program, false⟩, .ofIo kind]
      return none
    | .ok (job, outcome) =>
      Act.note (.awaited job)
      return if outcome.status.isSuccess then requirementsOf outcome.output
        else none

/-- The variables that a computation requires, by name; one that declares none
requires none. -/
def required (ctx : Context) (identifier : String) (c : Computation) :
    Act (Dict Binding) := do
  match ← requirements ctx c with
  | none =>
    Act.warn "computation declares no requirements, assuming none"
      [⟨"module", identifier, false⟩]
    return []
  | some tokens => return Prototype.index (tokens.map Binding.parse)

end Playbook.Catalog
