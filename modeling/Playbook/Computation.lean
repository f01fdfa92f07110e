import Playbook.Decimal.Double
import Playbook.Value
import Playbook.Failure

/-!
# Playbook — computations

A computation works on arguments. One that is part of the program is a
`Program`: it ends with a value or a failure, or asks something of a registry
item and goes on with the answer. Every other computation is a program file that
is started and spoken to in JSON.

A computation names the variables that it needs, or declares none at all.
-/

namespace Playbook

/-- What can be asked of a registry item. Every request is answered by a value. -/
inductive Request where
  /-- Runs an action. -/
  | action (name : String) (args : Args)
  /-- Writes the item to a file in a format; answers its path. -/
  | exportAs (format : String)
  /-- Writes the state of the item; answers the path. -/
  | serialize (format : String) (path : Option String)
  | updateEntries (entries : List String) (values : Args)
  | clear
  | merge (source : Handle)
  | state
  | reload
  | workdir
  | setWorkdir (path : String)
  | isDatabase
deriving Inhabited

/-- A computation in progress. -/
inductive Program where
  | done (value : Value)
  | fail (failure : Failure)
  /-- Asks an item and goes on with what came of it. -/
  | ask (item : Handle) (request : Request) (next : Except Failure Value → Program)

/-- The runner that a computation works for. -/
structure Site where
  runner : String
  workdir : String
deriving DecidableEq, Inhabited, Repr

/-- A computation. -/
inductive Computation where
  | native (requirements : Option (List String)) (body : Site → Args → Program)
  | external (program : String)

instance : Inhabited Computation := ⟨.external ""⟩

namespace Computation

/-- A computation that asks nothing of items. -/
def plain (requirements : Option (List String))
    (body : Args → Except Failure Value) : Computation :=
  native requirements fun _ args => match body args with
    | .ok value => .done value
    | .error failure => .fail failure

end Computation

end Playbook
