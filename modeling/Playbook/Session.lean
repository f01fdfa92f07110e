import Playbook.Namespace

/-!
# Playbook — a run and its world

A run has a registry, a playbook, named values, and a loop that goes on until it
is told to stop. `Stepping` is a computation on a run and the world in which it
takes place; what it did before it failed stays done.
-/

namespace Playbook

/-- A playbook that is being run. -/
structure Run where
  registry : Registry
  plan : Plan
  values : Namespace := []
  /-- Whether the loop goes on. -/
  running : Bool := true
  /-- How often the whole loop has been passed. -/
  iterations : Nat := 0
deriving Inhabited

namespace Run

/-- Ends the loop if at least this many passes have been made. -/
def requestStop (r : Run) (loops : Nat) :
    Run := if loops ≤ r.iterations then { r with running := false } else r

end Run

/-- The world and the run in it. -/
structure Session where
  world : World
  run : Run
deriving Inhabited

/-- Computations of a run; what they did before they failed stays done. -/
abbrev Stepping := ExceptT Failure (StateM Session)

namespace Stepping

/-- Runs a computation on the world. -/
def act {α : Type} (body : Act α) : Stepping α := fun s =>
  let (result, world) := body.run s.world
  (result, { s with world })

/-- Fails with a cause. -/
def fail {α : Type} (cause : Cause) : Stepping α := throw ⟨[], cause⟩

/-- Puts the failures of a computation into a frame. -/
def within {α : Type} (frame : Frame) (body : Stepping α) : Stepping α := fun s =>
  let (result, s) := body.run s
  (result.mapError (Failure.within frame), s)

/-- What a token stands for. -/
def resolve (token : Json) : Stepping Value := do
  let s ← get
  liftM (s.run.values.resolve s.run.registry token)

/-- Asks an item. -/
def ask (ctx : Context) (h : Handle) (request : Request) :
    Stepping Value := act (Calls.all ctx h request)

end Stepping

end Playbook
