import Playbook.Execution

/-!
# Playbook — running a playbook

The initial steps are run once, all of them, whether or not a stop is asked for
among them. The loop is then passed through again and again until it has been
told to stop; a pass ends at the step that stops it and then does not count.

How a step is executed is a parameter of the driver, in any monad that knows
whether the loop goes on.
-/

namespace Playbook

/-- What the driver of a playbook needs: to execute a step, to learn whether the
loop goes on, to count a pass, and to give up. -/
structure Driver (m : Type → Type) where
  execute : (phase : String) → (number : Nat) → Step → m Unit
  running : m Bool
  count : m Unit
  giveUp : m Unit

namespace Driver

variable {m : Type → Type} [Monad m] (d : Driver m)

/-- Executes all steps, the first one as the step with this number. -/
def all (phase : String) : (number : Nat) → List Step → m Unit
  | _, [] => pure ()
  | number, step :: steps => do
    d.execute phase number step
    all phase (number + 1) steps

/-- Executes steps as long as the loop goes on, and tells whether it still does. -/
def pass (phase : String) : (number : Nat) → List Step → m Bool
  | _, [] => d.running
  | number, step :: steps => do
    if ← d.running then
      d.execute phase number step
      pass phase (number + 1) steps
    else return false

/-- Passes through the loop until it is told to stop, at most `left` times. -/
def loop (body : List Step) : (left : Nat) → m Unit
  | 0 => do if ← d.running then d.giveUp
  | left + 1 => do
    if ← d.running then
      if ← d.pass "loop" 1 body then d.count
      loop body left
    else pure ()

/-- Runs a playbook. -/
def run (limit : Nat) (plan : Plan) : m Unit := do
  d.all "init" 1 plan.init
  match plan.body with
  | none => pure ()
  | some body => d.loop body limit

end Driver

namespace Session

/-- Executes the steps of a run. -/
def driver (ctx : Context) : Driver Stepping where
  execute phase number step :=
    Stepping.within (.step phase number step.kind) (step.execute ctx)
  running := do return (← get).run.running
  count := modify fun s =>
    { s with run := { s.run with iterations := s.run.iterations + 1 } }
  giveUp := Stepping.fail .endlessLoop

/-- Runs the playbook of a run from its current state. -/
def play (ctx : Context) : Stepping Unit := do
  let plan := (← get).run.plan
  (driver ctx).run ctx.host.horizon plan

end Session

end Playbook
