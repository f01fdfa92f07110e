import Playbook.Calls

/-!
# Playbook — computations at work

A computation that is part of the program is run by answering what it asks. A
program file is started, gets its arguments as its input and prints its result;
the files that were exported for it are removed when it has ended.
-/

namespace Playbook

namespace Program

/-- Runs a computation in progress to its end. -/
def run (calls : Calls) : Program → Act Value
  | done value => pure value
  | fail failure => throw failure
  | ask h request next => do
    let answer ← Act.attempt (calls h request)
    (next answer).run calls

end Program

namespace Computation

/-- The environment variable that tells a program its working directory. -/
def workdirVariable : String := "KILN_WORKDIR"

/-- The value that a program printed. -/
def readOutput (program output : String) : Except Failure Value :=
  let text := Text.trim output
  if text.isEmpty then .ok .null
  else
    let (draft, atEnd) := Draft.ofJsonText text
    match draft.toJson, atEnd with
    | .ok json, true => .ok (.json json)
    | _, _ => .error ⟨[.readOutput program], .json .malformed⟩

/-- Runs a program on arguments. -/
def runExternal (ctx : Context) (calls : Calls) (program : String) (site : Site)
    (args : Args) : Act Value :=
  Act.cleaning do
    match ← Act.attempt (calls.toJsonEntries args) with
    | .error failure => Act.fail (.preparation program failure.report)
    | .ok fields =>
      let launched ← Act.launch ctx {
        program
        arguments := ["run"]
        input := (Json.obj fields).compact
        environment := [(workdirVariable, site.workdir)] }
      match launched with
      | .error kind => throw ⟨[.launchProgram program], .io kind⟩
      | .ok (job, outcome) =>
        -- a program that did not take its arguments is not awaited
        Act.check (outcome.unsent.map fun kind => ⟨[.sendArguments], .io kind⟩)
        Act.note (.awaited job)
        if outcome.status.isSuccess then liftM (readOutput program outcome.output)
        else Act.fail (.exit program outcome.status (Text.trim outcome.errors))

/-- Runs a computation on arguments. -/
def run (ctx : Context) (calls : Calls) (site : Site) (args : Args) :
    Computation → Act Value
  | native _ body => (body site args).run calls
  | external program => runExternal ctx calls program site args

end Computation

end Playbook
