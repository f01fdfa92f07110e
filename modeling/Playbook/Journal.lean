import Playbook.Definition.Step
import Playbook.Failure

/-!
# Playbook — the journal

What a run does besides its results is written into a journal: warnings and
errors with their fields, the messages of log steps, the steps that were
executed, and what happened to the programs that were started.
-/

namespace Playbook

/-- How serious an event is. -/
inductive Level where
  | info
  | warn
  | error
deriving DecidableEq, Inhabited, Repr

/-- A named detail of an event. -/
structure Field where
  name : String
  text : String
  /-- Whether the text is shown in quotes on a log line. -/
  quoted : Bool := false
deriving DecidableEq, Inhabited, Repr

/-- Something that happened. -/
inductive Event where
  | logged (level : Level) (message : String) (fields : List Field)
  /-- A step is about to be executed. -/
  | stepped (step : Step)
  /-- A program was started as the given job. -/
  | launched (job : Nat) (program : String) (arguments : List String)
  /-- A job was told to end. -/
  | killed (job : Nat)
  /-- The end of a job was awaited. -/
  | awaited (job : Nat)
deriving DecidableEq, Inhabited, Repr

namespace Event

def warning (message : String) (fields : List Field) :
    Event := logged .warn message fields

def trouble (message : String) (fields : List Field) :
    Event := logged .error message fields

end Event

/-- The text of an operating system failure in a field. -/
def Field.ofIo (kind : IoKind) : Field := ⟨"error", kind.systemText, false⟩

end Playbook
