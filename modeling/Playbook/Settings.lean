import Playbook.Dict
import Playbook.Interval
import Playbook.Journal
import Playbook.Path

/-!
# Playbook — settings

How often sentinels are looked for and for how long, where exported files go and
which shell runs scripts are settings with defaults. They are read from
environment variables; a variable that holds nothing but blanks counts as
absent, and a duration that cannot be read is reported and ignored. A duration
that overflows ends the program.
-/

namespace Playbook

structure Settings where
  /-- Milliseconds between two looks at the sentinels. -/
  pollInterval : Nat := 10000
  /-- The bound on a wait in milliseconds; without one a wait may last forever. -/
  waitTimeout : Option Nat := none
  /-- Where exported files are written. -/
  exportDir : String := "./tmp"
  /-- Runs the scripts whose description names the default shell. -/
  defaultShell : String := "bash"
deriving DecidableEq, Inhabited, Repr

namespace Settings

/-- The trimmed value of a variable, unless it is blank. -/
def value? (env : Dict String) (name : String) : Option String :=
  (env.get? name).bind fun raw =>
    let value := Text.trim raw
    if value.isEmpty then none else some value

/-- The duration in a variable, and a warning if there is none that can be read.
There is no result where reading it ends the program. -/
def duration (env : Dict String) (name : String) :
    Option (Option Nat × List Event) :=
  match value? env name with
  | none => some (none, [])
  | some raw => match Interval.parse raw with
    | .duration ms => some (some ms, [])
    | .malformed =>
      some (none, [.warning "ignoring malformed duration"
        [⟨"variable", name, true⟩, ⟨"value", raw, false⟩]])
    | .overflow => none

/-- The home directory, or `~` itself if none is known. -/
def home (env : Dict String) : String :=
  match env.get? "HOME" with
  | some "" | none => "~"
  | some dir => dir

/-- Reads the settings from environment variables. There are none where reading
a duration ends the program; the warnings are those until then. -/
def ofEnvironment (env : Dict String) : Option Settings × List Event :=
  match duration env "KILN_POLL_INTERVAL" with
  | none => (none, [])
  | some (poll, pollEvents) =>
    match duration env "KILN_WAIT_TIMEOUT" with
    | none => (none, pollEvents)
    | some (timeout, timeoutEvents) =>
      let dir := (value? env "KILN_TMP" <|> value? env "TMP").map
          (Path.expandHome (home env))
      let defaults : Settings := {}
      (some {
        pollInterval := poll.getD defaults.pollInterval
        waitTimeout := timeout
        exportDir := dir.getD defaults.exportDir
        defaultShell := (value? env "KILN_SHELL").getD defaults.defaultShell },
        pollEvents ++ timeoutEvents)

end Settings

end Playbook
