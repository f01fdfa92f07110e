import Playbook.Definition.Timestamp
import Playbook.Disk

/-!
# Playbook — the host

Runners start programs and wait for files that programs make. What a started
program does to the disk, how it ends, what other programs do while the engine
waits, and the time that passes are the host's: a `Host` answers these
questions, and everything else in this library is decided by the library.
Statements about runs are statements about every host.

A program runs from its start to its end; how it ended is looked
at when it is awaited.
-/

namespace Playbook

/-- A program to be started. -/
structure Launch where
  program : String
  arguments : List String
  /-- What it can read. -/
  input : String := ""
  /-- Environment variables that are set for it. -/
  environment : Dict String := []
deriving DecidableEq, Inhabited, Repr

/-- What a program leaves. -/
structure Outcome where
  status : Status
  output : String := ""
  errors : String := ""
  disk : Disk
  /-- Why its input could not be written to its end. -/
  unsent : Option IoKind := none
deriving Inhabited

/-- The surroundings of a run. -/
structure Host where
  /-- Runs a program as the job with this number, or refuses to. -/
  start : (job : Nat) → Launch → Disk → Except IoKind Outcome
  /-- What happens to the disk and to the request to stop waiting before a look
  at the sentinels. -/
  meanwhile : (look : Nat) → Disk × Bool → Disk × Bool := fun _ state => state
  /-- The milliseconds that a wait has lasted at a look. -/
  elapsed : (look : Nat) → Nat
  /-- How many looks are taken, and passes of a loop made, before a wait or loop
  counts as endless. -/
  horizon : Nat
  /-- The current instant. -/
  now : Timestamp := default

end Playbook
