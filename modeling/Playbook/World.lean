import Playbook.Computation.Merit
import Playbook.Host
import Playbook.Item
import Playbook.Settings
import Playbook.Token

/-!
# Playbook — the world of a run

All that a run reads and changes is one value: the disk, the items with their
locks, the computations that are known, the journal, and how many names and jobs
have been handed out. `Act` is a computation on the world that may fail; what it
did before it failed stays done.

An item is locked while a request to it is carried out. A request to a locked
item is refused, so that no item is ever asked for something while it is
carrying out something else.
-/

namespace Playbook

/-- A computation that the catalog knows, with a number that
tells instances apart. -/
structure Registered where
  number : Nat
  computation : Computation
deriving Inhabited

/-- An item and whether it is carrying out a request. -/
structure Slot where
  item : Item
  locked : Bool := false
deriving Inhabited

/-- All that a run reads and changes. -/
structure World where
  disk : Disk
  /-- How many generated names have been handed out. -/
  tokens : Nat := 0
  /-- How many programs have been started. -/
  jobs : Nat := 0
  journal : Array Event := #[]
  slots : List Slot := []
  catalog : Dict Registered := []
  /-- How many computations have been registered. -/
  instances : Nat := 0
  /-- Whether waits are to end. -/
  cancelled : Bool := false
  /-- Files to be removed at the end of the call that made them,
  the last one first. -/
  generated : List String := []
  /-- What scripts have printed. -/
  printed : String := ""
deriving Inhabited

/-- What a run is given and does not change. -/
structure Context where
  settings : Settings
  host : Host
  /-- The home directory. -/
  home : String := "~"

/-- Computations on the world. -/
abbrev Act := ExceptT Failure (StateM World)

namespace World

/-- Registers a computation under an identifier. -/
def register (w : World) (identifier : String) (c : Computation) : World :=
  { w with
    catalog := w.catalog.insert identifier ⟨w.instances, c⟩
    instances := w.instances + 1 }

/-- Adds an item, and gives it a handle. -/
def addItem (w : World) (item : Item) : Handle × World :=
  (⟨item.name, w.slots.length⟩, { w with slots := w.slots ++ [⟨item, false⟩] })

/-- Whether an item is carrying out a request. -/
def isLocked (w : World) (slot : Nat) : Bool :=
  match w.slots[slot]? with
  | some s => s.locked
  | none => false

/-- Locks or unlocks an item. -/
def setLocked (w : World) (slot : Nat) (locked : Bool) : World :=
  { w with slots := w.slots.modify slot fun s => { s with locked } }

/-- Replaces an item. -/
def setItem (w : World) (slot : Nat) (item : Item) : World :=
  { w with slots := w.slots.modify slot fun s => { s with item } }

end World

namespace Act

/-- Fails with a cause. -/
def fail {α : Type} (cause : Cause) : Act α := throw ⟨[], cause⟩

/-- Writes an event into the journal. -/
def note (event : Event) : Act Unit := modify fun w =>
  { w with journal := w.journal.push event }

def warn (message : String) (fields : List Field) :
    Act Unit := note (.warning message fields)

/-- Puts the failures of a computation into a frame. -/
def within {α : Type} (frame : Frame) (body : Act α) : Act α := fun w =>
  let (result, w) := body.run w
  (result.mapError (Failure.within frame), w)

/-- Runs a computation and takes its failure for a value. -/
def attempt {α : Type} (body : Act α) : Act (Except Failure α) := fun w =>
  let (result, w) := body.run w
  (.ok result, w)

/-- Runs an operation on the disk. -/
def onDisk {α : Type} (body : Store α) : Act α := fun w =>
  let (result, disk) := body.run w.disk
  (result, { w with disk })

/-- Makes a change to the disk that may fail half-way but still has a result. -/
def overDisk {α : Type} (body : StateM Disk α) : Act α := fun w =>
  let (a, disk) := body.run w.disk
  (.ok a, { w with disk })

/-- Fails if there is a failure. -/
def check : Option Failure → Act Unit
  | some failure => throw failure
  | none => pure ()

/-- Reads from the disk. -/
def fromDisk {α : Type} (read : Disk → Except Failure α) :
    Act α := fun w => (read w.disk, w)

/-- A fresh name. -/
def token : Act String := fun w =>
  (.ok (Token.ofNat w.tokens), { w with tokens := w.tokens + 1 })

/-- Several fresh names. -/
def tokenList (count : Nat) : Act (List String) := fun w =>
  (.ok ((List.range count).map fun i => Token.ofNat (w.tokens + i)),
    { w with tokens := w.tokens + count })

/-- A path for a new file. -/
def uniquePath (dir stem extension : String) : Act String := do
  return Path.unique dir stem extension (← token)

/-- Marks a file to be removed at the end of the call. -/
def track (path : String) : Act Unit := modify fun w =>
  { w with generated := path :: w.generated }

/-- Runs a call; however it ends, the files that it marked are removed, the
first one first. -/
def cleaning {α : Type} (body : Act α) : Act α := fun w =>
  let (result, after) := body.run { w with generated := [] }
  (result, { after with
    disk := after.generated.reverse.foldl Disk.removeQuietly after.disk
    generated := w.generated })

/-- Carries out a request to an item with the item locked; refuses if it is
locked already. -/
def locking {α : Type} (h : Handle) (body : Act α) : Act α := fun w =>
  if w.isLocked h.slot then (.error (Cause.itemBusy h.name), w)
  else
    let (result, after) := body.run (w.setLocked h.slot true)
    (result, after.setLocked h.slot false)

/-- The item behind a handle. -/
def item (h : Handle) : Act Item := fun w =>
  match w.slots[h.slot]? with
  | some s => (.ok s.item, w)
  | none => (.error (Cause.unknownItem h.name), w)

/-- Replaces the item behind a handle. -/
def setItem (h : Handle) (i : Item) : Act Unit := modify fun w => w.setItem h.slot i

/-- Takes over what a script has printed. -/
def print (text : String) : Act Unit := modify fun w =>
  { w with printed := w.printed ++ text }

/-- Starts a program. A program that was started is noted in the journal with
its job number. -/
def launch (ctx : Context) (l : Launch) :
    Act (Except IoKind (Nat × Outcome)) := fun w =>
  match ctx.host.start w.jobs l w.disk with
  | .error kind => (.ok (.error kind), w)
  | .ok outcome =>
    (.ok (.ok (w.jobs, outcome)), { w with
      disk := outcome.disk
      jobs := w.jobs + 1
      journal := w.journal.push (.launched w.jobs l.program l.arguments) })

end Act

end Playbook
