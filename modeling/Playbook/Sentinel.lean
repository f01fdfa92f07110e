import Playbook.World

/-!
# Playbook — waiting for sentinels

A job tells that it has ended by creating its sentinel file. A wait ends when
all sentinels of a batch are there, and removes them; until then it looks again
and again, unless it is cancelled or has lasted too long.
-/

namespace Playbook.Sentinel

/-- The sentinels that are not there yet. -/
def pending (sentinels : List String) (disk : Disk) :
    List String := sentinels.filter fun path => !disk.isFile path

/-- Whether a wait has reached its bound. -/
def isOver (settings : Settings) (elapsed : Nat) : Bool :=
  match settings.waitTimeout with
  | some bound => bound ≤ elapsed
  | none => false

/-- Waits from a look on, for as many looks as are left. -/
def waitFrom (ctx : Context) (sentinels : List String) :
    (left look : Nat) → Act Unit
  | 0, _ => do Act.fail (.unfinished (pending sentinels (← get).disk))
  | left + 1, look => do
    modify fun w =>
      let (disk, cancelled) := ctx.host.meanwhile look (w.disk, w.cancelled)
      { w with disk, cancelled }
    let w ← get
    let missing := pending sentinels w.disk
    let count : Field := ⟨"pending", toString missing.length, false⟩
    if missing.isEmpty then
      modify fun w => { w with disk := sentinels.foldl Disk.removeQuietly w.disk }
    else if w.cancelled then
      Act.warn "sentinel wait cancelled" [count]
      Act.fail (.cancelled missing)
    else if isOver ctx.settings (ctx.host.elapsed look) then
      Act.warn "sentinel wait timed out" [count]
      Act.fail (.waitTimeout (ctx.host.elapsed look / 1000) missing)
    else waitFrom ctx sentinels left (look + 1)

/-- Waits for all sentinels. -/
def waitAll (ctx : Context) (sentinels : List String) :
    Act Unit := waitFrom ctx sentinels ctx.host.horizon 0

end Playbook.Sentinel
