import Playbook.Sentinel
import Playbook.Proofs.Disk

/-!
# Playbook — waits are all or nothing

A wait looks at the disk again and again while other programs create and delete
files, someone may raise the request to stop, and time passes. Before each look, the
first one included, the surroundings have a turn; nothing is known about what they
do. The wait ends at the first look that finds all sentinels, the request to stop,
or the time run out, in this order, and only what that look saw decides how.

Removing the sentinels is not part of what can fail: one that the device refuses
to remove stays, and the wait has ended well.

Main results:

* `Sentinel.run_waitFrom` — what a wait does at one look.
* `Sentinel.ended_waitFrom` — by induction over the looks that are left, at
  which look a wait ends and how.
* `Sentinel.all_or_nothing` — a wait removes all sentinels that it can and
  nothing else, or it fails, tells which sentinels its last look did not find,
  and removes nothing.
-/

namespace Playbook

namespace Sentinel

/-! ## Looks -/

/-- What a wait sees at a look. -/
structure Look where
  disk : Disk
  /-- Whether the wait is to stop. -/
  stop : Bool
  /-- The milliseconds since the wait began. -/
  elapsed : Nat

/-- The disk and the request to stop after the first turns of the
surroundings. -/
def turns (host : Host) (start : Disk × Bool) : Nat → Disk × Bool
  | 0 => start
  | count + 1 => host.meanwhile count (turns host start count)

/-- What a wait that starts in a world sees at a look if it has not ended
before. The surroundings have had a turn before each look. -/
def seen (ctx : Context) (w : World) (look : Nat) : Look :=
  let (disk, stop) := turns ctx.host (w.disk, w.cancelled) (look + 1)
  { disk, stop, elapsed := ctx.host.elapsed look }

/-- A wait goes on if a sentinel is missing, it is not to stop, and its
time has not run out. -/
structure Look.GoesOn (settings : Settings) (sentinels : List String)
    (l : Look) : Prop where
  missing : ∃ path ∈ sentinels, l.disk.isFile path = false
  stop : l.stop = false
  time : ∀ bound, settings.waitTimeout = some bound → l.elapsed < bound

/-- How a wait ends at a look, and the disk that it leaves. -/
inductive Look.Ends (settings : Settings) (sentinels : List String) (l : Look) :
    Except Failure Unit → Disk → Prop
  | complete {disk : Disk} (hall : ∀ path ∈ sentinels, l.disk.isFile path = true)
    (hremoved : l.disk.Removed sentinels disk) :
    Ends settings sentinels l (.ok ()) disk
  | cancelled {missing : List String} (hmissing : missing = sentinels.filter
    fun path => !l.disk.isFile path)
    (hsome : missing ≠ []) (hstop : l.stop = true) :
    Ends settings sentinels l (.error ⟨[], .cancelled missing⟩) l.disk
  | timedOut {missing : List String} {bound : Nat}
    (hmissing : missing = sentinels.filter fun path => !l.disk.isFile path)
    (hsome : missing ≠ []) (hstop : l.stop = false)
    (hbound : settings.waitTimeout = some bound)
    (htime : bound ≤ l.elapsed) :
    Ends settings sentinels l
      (.error ⟨[], .waitTimeout (l.elapsed / 1000) missing⟩) l.disk

variable {ctx : Context} {sentinels : List String}

theorem pending_eq_nil {disk : Disk} : pending sentinels disk = [] ↔
    ∀ path ∈ sentinels, disk.isFile path = true := by
  simp [pending]

theorem exists_missing {disk : Disk} (h : pending sentinels disk ≠ []) :
    ∃ path ∈ sentinels, disk.isFile path = false := by
  obtain ⟨path, hpath⟩ := List.exists_mem_of_ne_nil _ h
  obtain ⟨hmem, hfile⟩ := List.mem_filter.mp hpath
  exact ⟨path, hmem, by simpa using hfile⟩

theorem isOver_eq_true {settings : Settings} {elapsed : Nat} :
    isOver settings elapsed = true ↔ ∃ bound,
    settings.waitTimeout = some bound ∧ bound ≤ elapsed := by
  unfold isOver
  cases settings.waitTimeout <;> simp

theorem isOver_eq_false {settings : Settings} {elapsed : Nat} :
    isOver settings elapsed = false ↔
    ∀ bound, settings.waitTimeout = some bound → elapsed < bound := by
  unfold isOver
  cases settings.waitTimeout <;> simp

/-! ## One look -/

/-- The world after a turn of the surroundings. -/
def turned (host : Host) (look : Nat) (w : World) : World :=
  { w with
    disk := (host.meanwhile look (w.disk, w.cancelled)).1
    cancelled := (host.meanwhile look (w.disk, w.cancelled)).2 }

/-- At each look a wait ends or goes on, as what it sees after the turn of the
surroundings demands. -/
theorem run_waitFrom (ctx : Context) (sentinels : List String)
    (left look : Nat) (w : World) :
    let now := turned ctx.host look w
    let l : Look := ⟨now.disk, now.cancelled, ctx.host.elapsed look⟩
    let ended := (waitFrom ctx sentinels (left + 1) look).run w
    l.Ends ctx.settings sentinels ended.1 ended.2.disk ∨
      l.GoesOn ctx.settings sentinels ∧
      ended = (waitFrom ctx sentinels left (look + 1)).run now := by
  intro now l ended
  have hrun : ended = (if (pending sentinels now.disk).isEmpty then
        (modify fun w => { w with
          disk := sentinels.foldl Disk.removeQuietly w.disk } : Act Unit)
      else if now.cancelled then
        (do
          Act.warn "sentinel wait cancelled"
            [⟨"pending", toString (pending sentinels now.disk).length, false⟩]
          Act.fail (.cancelled (pending sentinels now.disk)))
      else if isOver ctx.settings (ctx.host.elapsed look) then
        (do
          Act.warn "sentinel wait timed out"
            [⟨"pending", toString (pending sentinels now.disk).length, false⟩]
          Act.fail (.waitTimeout (ctx.host.elapsed look / 1000)
            (pending sentinels now.disk)))
      else waitFrom ctx sentinels left (look + 1)).run now := rfl
  -- the order of these cases is what decides if several hold at one look
  by_cases hnone : pending sentinels now.disk = []
  · have hall := pending_eq_nil.mp hnone
    rw [hrun, hnone]
    exact Or.inl (.complete hall (Disk.removed_foldl_removeQuietly hall))
  · have hsome : (pending sentinels now.disk).isEmpty = false := by
      simpa using hnone
    cases hstop : now.cancelled with
    | true =>
      rw [hrun, hsome, hstop]
      exact Or.inl (.cancelled rfl hnone hstop)
    | false =>
      cases htime : isOver ctx.settings (ctx.host.elapsed look) with
      | true =>
        obtain ⟨bound, hbound, hover⟩ := isOver_eq_true.mp htime
        rw [hrun, hsome, hstop, htime]
        exact Or.inl (.timedOut rfl hnone hstop hbound hover)
      | false =>
        have hon : l.GoesOn ctx.settings sentinels :=
          ⟨exists_missing hnone, hstop, isOver_eq_false.mp htime⟩
        rw [hrun, hsome, hstop, htime]
        exact Or.inr ⟨hon, rfl⟩

/-! ## All looks -/

/-- Where a wait that goes on from a look ends, and how. -/
theorem ended_waitFrom (w : World) (left look : Nat) (now : World)
    (hnow : (now.disk, now.cancelled) = turns ctx.host (w.disk, w.cancelled) look) :
    let ended := (waitFrom ctx sentinels left look).run now
    (∃ last, look ≤ last ∧ last < look + left ∧
      (∀ earlier, look ≤ earlier → earlier < last →
        (seen ctx w earlier).GoesOn ctx.settings sentinels) ∧
      (seen ctx w last).Ends ctx.settings sentinels ended.1 ended.2.disk) ∨
    ((∀ any, look ≤ any → any < look + left →
      (seen ctx w any).GoesOn ctx.settings sentinels) ∧
      ∃ missing, ended.1 = .error ⟨[], .unfinished missing⟩) := by
  -- by induction on the looks that are left
  induction left generalizing look now with
  | zero => exact Or.inr ⟨fun any hlow hhigh => absurd hlow (by omega), _, rfl⟩
  | succ left ih =>
    have hturned : ((turned ctx.host look now).disk,
        (turned ctx.host look now).cancelled) =
        turns ctx.host (w.disk, w.cancelled) (look + 1) := by
      show ctx.host.meanwhile look (now.disk, now.cancelled) = _
      rw [hnow]
      rfl
    have hseen : seen ctx w look =
        ⟨(turned ctx.host look now).disk, (turned ctx.host look now).cancelled,
          ctx.host.elapsed look⟩ := by
      unfold seen
      rw [← hturned]
    have hlook := run_waitFrom ctx sentinels left look now
    dsimp only at hlook
    rw [← hseen] at hlook
    rcases hlook with hends | ⟨hon, hrun⟩
    · exact Or.inl ⟨look, Nat.le_refl look, by omega,
        fun earlier hlow hhigh => absurd hlow (by omega), hends⟩
    · -- it goes on here, so it ends where it ends from the next look on
      have hfrom : ∀ any, look ≤ any →
          (look + 1 ≤ any → (seen ctx w any).GoesOn ctx.settings sentinels) →
          (seen ctx w any).GoesOn ctx.settings sentinels := by
        intro any hlow hrest
        rcases Nat.eq_or_lt_of_le hlow with rfl | hlater
        · exact hon
        · exact hrest hlater
      dsimp only
      rw [hrun]
      rcases ih (look + 1) _ hturned with ⟨last, hlow, hhigh, hearlier, hends⟩ |
        ⟨hall, hunfinished⟩
      · exact Or.inl ⟨last, by omega, by omega,
          fun earlier h h' => hfrom earlier h fun hlater =>
            hearlier earlier hlater h', hends⟩
      · exact Or.inr ⟨fun any h h' => hfrom any h fun hlater =>
          hall any hlater (by omega), hunfinished⟩

/-- **Waits are all or nothing.** Whatever the surroundings do, a wait ends at
the first look after which it does not go on. If that look has found all
sentinels, whether or not the wait was to stop or its time had run out, it ends
well: it has removed every sentinel whose removal the device does not refuse,
and nothing else. Otherwise it fails with the sentinels that the look did not
find, as cancelled if it was to stop and else for lack of time, and has removed
nothing. A wait without any time takes one look. A wait that goes on after each
of as many looks as are taken has not ended. -/
theorem all_or_nothing (ctx : Context) (sentinels : List String) (w : World) :
    let ended := (waitAll ctx sentinels).run w
    ((∃ last < ctx.host.horizon,
      (∀ earlier < last, (seen ctx w earlier).GoesOn ctx.settings sentinels) ∧
        (seen ctx w last).Ends ctx.settings sentinels ended.1 ended.2.disk) ∨
      (∀ look < ctx.host.horizon, (seen ctx w look).GoesOn ctx.settings sentinels) ∧
        ∃ missing, ended.1 = .error ⟨[], .unfinished missing⟩) ∧
    (ctx.settings.waitTimeout = some 0 → 0 < ctx.host.horizon →
      (seen ctx w 0).Ends ctx.settings sentinels ended.1 ended.2.disk) := by
  intro ended
  have hended := @ended_waitFrom ctx sentinels w ctx.host.horizon 0 w rfl
  rw [Nat.zero_add] at hended
  refine ⟨?_, fun hzero hhorizon => ?_⟩
  · rcases hended with ⟨last, -, hlast, hearlier, hends⟩ | ⟨hall, hunfinished⟩
    · exact Or.inl ⟨last, hlast, fun earlier =>
        hearlier earlier (Nat.zero_le _), hends⟩
    · exact Or.inr ⟨fun look => hall look (Nat.zero_le _), hunfinished⟩
  · have hover : ¬ (seen ctx w 0).GoesOn ctx.settings sentinels :=
      fun hon => Nat.not_lt_zero _ (hon.time 0 hzero)
    rcases hended with ⟨last, -, -, hearlier, hends⟩ | ⟨hall, -⟩
    · cases last with
      | zero => exact hends
      | succ last =>
        exact absurd (hearlier 0 (Nat.le_refl 0) (Nat.succ_pos last)) hover
    · exact absurd (hall 0 (Nat.le_refl 0) hhorizon) hover

/-- A wait without any time, in surroundings that create the file `a` at once. -/
def hurried : Context where
  settings := { waitTimeout := some 0 }
  host :=
    { start := fun _ _ _ => .error .notFound
      meanwhile := fun _ state =>
        (state.1.put ["a"] (.file (.text "") false), state.2)
      elapsed := fun _ => 0
      horizon := 1 }

/-- The wait for `a` and `b` finds `a` at its one look, and fails
for `b`; `a` stays. -/
theorem one_look_without_time :
    let ended := (waitAll hurried ["a", "b"]).run { disk := Disk.empty }
    ended.1 = .error ⟨[], .waitTimeout 0 ["b"]⟩ ∧
    ended.2.disk.isFile "a" = true := by
  intro ended
  have hends := (all_or_nothing hurried ["a", "b"] { disk := Disk.empty }).2
      rfl Nat.one_pos
  revert hends
  show Look.Ends _ _ _ ended.1 ended.2.disk → _
  generalize ended.1 = result
  generalize ended.2.disk = disk
  intro hends
  cases hends with
  | complete hall _ => exact absurd (hall "b" (by simp)) (by decide +kernel)
  | cancelled _ _ hstop => cases hstop
  | timedOut hmissing _ _ _ _ =>
    rw [hmissing]
    exact ⟨by rfl, by decide +kernel⟩

/-- The wait for `a` ends well with `a` still there if the device
refuses to remove it. -/
theorem guarded_sentinel_stays :
    let device : Device := { remove := fun _ => some .permissionDenied }
    let ended := (waitAll hurried ["a"]).run { disk := { entries := [], device } }
    ended.1 = .ok () ∧ ended.2.disk.isFile "a" = true :=
  ⟨by rfl, by decide +kernel⟩

end Sentinel

end Playbook
