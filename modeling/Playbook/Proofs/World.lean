import Playbook.World
import Playbook.Proofs.Effect

/-!
# Playbook — views of the world and what lasts in it

Three things of a world concern most statements about runs: which item stands
behind a handle (`itemAt`), which steps were begun (`begun`), and which programs
were started (`started`). Most of what an act does touches none of them: it
changes the disk, hands out names, and writes messages, which is what an `Aside`
relation holds over, and events of other kinds, which a `Calm` one holds over
too. A `Quiet` one also holds over starting programs and registering
computations; a `Lasting` one also over locking an item for the time of a
request, and over replacing it as `P` allows.

Main results:

* `itemAt_setItem`, `itemAt_setLocked` — what changes of the items do to the view.
* `Logging.warn`, `Aside.cleaning`, …, `Quiet.launch` — such a relation holds
  over each of the primitive acts.
* `Serving.locking` — if it holds over what is done with an item locked, it
  holds over the request.
-/

namespace Playbook

open Effect

/-! ## Items -/

namespace World

/-- The item in a slot. -/
def itemAt (w : World) (slot : Nat) : Option Item := w.slots[slot]?.map (·.item)

@[simp] theorem itemAt_setLocked (w : World) (slot other : Nat) (locked : Bool) :
    (w.setLocked slot locked).itemAt other = w.itemAt other := by
  simp only [itemAt, setLocked, List.getElem?_modify]
  split <;> cases w.slots[other]? <;> rfl

theorem itemAt_setItem (w : World) (slot other : Nat) (item : Item) :
    (w.setItem slot item).itemAt other =
      if slot = other then (w.itemAt other).map fun _ => item
          else w.itemAt other := by
  simp only [itemAt, setItem, List.getElem?_modify]
  split <;> cases w.slots[other]? <;> rfl

theorem itemAt_setItem_self {w : World} {slot : Nat} {item old : Item}
    (h : w.itemAt slot = some old) :
    (w.setItem slot item).itemAt slot = some item := by
  rw [itemAt_setItem, if_pos rfl, h]
  rfl

theorem modify_of_getElem? {slots : List Slot} {slot : Nat} {s : Slot}
    {f : Slot → Slot} (h : slots[slot]? = some s) (hf : f s = s) :
    slots.modify slot f = slots := by
  apply List.ext_getElem?
  intro other
  rw [List.getElem?_modify]
  split
  · next heq =>
    subst heq
    rw [h, Option.map_eq_map, Option.map_some, hf]
  · exact id_map _

/-- Locking an item that was not locked and unlocking it again changes nothing. -/
theorem setLocked_setLocked {w : World} {slot : Nat} {item : Item}
    (h : w.slots[slot]? = some ⟨item, false⟩) :
    (w.setLocked slot true).setLocked slot false = w := by
  have hslots : (w.slots.modify slot fun s => { s with locked := true }).modify slot
      (fun s => { s with locked := false }) = w.slots := by
    rw [List.modify_modify_eq]
    exact modify_of_getElem? h rfl
  unfold setLocked
  rw [hslots]

/-- Locking an item that is not locked and unlocking it again changes nothing,
whether it is there or not. -/
theorem setLocked_of_free {w : World} {slot : Nat} (h : w.isLocked slot = false) :
    (w.setLocked slot true).setLocked slot false = w := by
  cases hslot : w.slots[slot]? with
  | some s =>
    obtain ⟨item, locked⟩ := s
    unfold isLocked at h
    rw [hslot] at h
    cases h
    exact setLocked_setLocked hslot
  | none =>
    have hbeyond : w.slots.length ≤ slot := List.getElem?_eq_none_iff.mp hslot
    unfold setLocked
    dsimp only
    rw [List.modify_eq_self hbeyond, List.modify_eq_self hbeyond]

/-- An item can be replaced before or after its lock is changed. -/
theorem setItem_setLocked (w : World) (slot other : Nat) (locked : Bool)
    (item : Item) :
    (w.setLocked other locked).setItem slot item =
    (w.setItem slot item).setLocked other locked := by
  have hslots : (w.slots.modify other fun s =>
      { s with locked }).modify slot (fun s => { s with item }) =
      (w.slots.modify slot fun s => { s with item }).modify other fun s =>
        { s with locked } := by
    by_cases h : other = slot
    · subst h
      rw [List.modify_modify_eq, List.modify_modify_eq]
      rfl
    · rw [List.modify_modify_ne _ _ _ h]
  unfold setItem setLocked
  rw [hslots]

end World

/-! ## Steps and programs in the journal -/

/-- The step that an event says was begun. -/
def Event.step? : Event → Option Step
  | stepped step => some step
  | _ => none

/-- The steps that were begun, in order. -/
def World.begun (w : World) : List Step := w.journal.toList.filterMap Event.step?

/-- The program that an event says was started, with its job number
and its arguments. -/
def Event.launch? : Event → Option (Nat × String × List String)
  | launched job program arguments => some (job, program, arguments)
  | _ => none

/-- The programs that were started, in order. -/
def World.started (w : World) : List (Nat × String × List String) :=
  w.journal.toList.filterMap Event.launch?

/-! ## Acts in frames -/

/-- A frame changes nothing about a result. -/
theorem Act.run_within_ok {α : Type} {frame : Frame} {body : Act α}
    {w w' : World} {a : α} (h : (Act.within frame body).run w = (.ok a, w')) :
    body.run w = (.ok a, w') := by
  rcases hrun : body.run w with ⟨failure | b, w₁⟩
  · have hfail : (Act.within frame body).run w =
        (.error (failure.within frame), w₁) := by
      show ((body.run w).1.mapError _, (body.run w).2) = _
      rw [hrun]
      rfl
    rw [hfail] at h
    cases h
  · have hok : (Act.within frame body).run w = (.ok b, w₁) := by
      show ((body.run w).1.mapError _, (body.run w).2) = _
      rw [hrun]
      rfl
    rw [hok] at h
    exact h

/-- A frame does not change whether an act ends like another. -/
theorem Effect.Both.within {α β : Type} {Q : α → β → Prop}
    {S : World → World → Prop} {p : Except Failure α × World} {y : Act β}
    {v : World} (h : Both Q S p (y.run v)) (frame : Frame) :
    Both Q S p ((Act.within frame y).run v) := by
  show Both Q S p ((y.run v).1.mapError (Failure.within frame), (y.run v).2)
  generalize y.run v = q at h
  cases h with
  | ok hresult hstate => exact .ok hresult hstate
  | error => exact .error

theorem Act.run_attempt_of {α : Type} {body : Act α} {w w' : World}
    {result : Except Failure α} (h : body.run w = (result, w')) :
    (Act.attempt body).run w = (.ok result, w') := by
  show (Except.ok (body.run w).1, (body.run w).2) = _
  rw [h]

/-- However a call ends, the files that it marked are removed, and
nothing else is changed. -/
theorem Act.run_cleaning {α : Type} (body : Act α) (w : World) :
    (Act.cleaning body).run w =
      ((body.run { w with generated := [] }).1,
        { (body.run { w with generated := [] }).2 with
        disk := (body.run { w with generated := [] }).2.generated.reverse.foldl
          Disk.removeQuietly
            (body.run { w with generated := [] }).2.disk
        generated := w.generated }) := rfl

/-- An operation on the disk leaves everything else. -/
theorem Act.run_onDisk {α : Type} (body : Store α) (w : World) :
    (Act.onDisk body).run w = ((body.run w.disk).1,
      { w with disk := (body.run w.disk).2 }) := rfl

/-- A change to the disk gives its result and leaves everything else. -/
theorem Act.run_overDisk {α : Type} {body : StateM Disk α} {w : World} {a : α}
    {disk : Disk} (h : body.run w.disk = (a, disk)) :
    (Act.overDisk body).run w = (.ok a, { w with disk }) := by
  have hrun : (Act.overDisk body).run w =
      (.ok (body.run w.disk).1, { w with disk := (body.run w.disk).2 }) := rfl
  rw [hrun, h]

theorem Act.run_overDisk_ok {α : Type} {body : StateM Disk α} {w w' : World} {a : α}
    (h : (Act.overDisk body).run w = (.ok a, w')) :
    (body.run w.disk).1 = a ∧ w' = { w with disk := (body.run w.disk).2 } := by
  have hrun : body.run w.disk = ((body.run w.disk).1, (body.run w.disk).2) := rfl
  rw [Act.run_overDisk hrun] at h
  obtain ⟨hresult, hworld⟩ := Prod.mk.inj h
  exact ⟨Except.ok.inj hresult, hworld.symm⟩

/-- A request to a locked item is refused; any other is carried out
with the item locked. -/
theorem Act.run_locking {α : Type} (h : Handle) (body : Act α) (w : World) :
    (Act.locking h body).run w =
      if w.isLocked h.slot then (.error (Cause.itemBusy h.name), w)
      else ((body.run (w.setLocked h.slot true)).1,
        (body.run (w.setLocked h.slot true)).2.setLocked h.slot false) := rfl

theorem Act.run_item (h : Handle) (w : World) :
    (Act.item h).run w = (w.slots[h.slot]?.elim
      (.error (Cause.unknownItem h.name)) fun s => .ok s.item, w) := by
  unfold Act.item
  dsimp only [ExceptT.run]
  cases w.slots[h.slot]? with
  | none => rfl
  | some s => rfl

/-- Looking up an item gives the item in its slot and changes nothing. -/
theorem Act.run_item_ok {h : Handle} {w w' : World} {i : Item}
    (hrun : (Act.item h).run w = (.ok i, w')) :
    w' = w ∧ w.itemAt h.slot = some i := by
  rw [Act.run_item] at hrun
  unfold World.itemAt
  cases hs : w.slots[h.slot]? with
  | none =>
    rw [hs] at hrun
    cases hrun
  | some s =>
    rw [hs] at hrun
    cases hrun
    exact ⟨rfl, rfl⟩

/-! ## Acts that only log -/

/-- A relation that holds over messages in the journal. -/
structure Logging (R : World → World → Prop) : Prop extends Chains R where
  logged : ∀ (w : World) level message fields,
    R w { w with journal := w.journal.push (.logged level message fields) }

namespace Logging

variable {R : World → World → Prop} (hR : Logging R) {α β : Type}

include hR

theorem pure (a : α) : Along R (Pure.pure a : Act α) := Along.pure hR.toChains a

theorem throw (failure : Failure) : Along R (throw failure : Act α) :=
  Along.throw hR.toChains failure

theorem liftM (result : Except Failure α) :
    Along R (liftM result : Act α) := Along.liftM hR.toChains result

theorem bind {x : Act α} {f : α → Act β} (hx : Along R x)
    (hf : ∀ a, Along R (f a)) : Along R (x >>= f) :=
  Along.bind hR.toChains hx hf

theorem fail (cause : Cause) : Along R (Act.fail cause : Act α) := hR.throw _

theorem check (failure : Option Failure) : Along R (Act.check failure) := by
  cases failure with
  | none => exact hR.pure ()
  | some failure => exact hR.throw failure

theorem warn (message : String) (fields : List Field) :
    Along R (Act.warn message fields) :=
  fun w => hR.logged w .warn message fields

end Logging

/-- A relation that holds over events that neither begin a step
nor start a program. -/
structure Noting (R : World → World → Prop) : Prop extends Logging R where
  event : ∀ (w : World) event, event.step? = none → event.launch? = none →
    R w { w with journal := w.journal.push event }
  logged w level message fields := event w (.logged level message fields) rfl rfl

theorem Noting.note {R : World → World → Prop} (hR : Noting R) (e : Event)
    (hstep : e.step? = none) (hlaunch : e.launch? = none) :
    Along R (Act.note e) := fun w => hR.event w e hstep hlaunch

/-! ## Acts on the side -/

/-- A relation that holds over what acts do as long as they touch no item and no
program, and begin no step. Names are handed out and never taken back. -/
structure Aside (R : World → World → Prop) : Prop extends Logging R where
  side : ∀ (w : World) disk tokens cancelled generated printed, w.tokens ≤ tokens →
    R w { w with disk, tokens, cancelled, generated, printed }

namespace Aside

variable {R : World → World → Prop} (hR : Aside R) {α : Type}

include hR

theorem kept (w : World) (disk : Disk) (cancelled : Bool)
    (generated : List String) (printed : String) :
    R w { w with disk, cancelled, generated, printed } :=
  hR.side w _ _ _ _ _ (Nat.le_refl _)

theorem onDisk (body : Store α) : Along R (Act.onDisk body) := fun w => hR.kept w ..

theorem overDisk (body : StateM Disk α) : Along R (Act.overDisk body) :=
  fun w => hR.kept w ..

theorem fromDisk (read : Disk → Except Failure α) :
    Along R (Act.fromDisk read) := fun w => hR.refl w

theorem token : Along R Act.token := fun w => hR.side w _ _ _ _ _ (Nat.le_succ _)

theorem tokenList (count : Nat) : Along R (Act.tokenList count) :=
  fun w => hR.side w _ _ _ _ _ (Nat.le_add_right _ _)

theorem uniquePath (dir stem extension : String) :
    Along R (Act.uniquePath dir stem extension) :=
  hR.bind hR.token fun _ => hR.pure _

theorem track (path : String) : Along R (Act.track path) := fun w => hR.kept w ..

theorem print (text : String) : Along R (Act.print text) := fun w => hR.kept w ..

theorem item (h : Handle) : Along R (Act.item h) := by
  intro w
  rw [Act.run_item]
  exact hR.refl w

theorem cleaning {body : Act α} (h : Along R body) :
    Along R (Act.cleaning body) := by
  intro w
  have hbefore : R w { w with generated := [] } := hR.kept w ..
  have hbody := h { w with generated := [] }
  exact hR.trans (hR.trans hbefore hbody) (hR.kept _ ..)

end Aside

/-! ## Calm acts -/

/-- A relation that holds over what acts do as long as they start no program,
begin no step and touch no item. -/
structure Calm (R : World → World → Prop) : Prop extends Noting R, Aside R

namespace Calm

variable {R : World → World → Prop} {α : Type}

theorem within (frame : Frame) {body : Act α} (h : Along R body) :
    Along R (Act.within frame body) := h

theorem attempt {body : Act α} (h : Along R body) : Along R (Act.attempt body) := h

end Calm

/-! ## Quiet acts -/

/-- A calm relation that also holds over starting programs and registering
computations. -/
structure Quiet (R : World → World → Prop) : Prop extends Calm R where
  launched : ∀ (w : World) job program arguments,
    R w { w with journal := w.journal.push (.launched job program arguments) }
  registered : ∀ (w : World) jobs catalog instances,
    R w { w with jobs, catalog, instances }

theorem Quiet.launch {R : World → World → Prop} (hR : Quiet R) (ctx : Context)
    (l : Launch) :
    Along R (Act.launch ctx l) := by
  intro w
  unfold Act.launch
  dsimp only [ExceptT.run]
  cases ctx.host.start w.jobs l w.disk with
  | error kind => exact hR.refl w
  | ok outcome =>
    -- what the program left on the disk, its number, and its start in the journal
    have hdisk : R w { w with disk := outcome.disk } := hR.kept w ..
    exact hR.trans (hR.trans hdisk (hR.registered _ (w.jobs + 1) ..))
      (hR.launched _ ..)

/-! ## Requests -/

/-- A calm relation that also holds over what is done with an item
locked for the time. -/
structure Serving (R : World → World → Prop) : Prop extends Calm R where
  lock : ∀ (w w' : World) slot, w.isLocked slot = false →
    R (w.setLocked slot true) w' →
    R w (w'.setLocked slot false)

/-- If such a relation holds over what a request does with the item locked, it
holds over the request. -/
theorem Serving.locking {R : World → World → Prop} (hR : Serving R) {α : Type}
    (h : Handle) {body : Act α} {w : World}
    (hbody : R (w.setLocked h.slot true)
      (body.run (w.setLocked h.slot true)).2) :
    R w ((Act.locking h body).run w).2 := by
  rw [Act.run_locking]
  split
  · exact hR.refl w
  · next hfree => exact hR.lock w _ h.slot (Bool.eq_false_iff.mpr hfree) hbody

/-- A relation that holds over all that answering requests does besides
replacing items. -/
structure Answering (R : World → World → Prop) : Prop extends Quiet R, Serving R

/-- A relation that holds over requests, also where these replace an
item as `P` allows. -/
structure Lasting (P : Item → Item → Prop) (R : World → World → Prop) : Prop
    extends Answering R where
  put : ∀ (w : World) slot old new, w.itemAt slot = some old → P old new →
    R w (w.setItem slot new)

end Playbook
