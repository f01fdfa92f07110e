import Mathlib.Data.List.Perm.Subperm
import Playbook.Proofs.Registry.Free
import Playbook.Proofs.Script.Sparing

/-!
# Playbook — calls in flight

Whether a call to an item is refused is decided by the lock of the item alone.
Here the calls in flight are kept apart from the world, as a stack of the slots
of their items, and every call is told what the stack is (`Calls.byStack`): it
is refused if its item is on the stack, and entered otherwise, no matter what is
locked and how deep calls are nested. The two agree. So the locked items are
those with a call in flight, at every point of every tree of calls, and none is
locked any more when the outermost call has returned.

A tree of calls (`CallTree`) makes requests, runs runners and carries out calls
of its own to items, with trees for the bodies; whatever a call returns, its
tree goes on from there.

Main results:

* `Calls.agreeOn_byStack` — requests are refused, and entered, by the stack.
* `one_call_in_flight` — so is every call of a tree.
-/

namespace Playbook

open Effect

/-! ## The stack -/

namespace World

/-- The items on the stack are locked, and no others. -/
def Holds (w : World) (stack : List Nat) : Prop :=
  ∀ slot, w.isLocked slot = true ↔ slot ∈ stack

namespace Holds

variable {w w' : World} {stack : List Nat} {slot : Nat}

theorem same (h : w.Holds stack)
    (hsame : ∀ slot, w'.isLocked slot = w.isLocked slot) : w'.Holds stack := by
  intro slot
  rw [hsame]
  exact h slot

/-- A stack with no item on it twice has no more on it than there are items. -/
theorem length_le (h : w.Holds stack) (hnodup : stack.Nodup) :
    stack.length ≤ w.slots.length := by
  have hsub : stack ⊆ List.range w.slots.length := fun slot hslot =>
    List.mem_range.mpr (lt_of_isLocked ((h slot).mpr hslot))
  have hle := (hnodup.subperm hsub).length_le
  rwa [List.length_range] at hle

theorem push {item : Item} (h : w.Holds stack) (hitem : w.itemAt slot = some item) :
    (w.setLocked slot true).Holds (slot :: stack) := by
  intro other
  have hthere : slot < w.slots.length := by
    obtain ⟨s, hs, -⟩ := Option.map_eq_some_iff.mp hitem
    exact (List.getElem?_eq_some_iff.mp hs).1
  rw [isLocked_setLocked, List.mem_cons]
  split
  · next hsame => exact ⟨fun _ => Or.inl hsame.1.symm, fun _ => rfl⟩
  · next hapart =>
    have hne : other ≠ slot := fun heq => hapart ⟨heq.symm, heq ▸ hthere⟩
    rw [h other]
    exact ⟨Or.inr, fun hmem => hmem.resolve_left hne⟩

theorem pop (h : w.Holds (slot :: stack)) (hslot : slot ∉ stack) :
    (w.setLocked slot false).Holds stack := by
  intro other
  rw [isLocked_setLocked]
  split
  · next hsame =>
      exact ⟨fun hlocked => absurd hlocked Bool.false_ne_true, fun hmem =>
        absurd (hsame.1 ▸ hmem) hslot⟩
  · next hapart =>
    have hthere : slot < w.slots.length :=
      lt_of_isLocked ((h slot).mpr (List.mem_cons_self ..))
    have hne : other ≠ slot := fun heq => hapart ⟨heq.symm, heq ▸ hthere⟩
    rw [h other, List.mem_cons]
    exact ⟨fun hmem => hmem.resolve_left hne, Or.inr⟩

end Holds

end World

/-! ## Calls by the stack -/

/-- Carries out a call to an item unless one is in flight. -/
def Act.entering {α : Type} (stack : List Nat) (h : Handle) (body : Act α) :
    Act α := fun w =>
  if h.slot ∈ stack then (.error (Cause.itemBusy h.name), w)
  else
    let (result, after) := body.run (w.setLocked h.slot true)
    (result, after.setLocked h.slot false)

/-- What an item does when it is asked for something, with the
calls in flight known. -/
def Item.answerIn (ctx : Context) (stack : List Nat) (calls : Calls)
    (h : Handle) (item : Item) : Request → Act Value
  | .merge source => do
    Act.entering stack source (do item.mergeWith h (← Act.item source))
    return .null
  | request => item.answer ctx calls h request

namespace Calls

/-- Answers requests, each with what is in flight when it is made. Those that
are nested too deep are passed on. -/
def byStack (ctx : Context) (bottom : Calls) :
    (depth : Nat) → (stack : List Nat) → Calls
  | 0, _, h, request => bottom h request
  | depth + 1, stack, h, request => Act.entering stack h do
    let item ← Act.item h
    item.answerIn ctx (h.slot :: stack)
      (byStack ctx bottom depth (h.slot :: stack)) h request

/-- Answers a request with what is in flight. -/
def allByStack (ctx : Context) (bottom : Calls) (stack : List Nat) :
    Calls := fun h request => do
  byStack ctx bottom ((← get).slots.length + 1) stack h request

end Calls

/-! ## Agreement -/

/-- From every world with that many items in which the stack is locked, the two
run alike and leave the locks alone. -/
def Act.AgreeOn (count : Nat) (stack : List Nat) {α : Type} (x y : Act α) : Prop :=
  ∀ w : World, w.slots.length = count → w.Holds stack →
  x.run w = y.run w ∧ w.SameLocks (x.run w).2

namespace Act

variable {count : Nat} {stack : List Nat} {α β : Type}

/-- An act that leaves the locks alone, and asks nothing that is
answered by the stack. -/
theorem AgreeOn.of_along {x : Act α} (h : Along World.SameLocks x) :
    AgreeOn count stack x x :=
  fun w _ _ => ⟨rfl, h w⟩

theorem AgreeOn.bind {x y : Act α} {f g : α → Act β}
    (hx : AgreeOn count stack x y)
    (hf : ∀ a, Gives x a → AgreeOn count stack (f a) (g a)) :
    AgreeOn count stack (x >>= f) (y >>= g) := by
  intro w hcount hw
  obtain ⟨hrun, hsame⟩ := hx w hcount hw
  -- the second parts start from one value, in a world with the same locks
  rcases hy : y.run w with ⟨failure | a, w'⟩
  · rw [hy] at hrun
    rw [hrun] at hsame
    rw [run_bind_of_error hrun, run_bind_of_error hy]
    exact ⟨rfl, hsame⟩
  · rw [hy] at hrun
    rw [hrun] at hsame
    rw [run_bind_of_ok hrun, run_bind_of_ok hy]
    obtain ⟨hnext, hafter⟩ :=
      hf a ⟨w, w', hrun⟩ w' (hsame.there.trans hcount) (hw.same hsame.locked)
    exact ⟨hnext, World.sameLocks_chains.trans hsame hafter⟩

theorem AgreeOn.attempt {x y : Act α} (h : AgreeOn count stack x y) :
    AgreeOn count stack (attempt x) (attempt y) := by
  intro w hcount hw
  obtain ⟨hrun, hsame⟩ := h w hcount hw
  refine ⟨?_, hsame⟩
  show (Except.ok (x.run w).1, (x.run w).2) = (Except.ok (y.run w).1, (y.run w).2)
  rw [hrun]

theorem AgreeOn.within (frame : Frame) {x y : Act α} (h : AgreeOn count stack x y) :
    AgreeOn count stack (within frame x) (within frame y) := by
  intro w hcount hw
  obtain ⟨hrun, hsame⟩ := h w hcount hw
  refine ⟨?_, hsame⟩
  show ((x.run w).1.mapError _, (x.run w).2) = ((y.run w).1.mapError _, (y.run w).2)
  rw [hrun]

theorem AgreeOn.cleaning {x y : Act α} (h : AgreeOn count stack x y) :
    AgreeOn count stack (cleaning x) (cleaning y) := by
  intro w hcount hw
  obtain ⟨hrun, hsame⟩ := h { w with generated := [] } hcount hw
  rw [run_cleaning, run_cleaning, ← hrun]
  exact ⟨rfl, hsame.there, hsame.locked⟩

/-- Agreement holds over whatever runs do besides their requests. -/
theorem running_agreeOn (ctx : Context) (count : Nat) (stack : List Nat) :
    Running ctx fun {_} x y => AgreeOn count stack x y := by
  have hR : Quiet World.SameLocks := (World.lasting_sameLocks Item.Follows).toQuiet
  exact {
    pure := fun a => .of_along (hR.pure a)
    throw := fun failure => .of_along (hR.throw failure)
    bind := AgreeOn.bind
    attempt := AgreeOn.attempt
    within := AgreeOn.within
    note := fun event hstep hlaunch => .of_along (hR.note event hstep hlaunch)
    name := fun dir stem extension => .of_along (hR.uniquePath dir stem extension)
    script := fun r texts => .of_along (hR.writeScript r texts)
    launch := fun l => .of_along (hR.launch ctx l)
    print := fun text => .of_along (hR.print text)
    wait := fun sentinels => .of_along (hR.waitAll ctx sentinels)
    track := fun path => .of_along (hR.track path)
    cleaning := AgreeOn.cleaning }

/-- A call to an item is refused, or entered, by its lock as by the stack. -/
theorem run_locking_eq {h : Handle} {f g : Item → Act α} {w : World}
    (hw : w.Holds stack)
    (hbody : ∀ item, w.itemAt h.slot = some item → h.slot ∉ stack →
      (f item).run (w.setLocked h.slot true) =
      (g item).run (w.setLocked h.slot true)) :
    (locking h (do f (← item h))).run w =
    (entering stack h (do g (← item h))).run w := by
  have hentering : (entering stack h (do g (← item h))).run w =
      if h.slot ∈ stack then (.error (Cause.itemBusy h.name), w)
      else (((item h >>= g).run (w.setLocked h.slot true)).1,
        ((item h >>= g).run (w.setLocked h.slot true)).2.setLocked
        h.slot false) := rfl
  rw [run_locking, hentering]
  by_cases hslot : h.slot ∈ stack
  · rw [if_pos ((hw h.slot).mpr hslot), if_pos hslot]
  · have hsame : (item h >>= f).run (w.setLocked h.slot true) =
        (item h >>= g).run (w.setLocked h.slot true) := by
      rcases hitem : (item h).run (w.setLocked h.slot true) with ⟨failure | i, w'⟩
      · rw [run_bind_of_error hitem, run_bind_of_error hitem]
      · obtain ⟨rfl, hi⟩ := run_item_ok hitem
        rw [World.itemAt_setLocked] at hi
        rw [run_bind_of_ok hitem, run_bind_of_ok hitem]
        exact hbody i hi hslot
    rw [if_neg fun hlocked => hslot ((hw h.slot).mp hlocked), if_neg hslot, hsame]

end Act

/-- However a call ends, its item is not on the stack after it. -/
theorem World.Holds.after_locking {α : Type} {stack : List Nat} {h : Handle}
    {f : Item → Act α} {w : World}
    (hw : w.Holds stack) (hbody : ∀ item, w.itemAt h.slot = some item →
      h.slot ∉ stack →
      ((f item).run (w.setLocked h.slot true)).2.Holds (h.slot :: stack)) :
    ((Act.locking h (do f (← Act.item h))).run w).2.Holds stack := by
  rw [Act.run_locking]
  split
  · exact hw
  · next hunlocked =>
    have hslot : h.slot ∉ stack := fun hmem => hunlocked ((hw h.slot).mpr hmem)
    rcases hitem : (Act.item h).run (w.setLocked h.slot true) with ⟨failure | i, w'⟩
    · -- there is no such item, and nothing was locked
      have hsame : w' = w.setLocked h.slot true := by
        rw [Act.run_item] at hitem
        exact (congrArg Prod.snd hitem).symm
      rw [run_bind_of_error hitem, hsame]
      dsimp only
      rw [World.setLocked_of_free (Bool.eq_false_iff.mpr hunlocked)]
      exact hw
    · obtain ⟨rfl, hi⟩ := Act.run_item_ok hitem
      rw [World.itemAt_setLocked] at hi
      rw [run_bind_of_ok hitem]
      exact (hbody i hi hslot).pop hslot

/-- What an item does when its requests are answered by the stack. -/
theorem Algorithm.agreeOn_act {ctx : Context} {calls calls' : Calls}
    {count : Nat} {stack : List Nat}
    (hcalls : ∀ h request, Act.AgreeOn count stack (calls h request)
      (calls' h request)) (h : Handle) (a : Algorithm) (name : String)
      (args : Args) : Act.AgreeOn count stack (a.act ctx calls h name args)
        (a.act ctx calls' h name args) := by
  have hR : Quiet World.SameLocks := (World.lasting_sameLocks Item.Follows).toQuiet
  unfold Algorithm.act
  split
  · exact .of_along (hR.fail _)
  · have hK := Act.running_agreeOn ctx count stack
    refine hK.andThen (.of_along (hR.overDisk _)) fun placed =>
      hK.andThen (.of_along ?_) fun _ => ?_
    · exact fun w => World.sameLocks_setItem w h.slot _
    · exact hK.andThen (.of_along (hR.check _)) fun _ =>
        hK.within _ (hK.runner calls' hcalls _ _)

theorem Item.run_answer_eq {ctx : Context} {calls calls' : Calls} {count : Nat}
    {stack : List Nat}
    (hcalls : ∀ h request, Act.AgreeOn count stack (calls h request)
      (calls' h request)) (h : Handle) (item : Item)
      (request : Request) {w : World}
      (hcount : w.slots.length = count) (hw : w.Holds stack) :
    (item.answer ctx calls h request).run w =
    (item.answerIn ctx stack calls' h request).run w := by
  cases request with
  | action name args =>
    cases item with
    | database d => rfl
    | algorithm a =>
      exact (Algorithm.agreeOn_act hcalls h a name args w hcount hw).1
    | plain p => rfl
  | merge source =>
    show (Act.locking source (do item.mergeWith h (← Act.item source)) >>=
      fun _ => pure Value.null).run w =
      (Act.entering stack source (do item.mergeWith h (← Act.item source)) >>=
        fun _ => pure Value.null).run w
    rw [run_bind, run_bind, Act.run_locking_eq hw fun _ _ _ => rfl]
  | _ => rfl

/-- Requests are refused, and entered, by the stack: as many as there are items
can be nested. -/
theorem Calls.agreeOn_byStack (ctx : Context) (bottom : Calls)
    {count depth : Nat} {stack : List Nat} (hnodup : stack.Nodup)
    (hdepth : count < depth + stack.length) (h : Handle) (request : Request) :
    Act.AgreeOn count stack (within ctx depth h request)
      (byStack ctx bottom depth stack h request) := by
  -- a call that is entered goes one less deep and has one more item on its
  -- stack, so the depth cannot run out
  induction depth generalizing stack h request with
  | zero =>
    intro w hcount hw
    have hle := hw.length_le hnodup
    omega
  | succ depth ih =>
    intro w hcount hw
    refine ⟨Act.run_locking_eq hw fun item hitem hslot => ?_,
      (World.lasting_sameLocks _).within ctx _ h request w⟩
    have hcalls :=
      ih (List.nodup_cons.mpr ⟨hslot, hnodup⟩) (by rw [List.length_cons]; omega)
    exact item.run_answer_eq hcalls h request
      ((World.length_setLocked ..).trans hcount) (hw.push hitem)

theorem Calls.agreeOn_allByStack (ctx : Context) (bottom : Calls) (count : Nat)
    {stack : List Nat} (hnodup : stack.Nodup) (h : Handle) (request : Request) :
    Act.AgreeOn count stack (all ctx h request)
      (allByStack ctx bottom stack h request) := by
  intro w hcount hw
  have hbyStack : (allByStack ctx bottom stack h request).run w =
      (byStack ctx bottom (w.slots.length + 1) stack h request).run w := by
    unfold allByStack
    rw [run_bind, run_get]
  have hdepth : count < w.slots.length + 1 + stack.length := by omega
  rw [Calls.run_all, hbyStack]
  exact agreeOn_byStack ctx bottom hnodup hdepth h request w hcount hw

/-! ## Trees of calls -/

/-- A tree of calls. -/
inductive CallTree where
  /-- Ends with a value or a failure. -/
  | done (result : Except Failure Value)
  /-- Changes the world, but no lock, and goes on with what it has become. -/
  | own (change : World → World)
      (keeps : ∀ w slot, (change w).isLocked slot = w.isLocked slot)
      (next : World → CallTree)
  /-- Makes a request and goes on with what came of it. -/
  | ask (h : Handle) (request : Request) (next : Except Failure Value → CallTree)
  /-- Runs a runner, which makes its own requests. -/
  | play (r : Runner) (args : Args) (next : Except Failure Value → CallTree)
  /-- Calls an item with a body of its own. -/
  | hold (h : Handle) (body : Item → CallTree)
      (next : Except Failure Value → CallTree)

theorem Act.run_attempt_bind {α β : Type} (body : Act α)
    (f : Except Failure α → Act β) (w : World) :
    (Act.attempt body >>= f).run w = (f (body.run w).1).run (body.run w).2 :=
  run_bind_of_ok (Act.run_attempt_of rfl) f

namespace CallTree

/-- Carries out the calls of a tree. -/
def run (ctx : Context) : CallTree → Act Value
  | done result => liftM result
  | own change _ next => do
    modify change
    (next (← get)).run ctx
  | ask h request next => do
    let answer ← Act.attempt (Calls.all ctx h request)
    (next answer).run ctx
  | play r args next => do
    let answer ← Act.attempt (r.run (Leaf.run ctx (Calls.all ctx)) args)
    (next answer).run ctx
  | hold h body next => do
    let answer ← Act.attempt (Act.locking h do (body (← Act.item h)).run ctx)
    (next answer).run ctx

/-- Carries out the calls of a tree, each with what is in flight when it is made. -/
def byStack (ctx : Context) (bottom : Calls) (stack : List Nat) :
    CallTree → Act Value
  | done result => liftM result
  | own change _ next => do
    modify change
    (next (← get)).byStack ctx bottom stack
  | ask h request next => do
    let answer ← Act.attempt (Calls.allByStack ctx bottom stack h request)
    (next answer).byStack ctx bottom stack
  | play r args next => do
    let answer ← Act.attempt
      (r.run (Leaf.run ctx (Calls.allByStack ctx bottom stack)) args)
    (next answer).byStack ctx bottom stack
  | hold h body next => do
    let answer ← Act.attempt (Act.entering
      stack h do (body (← Act.item h)).byStack ctx bottom (h.slot :: stack))
    (next answer).byStack ctx bottom stack

/-- Every call of a tree is refused, or entered, by the stack, which holds
exactly the locked items before and after. -/
theorem run_eq_byStack (ctx : Context) (bottom : Calls) (tree : CallTree)
    {stack : List Nat} (hnodup : stack.Nodup) {w : World} (hw : w.Holds stack) :
    (tree.run ctx).run w = (tree.byStack ctx bottom stack).run w ∧
    ((tree.run ctx).run w).2.Holds stack := by
  -- by induction on the tree: the body of a call runs with the item on the
  -- stack, what comes after the call without it
  induction tree generalizing stack w with
  | done result => exact ⟨rfl, hw⟩
  | own change keeps next ih => exact ih (change w) hnodup (hw.same (keeps w))
  | ask h request next ih =>
    obtain ⟨hrun, hsame⟩ := Calls.agreeOn_allByStack ctx bottom w.slots.length
      hnodup h request w rfl hw
    rw [run, byStack, Act.run_attempt_bind, Act.run_attempt_bind, ← hrun]
    exact ih _ hnodup (hw.same hsame.locked)
  | play r args next ih =>
    -- however many requests the runner makes, each is made with the stack that
    -- the run was started with
    have hcalls := Calls.agreeOn_allByStack ctx bottom w.slots.length hnodup
    obtain ⟨hrun, hsame⟩ :=
      (Act.running_agreeOn ctx w.slots.length stack).runner _
        hcalls r args w rfl hw
    rw [run, byStack, Act.run_attempt_bind, Act.run_attempt_bind, ← hrun]
    exact ih _ hnodup (hw.same hsame.locked)
  | hold h body next ihbody ih =>
    have hinside : ∀ item, w.itemAt h.slot = some item → h.slot ∉ stack → _ :=
      fun item hitem hslot =>
      ihbody item (List.nodup_cons.mpr ⟨hslot, hnodup⟩) (hw.push hitem)
    have hrun := Act.run_locking_eq hw fun item hitem hslot =>
      (hinside item hitem hslot).1
    have hafter := hw.after_locking fun item hitem hslot =>
      (hinside item hitem hslot).2
    rw [run, byStack, Act.run_attempt_bind, Act.run_attempt_bind, ← hrun]
    exact ih _ hnodup hafter

end CallTree

theorem Act.run_locking_of_locked {α : Type} {h : Handle} (body : Act α)
    {w : World} (hlocked : w.isLocked h.slot = true) :
    (Act.locking h body).run w = (.error (Cause.itemBusy h.name), w) := by
  rw [Act.run_locking, if_pos hlocked]

/-- An item that is to be merged into itself is busy, and nothing is changed. -/
theorem Calls.run_merge_self (ctx : Context) {h : Handle} {w : World}
    (hitem : (w.itemAt h.slot).isSome) :
    (Calls.all ctx h (.merge h)).run w = (.error (Cause.itemBusy h.name), w) := by
  obtain ⟨item, hitem⟩ := Option.isSome_iff_exists.mp hitem
  obtain ⟨⟨_, locked⟩, hslot, rfl⟩ := Option.map_eq_some_iff.mp hitem
  cases locked with
  | true =>
    have hlocked : w.isLocked h.slot = true := by
      unfold World.isLocked
      rw [hslot]
    rw [Calls.run_all]
    exact Act.run_locking_of_locked _ hlocked
  | false =>
    -- the item is locked for the request, and so it is busy as the source
    have hunlocked : w.isLocked h.slot = false := World.FreeAt.isLocked ⟨_, hslot⟩
    have hlocked : (w.setLocked h.slot true).isLocked h.slot = true := by
      rw [World.isLocked_setLocked,
        if_pos ⟨rfl, (List.getElem?_eq_some_iff.mp hslot).1⟩]
    rw [Calls.run_all_of_free hslot, Item.answer,
      run_bind_of_error (Act.run_locking_of_locked _ hlocked)]
    dsimp only
    rw [World.setLocked_of_free hunlocked]

/-- **At most one call to an item is in flight.** From a world in which no item
is locked, a tree of calls runs as it does by the stack: a call to an item with
a call in flight is refused with the name of the item, and nothing is changed;
any other call is entered. No call is nested too deep for that, whatever is at
the bottom. However the tree ends, no item is locked after it. So an item that
is to be merged into itself is busy. -/
theorem one_call_in_flight (ctx : Context) (bottom : Calls) (tree : CallTree)
    {w : World} (hfree : ∀ slot, w.isLocked slot = false) :
    (tree.run ctx).run w = (tree.byStack ctx bottom []).run w ∧
      (∀ slot, ((tree.run ctx).run w).2.isLocked slot = false) ∧
      ∀ h, (w.itemAt h.slot).isSome →
      (Calls.all ctx h (.merge h)).run w =
      (.error (Cause.itemBusy h.name), w) := by
  have hw : w.Holds [] := fun slot => by simp [hfree slot]
  obtain ⟨hrun, hafter⟩ := tree.run_eq_byStack ctx bottom List.nodup_nil hw
  refine ⟨hrun, fun slot => ?_, fun h hitem => Calls.run_merge_self ctx hitem⟩
  exact Bool.eq_false_iff.mpr fun hlocked =>
    List.not_mem_nil ((hafter slot).mp hlocked)

/-- A call that is made while the body of another item's call is carried out is
entered; one to the outer item is not. -/
theorem busy_below :
    let outer : Handle := ⟨"alg", 0⟩
    let inner : Handle := ⟨"other", 1⟩
    let w : World :=
      { disk := .empty
        slots := [⟨.algorithm bareAlgorithm, false⟩,
          ⟨.plain { name := "other" }, false⟩] }
    let tree : CallTree := .hold outer (fun _ =>
        .hold inner (fun _ => .ask outer .workdir .done) .done) .done
    (∀ slot, w.isLocked slot = false) ∧
      (tree.run idleContext).run w = (.error (Cause.itemBusy "alg"), w) ∧
      ∀ slot, ((tree.run idleContext).run w).2.isLocked slot = false := by
  intro outer inner w tree
  have hfree : ∀ slot, w.isLocked slot = false := by
    intro slot
    match slot with
    | 0 => rfl
    | 1 => rfl
    | _ + 2 => rfl
  obtain ⟨hrun, hafter, -⟩ :=
    one_call_in_flight idleContext (Calls.all idleContext) tree hfree
  exact ⟨hfree, hrun.trans rfl, hafter⟩

end Playbook
