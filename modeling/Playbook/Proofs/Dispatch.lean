import Playbook.Proofs.Execution
import Playbook.Proofs.Loop
import Playbook.Proofs.Registry.Free

/-!
# Playbook — which action steps are skipped

An action step is meant to be skipped when its item offers no action of the
name. What decides is the failure that comes back: every failure that is due to
an unknown action skips the step, also where the item has the action and this
went on to ask another item for one that it lacks. So the step is skipped for an
action that its own item lacks, and fails with every failure of an action that
is not of that kind.

Main results:

* `Calls.run_all_of_lacks` — asking a free item for an action that it lacks
  changes nothing.
* `Session.keeps_play` — a playbook is executed in sessions that are `Reached`,
  and fails where a step fails.
* `Step.skipped_iff` — when an action step is skipped, and what
  happens if it is not.
-/

namespace Playbook

open Effect

/-! ## Actions that an item lacks -/

/-- Whether an action that does not exist is the cause of a failure. -/
def Failure.isUnknownAction (f : Failure) : Bool :=
  match f.cause with
  | .unknownAction .. => true
  | _ => false

/-- Whether an item has an action of a name. -/
def Item.offers : Item → String → Bool
  | database _, name => ["entries", "column", "add-entries"].contains name
  | algorithm a, name => a.actions.contains name
  | plain _, _ => false

/-- An item that is asked for an action that it lacks says so and does nothing. -/
theorem Item.run_answer_of_lacks {item : Item} {name : String}
    (hlacks : item.offers name = false) (ctx : Context) (calls : Calls)
    (h : Handle) (args : Args) (w : World) :
    (item.answer ctx calls h (.action name args)).run w =
    (.error ⟨[], .unknownAction item.name name⟩, w) := by
  cases item with
  | database d =>
    have hnames : name ≠ "entries" ∧ name ≠ "column" ∧ name ≠ "add-entries" := by
      simpa [offers] using hlacks
    show (d.act h name args).run w = _
    unfold Database.act
    split
    · exact absurd rfl hnames.1
    · exact absurd rfl hnames.2.1
    · exact absurd rfl hnames.2.2
    · rfl
  | algorithm a =>
    have hnone : a.actions.get? name = none := by
      simpa [offers, Dict.contains] using hlacks
    exact Algorithm.run_act_of_unknown hnone
  | plain p => rfl

/-- Asking a free item for an action that it lacks changes nothing. -/
theorem Calls.run_all_of_lacks {w : World} {h : Handle} {item : Item}
    (hfree : w.slots[h.slot]? = some ⟨item, false⟩) {name : String}
    (hlacks : item.offers name = false) (ctx : Context) (args : Args) :
    (Calls.all ctx h (.action name args)).run w =
    (.error ⟨[], .unknownAction item.name name⟩, w) := by
  rw [Calls.run_all_of_free hfree, Item.run_answer_of_lacks hlacks]
  dsimp only
  rw [World.setLocked_setLocked hfree]

/-! ## The sessions of a run -/

/-- The sessions of playbook runs: a run starts with the items of its registry
free, executes steps as long as none fails, and counts passes. -/
inductive Session.Reached (ctx : Context) : Session → Prop
  | fresh {r : Registry} {w : World} {plan : Plan} {values : Namespace} :
      r.Free w → Reached ctx { world := w, run := { registry := r, plan, values } }
  | executed {step : Step} {s s' : Session} :
      Reached ctx s → (step.execute ctx).run s = (.ok (), s') → Reached ctx s'
  | counted {s : Session} :
      Reached ctx s →
      Reached ctx
      { s with run := { s.run with iterations := s.run.iterations + 1 } }

/-- Between the steps of a run the items of its registry are free. -/
theorem Session.Reached.free {ctx : Context} {s : Session} (h : s.Reached ctx) :
    s.run.registry.Free s.world := by
  induction h with
  | fresh hfree => exact hfree
  | @executed step s s' _ hrun ih =>
    have hworld := Step.world_execute (World.lasting_sameLocks _) ctx step s
        (World.sameLocks_of_slots rfl)
    have hregistry := Step.registry_execute ctx step s
    rw [hrun] at hworld hregistry
    dsimp only at hworld hregistry
    rw [hregistry]
    exact ih.left hworld.leavesFree
  | counted _ ih => exact ih

/-- A part of a run goes on in a reached session, unless a step fails in one or
the loop is given up. -/
def Session.Keeps {α : Type} (ctx : Context) (x : Stepping α) : Prop :=
  ∀ s, s.Reached ctx → match x.run s with
    | (.ok _, s') => s'.Reached ctx
    | (.error failure, s') => failure = ⟨[], .endlessLoop⟩ ∨
        ∃ (phase : String) (number : Nat) (step : Step)
        (before : Session) (fault : Failure), before.Reached ctx ∧
        (step.execute ctx).run before = (.error fault, s') ∧
        failure = fault.within (.step phase number step.kind)

namespace Session.Keeps

variable {α β : Type} {ctx : Context}

theorem pure (a : α) : Keeps ctx (Pure.pure a) := fun _ hs => hs

theorem bind {x : Stepping α} {f : α → Stepping β} (hx : Keeps ctx x)
    (hf : ∀ a, Keeps ctx (f a)) :
    Keeps ctx (x >>= f) := by
  intro s hs
  have hfirst := hx s hs
  rw [run_bind]
  rcases hrun : x.run s with ⟨failure | a, s₁⟩
  · rw [hrun] at hfirst
    exact hfirst
  · rw [hrun] at hfirst
    exact hf a s₁ hfirst

theorem execute (phase : String) (number : Nat) (step : Step) :
    Keeps ctx ((driver ctx).execute phase number step) := by
  intro s hs
  have hrun : ((driver ctx).execute phase number step).run s =
      (((step.execute ctx).run s).1.mapError
        (Failure.within (.step phase number step.kind)),
        ((step.execute ctx).run s).2) := rfl
  rw [hrun]
  rcases hstep : (step.execute ctx).run s with ⟨fault | _, s'⟩
  · exact Or.inr ⟨phase, number, step, s, fault, hs, hstep, rfl⟩
  · exact .executed hs hstep

theorem running : Keeps ctx (driver ctx).running := fun _ hs => hs

theorem count : Keeps ctx (driver ctx).count := fun _ hs => .counted hs

theorem giveUp : Keeps ctx (driver ctx).giveUp := fun _ _ => Or.inl rfl

end Session.Keeps

/-- The operations of a run keep to reached sessions. The driver is compared
with itself, as there is no other. -/
theorem Session.relates_keeps (ctx : Context) :
    Driver.Relates (fun x _ => Keeps ctx x) (driver ctx) (driver ctx) where
  pure := Keeps.pure
  bind := Keeps.bind
  execute := Keeps.execute
  running := Keeps.running
  count := Keeps.count
  giveUp := Keeps.giveUp

/-- A playbook is executed in sessions that are reached, and fails where a step
fails in one of them. -/
theorem Session.keeps_play (ctx : Context) : Keeps ctx (play ctx) :=
  fun s hs => (relates_keeps ctx).run ctx.host.horizon s.run.plan s hs

/-! ## Action steps -/

theorem Stepping.run_act {α : Type} (body : Act α) (s : Session) :
    (Stepping.act body).run s =
    ((body.run s.world).1, { s with world := (body.run s.world).2 }) := rfl

/-- An action step whose item exists and whose arguments resolve, and what it
asks of the item. -/
structure Step.Asks (step : Step) (s : Session) (h : Handle) (name : String)
    (args : Args) : Prop where
  kind : StepKind.parse step.kind = some .action
  item : ((step.item "item").run s).1 = .ok h
  name : step.needText "action" = .ok name
  args : (step.arguments.run s).1 = .ok args

/-- The session after it was reported that an item has no action of a name. -/
def Session.reported (s : Session) (h : Handle) (name : String) : Session :=
  let event := Event.trouble "unknown action, skipping"
      [⟨"item", h.name, false⟩, ⟨"action", name, true⟩]
  { s with world := { s.world with journal := s.world.journal.push event } }

namespace Step

/-- A step that is skipped has no value. -/
def Skipped (ctx : Context) (step : Step) (s : Session) : Prop :=
  ((step.value ctx).run (step.noted s)).1 = .ok none

/-- What moves along the equality of sessions has only read. -/
theorem chains_eq : Chains fun s s' : Session => s' = s :=
  ⟨fun _ => rfl, fun h k => k.trans h⟩

/-- The item that a step names is one of the registry. -/
theorem mem_items_of_run_item {step : Step} {field : String} {s : Session}
    {h : Handle} (hrun : ((step.item field).run s).1 = .ok h) :
    ∃ name, (name, h) ∈ s.run.registry.items := by
  obtain ⟨text, s₁, htext, hrest⟩ := run_bind_ok (run_of_fst_eq hrun)
  obtain ⟨-, rfl⟩ := Prod.mk.inj htext
  obtain ⟨s₂, s₃, hget, hrest⟩ := run_bind_ok hrest
  cases hget
  rw [run_liftM] at hrest
  have hfound := congrArg Prod.fst hrest
  unfold Registry.get at hfound
  split at hfound
  · next handle hhandle =>
    cases hfound
    exact ⟨_, Dict.mem_of_get? hhandle⟩
  · cases hfound

/-- An action step passes on what it asks for, and takes a failure for a value
only to see what caused it. -/
theorem run_value_of_asks {ctx : Context} {step : Step} {s : Session}
    {h : Handle} {name : String} {args : Args} {result : Except Failure Value}
    {w : World} (hasks : step.Asks s h name args)
    (hcall : (Calls.all ctx h (.action name args)).run s.world = (result, w)) :
    (step.value ctx).run s = match result with
      | .ok value => (.ok (some value), { s with world := w })
      | .error failure =>
        if failure.isUnknownAction then (.ok none,
          ({ s with world := w } : Session).reported h name)
        else (.error failure, { s with world := w }) := by
  -- the fields of the step are only read
  have hitem : (step.item "item").run s = (.ok h, s) :=
    Prod.ext hasks.item (along_item chains_eq step "item" s)
  have hargs : step.arguments.run s = (.ok args, s) :=
    Prod.ext hasks.args (along_arguments chains_eq step s)
  unfold value
  rw [hasks.kind]
  show (step.dispatch ctx).run s = _
  unfold dispatch
  rw [run_bind_of_ok hitem, run_bind, run_liftM, hasks.name]
  dsimp only
  rw [run_bind_of_ok hargs]
  have hattempt :
      (Stepping.act (Act.attempt (Calls.all ctx h (.action name args)))).run s =
      (.ok result, { s with world := w }) := by
    rw [Stepping.run_act, Act.run_attempt_of hcall]
  rw [run_bind_of_ok hattempt]
  cases result with
  | ok value => rfl
  | error failure =>
    dsimp only
    split
    -- the failure is told apart by its cause alone
    · next hcause =>
      have hunknown : failure.isUnknownAction = true := by
        unfold Failure.isUnknownAction
        rw [hcause]
      rw [hunknown, if_pos rfl, run_bind]
      rfl
    · next hcause =>
      have hother : failure.isUnknownAction = false := by
        unfold Failure.isUnknownAction
        split
        · next heq => exact absurd heq (hcause _ _)
        · rfl
      rw [hother, if_neg Bool.false_ne_true, run_throw]

/-- A step without a value binds nothing. -/
theorem run_execute_of_skipped {ctx : Context} {step : Step} {s s' : Session}
    (h : (step.value ctx).run (step.noted s) = (.ok none, s')) :
    (step.execute ctx).run s = (.ok (), s') := by
  rw [run_execute, run_bind_of_ok h]
  rfl

theorem run_execute_of_failed {ctx : Context} {step : Step} {s s' : Session}
    {failure : Failure}
    (h : (step.value ctx).run (step.noted s) = (.error failure, s')) :
    (step.execute ctx).run s = (.error failure, s') := by
  rw [run_execute, run_bind_of_error h]

/-- **When an action step is skipped.** In every session of a playbook run, let an
action step name an item that exists, and let its arguments resolve. It is skipped
exactly if the item lacks the action, or has it and this fails for an action that
does not exist. A step that is skipped is reported, binds nothing and lets the run
go on; if the item lacks the action, nothing else happens. Every other failure of an
action that the item has is the failure of the step. -/
theorem skipped_iff {ctx : Context} {s : Session} (hs : s.Reached ctx)
    {step : Step} {h : Handle} {name : String} {args : Args}
    (hasks : step.Asks (step.noted s) h name args) :
    ∃ item, s.world.itemAt h.slot = some item ∧
      let asked := (Calls.all ctx h (.action name args)).run (step.noted s).world
      (step.Skipped ctx s ↔ item.offers name = false ∨
        ∃ failure, asked.1 = .error failure ∧ failure.isUnknownAction = true) ∧
      (step.Skipped ctx s → (step.execute ctx).run s =
        (.ok (), ({ step.noted s with world := asked.2 } : Session).reported h
          name)) ∧
      (item.offers name = false → asked.2 = (step.noted s).world) ∧
      (∀ failure, asked.1 = .error failure → failure.isUnknownAction = false →
        (step.execute ctx).run s =
        (.error failure, { step.noted s with world := asked.2 })) := by
  obtain ⟨key, hmem⟩ := mem_items_of_run_item hasks.item
  obtain ⟨item, hslot⟩ := hs.free key h hmem
  refine ⟨item, ?_, ?_⟩
  · unfold World.itemAt
    rw [hslot]
    rfl
  intro asked
  have hlacks (hno : item.offers name = false) :
      asked = (.error ⟨[], .unknownAction item.name name⟩, (step.noted s).world) :=
    Calls.run_all_of_lacks (w := (step.noted s).world) hslot hno ctx args
  by_cases hunknown : ∃ failure, asked.1 = .error failure ∧
    failure.isUnknownAction = true
  · obtain ⟨failure, hfailure, hcause⟩ := hunknown
    have hskip : (step.value ctx).run (step.noted s) =
        (.ok none, ({ step.noted s with world := asked.2 } : Session).reported h
          name) := by
      rw [run_value_of_asks hasks (run_of_fst_eq hfailure)]
      exact if_pos hcause
    refine ⟨⟨fun _ => Or.inr ⟨failure, hfailure, hcause⟩, fun _ =>
      congrArg Prod.fst hskip⟩, ?_, ?_, ?_⟩
    · exact fun _ => run_execute_of_skipped hskip
    · exact fun hno => congrArg Prod.snd (hlacks hno)
    · intro other hother hnot
      rw [hfailure] at hother
      cases hother
      rw [hcause] at hnot
      cases hnot
  -- whatever came back, it was not the refusal of an action that the item lacks
  · have hoffers : item.offers name ≠ false :=
      fun hno => hunknown ⟨_, congrArg Prod.fst (hlacks hno), rfl⟩
    have hfails : ∀ failure, asked.1 = .error failure →
        (step.value ctx).run (step.noted s) =
        (.error failure, { step.noted s with world := asked.2 }) := by
      intro failure hfailure
      have hcause : ¬ failure.isUnknownAction = true :=
        fun h => hunknown ⟨failure, hfailure, h⟩
      rw [run_value_of_asks hasks (run_of_fst_eq hfailure)]
      exact if_neg hcause
    have hnot : ¬ step.Skipped ctx s := by
      unfold Skipped
      cases hresult : asked.1 with
      | error failure =>
        rw [hfails failure hresult]
        exact fun h => by cases h
      | ok value =>
        rw [run_value_of_asks hasks (run_of_fst_eq hresult)]
        exact fun h => by cases h
    refine ⟨⟨fun hskip => absurd hskip hnot, fun hor => ?_⟩, fun hskip =>
      absurd hskip hnot, fun hno => absurd hno hoffers,
      fun failure hfailure _ => run_execute_of_failed (hfails failure hfailure)⟩
    exact hor.elim (fun hno => absurd hno hoffers) fun h => absurd h hunknown

/-- A computation that asks the item in its argument for an action. -/
def asking (action : String) : Computation :=
  .native (some ["item"]) fun _ args =>
    match args.get? "item" with
    | some (.item h) => .ask h (.action action []) fun
      | .ok value => .done value
      | .error failure => .fail failure
    | _ => .done .null

/-- A database and an algorithm with one action, which passes its item on
to a computation. -/
def askingProject : ProjectSpec :=
  { workdir := "wd", datasets := [{ name := "db" }]
    algorithms := [{ name := "alg", actions := [.module "go" "m" none] }] }

/-- The registry of `askingProject`, made where the computation asks for an
action that databases lack. -/
def askingMade : Except Failure Registry × World :=
  (Registry.ofProject (Registry.quietContext "/") askingProject).run
    (({ disk := .empty } : World).register "m" (asking "nope"))

/-- A run of an empty playbook over that registry. -/
def askingSession : Session :=
  { world := askingMade.2
    run :=
      { registry :=
          { workdir := "wd", items := [("db", ⟨"db", 0⟩), ("alg", ⟨"alg", 1⟩)] }
        plan := {} } }

theorem reached_askingSession :
    askingSession.Reached (Registry.quietContext "/") := by
  have hmade : askingMade.1 = .ok askingSession.run.registry := by decide +kernel
  exact .fresh (Registry.free_ofProject (run_of_fst_eq hmade))

/-- An action step with an output. -/
def actionOn (item action : String) (args : List (String × Json)) : Step :=
  { kind := "action", output := some (.name "y")
    fields := [("item", .str item), ("action", .str action), ("args", .obj args)] }

/-- A step for an action that its database lacks is skipped. -/
theorem skipped_for_lack :
    let ctx := Registry.quietContext "/"
    let step := actionOn "db" "nope" []
    ∃ item, askingSession.world.itemAt 0 = some item ∧
    item.offers "nope" = false ∧ step.Skipped ctx askingSession := by
  intro ctx step
  have hasks : step.Asks (step.noted askingSession) ⟨"db", 0⟩ "nope" [] :=
    ⟨by decide, by rfl, by rfl, by rfl⟩
  obtain ⟨item, hitem, hskipped, -⟩ := skipped_iff reached_askingSession hasks
  have hlacks : item.offers "nope" = false := by
    have hcheck : (askingSession.world.itemAt 0).all (fun i =>
        i.offers "nope" = false) := by decide +kernel
    rw [hitem] at hcheck
    exact of_decide_eq_true hcheck
  exact ⟨item, hitem, hlacks, hskipped.mpr (Or.inl hlacks)⟩

/-- A step whose own item has the action is skipped all the same when that asks
another item for one it lacks. -/
theorem skipped_for_nested :
    let ctx := Registry.quietContext "/"
    let step := actionOn "alg" "go" [("item", .str "@db")]
    ∃ (h : Handle) (args : Args) (item : Item) (failure : Failure),
      askingSession.Reached ctx ∧
      step.Asks (step.noted askingSession) h "go" args ∧
      askingSession.world.itemAt h.slot = some item ∧
      item.offers "go" = true ∧
      ((Calls.all ctx h (.action "go" args)).run
        (step.noted askingSession).world).1 = .error failure ∧
      step.Skipped ctx askingSession := by
  intro ctx step
  have hitem : (askingSession.world.itemAt 1).isSome := by decide +kernel
  obtain ⟨item, hitem⟩ := Option.isSome_iff_exists.mp hitem
  have hoffers : item.offers "go" = true := by
    have hcheck : (askingSession.world.itemAt 1).all (·.offers "go") := by
      decide +kernel
    rw [hitem] at hcheck
    exact hcheck
  have hasks : step.Asks (step.noted askingSession) ⟨"alg", 1⟩ "go"
      [("item", .item ⟨"db", 0⟩)] :=
    ⟨by decide, by rfl, by rfl, by rfl⟩
  let asked :=
    (Calls.all ctx ⟨"alg", 1⟩ (.action "go" [("item", .item ⟨"db", 0⟩)])).run
      (step.noted askingSession).world
  let failure : Failure :=
    ⟨[.action "go" "alg", .computation "m" "go"], .unknownAction "db" "nope"⟩
  obtain ⟨_, _, hasked, hfailure⟩ :=
    exists_of_check asked (fun f _ => f = failure) (by decide +kernel)
  have hfails : asked.1 = .error failure := by
    rw [hasked, of_decide_eq_true hfailure]
  have hskip : step.Skipped ctx askingSession := by
    unfold Skipped
    rw [run_value_of_asks hasks (run_of_fst_eq hfails)]
    rfl
  exact ⟨_, _, item, failure, reached_askingSession, hasks, hitem, hoffers,
    hfails, hskip⟩

end Step

end Playbook
