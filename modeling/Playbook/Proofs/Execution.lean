import Playbook.Execution
import Playbook.Proofs.Answer

/-!
# Playbook — what executing a step does to the run

A step is noted in the journal before it does anything else. Whatever else it does,
and however it ends, no other step is begun, passes are not counted, and the loop is
stopped by no step but a stop step whose number of passes has been reached.

Main results:

* `begun_lasting` — a request begins no step.
* `Carries.value` — a step that is no stop moves the session along what holds
  over acts on the world.
* `steady_execute` — up to what a stop does, a step moves the world along every
  relation that lasts over requests.
* `begun_execute`, `running_execute`, `iterations_execute`, `registry_execute` —
  the effect of a step.
-/

namespace Playbook

open Effect

/-- A request begins no step. -/
theorem begun_lasting (P : Item → Item → Prop) :
    Lasting P fun w w' => w'.begun = w.begun where
  refl _ := rfl
  trans h k := k.trans h
  side _ _ _ _ _ _ _ := rfl
  event w event h _ := by
    simp [World.begun, h]
  launched w job program arguments := by
    simp [World.begun, Event.step?]
  registered _ _ _ _ := rfl
  lock _ _ _ _ h := h
  put _ _ _ _ _ _ := rfl

/-- The world has moved along a relation, the names of the registry stand for
the items they stood for, and the control of the loop is as it was. -/
structure Steady (R : World → World → Prop) (s s' : Session) : Prop where
  world : R s.world s'.world
  registry : s'.run.registry = s.run.registry
  running : s'.run.running = s.run.running
  iterations : s'.run.iterations = s.run.iterations

theorem Steady.refl {R : World → World → Prop} (hR : Chains R) (s : Session) :
    Steady R s s :=
  ⟨hR.refl s.world, rfl, rfl, rfl⟩

theorem Steady.chains {R : World → World → Prop} (hR : Chains R) :
    Chains (Steady R) where
  refl := Steady.refl hR
  trans h k := ⟨hR.trans h.world k.world, k.registry.trans h.registry,
    k.running.trans h.running,
    k.iterations.trans h.iterations⟩

/-- An act on the world moves nothing but the world. -/
theorem Steady.act {R : World → World → Prop} {α : Type} {body : Act α}
    (h : Along R body) :
    Along (Steady R) (Stepping.act body) := fun s => ⟨h s.world, rfl, rfl, rfl⟩

namespace Step

/-! ## Reading the fields of a step -/

section

variable {S : Session → Session → Prop} (hS : Chains S)

include hS

theorem along_resolve (token : Json) : Along S (Stepping.resolve token) :=
  Along.bind hS (Along.get hS) fun _ => Along.liftM hS _

theorem along_item (s : Step) (field : String) : Along S (s.item field) :=
  Along.bind hS (Along.liftM hS _) fun _ =>
    Along.bind hS (Along.get hS) fun _ => Along.liftM hS _

theorem along_resolveFields (fields : List (String × Json)) :
    Along S (resolveFields fields) := by
  induction fields with
  | nil => exact Along.pure hS _
  | cons entry rest ih =>
    exact Along.bind hS (along_resolve hS _) fun _ => Along.bind hS ih fun _ =>
      Along.pure hS _

theorem along_arguments (s : Step) : Along S s.arguments := by
  unfold arguments
  split
  · exact Along.pure hS _
  · exact Along.pure hS _
  · exact along_resolveFields hS _
  · exact Along.throw hS _

theorem along_messageValues (s : Step) : Along S s.messageValues := by
  unfold messageValues
  split
  · exact Along.pure hS _
  · exact Along.pure hS _
  · exact Along.mapM hS _ fun _ => Along.map (along_resolve hS _)
  · exact Along.bind hS (along_resolve hS _) fun _ => Along.pure hS _

end

/-! ## Steps that are no stops -/

/-- A relation of sessions that holds over every act on the world, provided that
all relations that last over requests hold over that act. -/
structure Carries (S : Session → Session → Prop) : Prop extends Chains S where
  act : ∀ {α : Type} (body : Act α),
    (∀ R, Lasting Item.Follows R → Along R body) → Along S (Stepping.act body)

theorem carries_steady {R : World → World → Prop}
    (hR : Lasting Item.Follows R) : Carries (Steady R) where
  toChains := Steady.chains hR.toChains
  act _ hbody := Steady.act (hbody R hR)

namespace Carries

variable {S : Session → Session → Prop} (hS : Carries S)

include hS

theorem note (event : Event) (hstep : event.step? = none)
    (hlaunch : event.launch? = none) :
    Along S (Stepping.act (Act.note event)) :=
  hS.act _ fun _ hR => hR.note event hstep hlaunch

theorem ask (ctx : Context) (h : Handle) (request : Request) :
    Along S (Stepping.ask ctx h request) :=
  hS.act _ fun _ hR => hR.all ctx h request

theorem dumpArrays (s : Step) : Along S s.dumpArrays := by
  refine Along.bind hS.toChains (Along.liftM hS.toChains _) fun path => ?_
  split
  · exact Along.throw hS.toChains _
  · refine Along.bind hS.toChains (Along.get hS.toChains) fun _ => ?_
    refine Along.bind hS.toChains (Along.liftM hS.toChains _) fun arrays => ?_
    have hwrite : Along S
        (Stepping.act (Act.within (.writeArchive path)
          (Act.onDisk (Archive.write path arrays)))) :=
      hS.act _ fun _ hR => Calm.within _ (hR.onDisk _)
    exact Along.bind hS.toChains hwrite fun _ => Along.pure hS.toChains _

theorem dispatch (ctx : Context) (s : Step) : Along S (s.dispatch ctx) := by
  refine Along.bind hS.toChains (along_item hS.toChains s _) fun h => ?_
  refine Along.bind hS.toChains (Along.liftM hS.toChains _) fun name => ?_
  refine Along.bind hS.toChains (along_arguments hS.toChains s) fun args => ?_
  have hcall : Along S
      (Stepping.act (Act.attempt (Calls.all ctx h (.action name args)))) :=
    hS.act _ fun _ hR => Calm.attempt (hR.all ctx h _)
  refine Along.bind hS.toChains hcall fun result => ?_
  cases result with
  | ok value => exact Along.pure hS.toChains _
  | error failure =>
    dsimp only
    split
    · exact Along.bind hS.toChains (hS.note _ rfl rfl) fun _ =>
        Along.pure hS.toChains _
    · exact Along.throw hS.toChains _

theorem updateItem (ctx : Context) (s : Step) : Along S (s.updateItem ctx) := by
  refine Along.bind hS.toChains (along_item hS.toChains s _) fun h => ?_
  refine Along.bind hS.toChains (Along.liftM hS.toChains _) fun _ => ?_
  refine Along.bind hS.toChains (along_resolve hS.toChains _) fun entries => ?_
  split
  · exact Along.throw hS.toChains _
  · refine Along.bind hS.toChains (Along.liftM hS.toChains _) fun _ => ?_
    refine Along.bind hS.toChains (along_resolve hS.toChains _) fun values => ?_
    split
    · exact Along.throw hS.toChains _
    · exact Along.bind hS.toChains (hS.ask ctx h _) fun _ =>
        Along.pure hS.toChains _

theorem perform (ctx : Context) (s : Step) {kind : StepKind}
    (hkind : kind ≠ .stop) : Along S (s.perform ctx kind) := by
  have hitem := along_item hS.toChains s
  cases kind with
  | serialize =>
    refine Along.bind hS.toChains (hitem _) fun _ =>
      Along.bind hS.toChains (hS.ask ctx _ _) fun _ => ?_
    exact Along.pure hS.toChains _
  | save =>
    refine Along.bind hS.toChains (hitem _) fun _ =>
      Along.bind hS.toChains (Along.liftM hS.toChains _) fun _ => ?_
    exact Along.bind hS.toChains (hS.ask ctx _ _) fun _ => Along.pure hS.toChains _
  | dumpNpz => exact Along.map (hS.dumpArrays s)
  | action => exact hS.dispatch ctx s
  | logInfo =>
    refine Along.bind hS.toChains (Along.liftM hS.toChains _) fun _ => ?_
    refine Along.bind hS.toChains (along_messageValues hS.toChains s) fun _ => ?_
    exact Along.bind hS.toChains (hS.note _ rfl rfl) fun _ =>
      Along.pure hS.toChains _
  | updateEntries =>
    exact Along.bind hS.toChains (hS.updateItem ctx s) fun _ =>
      Along.pure hS.toChains _
  | clear =>
    refine Along.bind hS.toChains (hitem _) fun _ =>
      Along.bind hS.toChains (hS.ask ctx _ _) fun _ => ?_
    exact Along.pure hS.toChains _
  | merge =>
    refine Along.bind hS.toChains (hitem _) fun _ =>
      Along.bind hS.toChains (hitem _) fun _ => ?_
    exact Along.bind hS.toChains (hS.ask ctx _ _) fun _ => Along.pure hS.toChains _
  | stop => exact absurd rfl hkind

/-- A step of an unknown kind is only reported. -/
theorem value (ctx : Context) {s : Step}
    (h : StepKind.parse s.kind ≠ some .stop) : Along S (s.value ctx) := by
  unfold Step.value
  split
  · next kind hkind => exact hS.perform ctx s fun hstop => h (hstop ▸ hkind)
  · exact Along.bind hS.toChains (hS.note _ rfl rfl) fun _ =>
      Along.pure hS.toChains _

end Carries

/-! ## Stops -/

/-- The number of passes from which on a step stops the loop, if it is a stop
step. One that names no number does so from the beginning. -/
def stops? (s : Step) : Option Nat :=
  if StepKind.parse s.kind = some .stop then some
    (((s.field? "loops").bind Json.nat?).getD 0) else none

/-- Whether a step stops the loop after this many passes. -/
def stopsAt (s : Step) (passes : Nat) : Bool :=
  match s.stops? with
  | some loops => loops ≤ passes
  | none => false

theorem parse_ne_of_stops? {s : Step} (h : s.stops? = none) :
    StepKind.parse s.kind ≠ some .stop := by
  intro hstop
  rw [stops?, if_pos hstop] at h
  cases h

/-- A stop step asks the run to stop, and does nothing else. -/
theorem run_value_of_stops? (ctx : Context) {s : Step} {loops : Nat}
    (h : s.stops? = some loops) (session : Session) :
    (s.value ctx).run session = (.ok (some .null),
      { session with run := session.run.requestStop loops }) := by
  unfold stops? at h
  split at h
  · next hkind =>
    cases h
    unfold value
    rw [hkind]
    rfl
  · cases h

theorem steady_bindOutput {R : World → World → Prop} (hR : Chains R)
    (output : OutputSpec) (value : Value) :
    Along (Steady R) (bindOutput output value) :=
  fun s => ⟨hR.refl s.world, rfl, rfl, rfl⟩

/-! ## The effect of a step -/

/-- Where the value of a step goes; this neither begins a step
nor stops the loop. -/
theorem steady_output {R : World → World → Prop} (hR : Chains R) (s : Step)
    (value : Option Value) :
    Along (Steady R) (match value, s.output with
      | some value, some output => bindOutput output value
      | _, _ => pure () : Stepping Unit) := by
  split
  · exact steady_bindOutput hR _ _
  · exact Along.pure (Steady.chains hR) _

/-- The session in which a step has been noted. -/
def noted (s : Step) (session : Session) : Session :=
  { session with
    world :=
      { session.world with journal := session.world.journal.push (.stepped s) } }

theorem begun_noted (s : Step) (session : Session) :
    (s.noted session).world.begun = session.world.begun ++ [s] := by
  simp [noted, World.begun, Event.step?]

/-- Executing a step notes it, takes its value and writes that to its output. -/
theorem run_execute (ctx : Context) (s : Step) (session : Session) :
    (s.execute ctx).run session = (s.value ctx >>= fun value =>
      (match value, s.output with
      | some value, some output => bindOutput output value
      | _, _ => pure () : Stepping Unit)).run (s.noted session) := rfl

/-- After it was noted, a step is steady up to what a stop does. -/
theorem steady_execute {R : World → World → Prop} (hR : Lasting Item.Follows R)
    (ctx : Context) (s : Step) (session : Session) :
    Steady R (match s.stops? with
      | some loops => { s.noted session with run := session.run.requestStop loops }
      | none => s.noted session) ((s.execute ctx).run session).2 := by
  rw [run_execute]
  cases hstops : s.stops? with
  | none =>
    have hvalue := (carries_steady hR).value ctx (parse_ne_of_stops? hstops)
    exact Along.bind (Steady.chains hR.toChains) hvalue
      (steady_output hR.toChains s) _
  | some loops =>
    rw [run_bind, run_value_of_stops? ctx hstops]
    exact steady_output hR.toChains s _ _

/-- A step leaves the world that was found in a relation that lasts and that
noting a step keeps. -/
theorem world_execute {R : World → World → Prop} (hR : Lasting Item.Follows R)
    (ctx : Context) (s : Step) (session : Session)
    (hnoted : R session.world (s.noted session).world) :
    R session.world ((s.execute ctx).run session).2.world := by
  have h := (steady_execute hR ctx s session).world
  cases hstops : s.stops? with
  | none =>
    rw [hstops] at h
    exact hR.trans hnoted h
  | some loops =>
    rw [hstops] at h
    exact hR.trans hnoted h

/-- Every step is noted once, and begins no other. -/
theorem begun_execute (ctx : Context) (s : Step) (session : Session) :
    ((s.execute ctx).run session).2.world.begun = session.world.begun ++ [s] := by
  have h := (steady_execute (begun_lasting _) ctx s session).world
  rw [h, ← begun_noted]
  cases s.stops? <;> rfl

/-- The registry of a run is the same after each step. -/
theorem registry_execute (ctx : Context) (s : Step) (session : Session) :
    ((s.execute ctx).run session).2.run.registry = session.run.registry := by
  have h := (steady_execute (begun_lasting _) ctx s session).registry
  rw [h]
  cases s.stops? with
  | none => rfl
  | some loops =>
    show (session.run.requestStop loops).registry = _
    unfold Run.requestStop
    split <;> rfl

theorem iterations_execute (ctx : Context) (s : Step) (session : Session) :
    ((s.execute ctx).run session).2.run.iterations = session.run.iterations := by
  have h := (steady_execute (begun_lasting _) ctx s session).iterations
  rw [h]
  cases s.stops? with
  | none => rfl
  | some loops =>
    show (session.run.requestStop loops).iterations = _
    unfold Run.requestStop
    split <;> rfl

/-- A step stops the loop when it is a stop step and enough
passes have been made. -/
theorem running_execute (ctx : Context) (s : Step) (session : Session) :
    ((s.execute ctx).run session).2.run.running =
    (session.run.running && !s.stopsAt session.run.iterations) := by
  have h := (steady_execute (begun_lasting _) ctx s session).running
  rw [h]
  unfold stopsAt
  cases s.stops? with
  | none => simp [noted]
  | some loops =>
    show (session.run.requestStop loops).running = _
    unfold Run.requestStop
    split
    · next hle => simp [hle]
    · next hlt => simp [hlt]

end Step

end Playbook
