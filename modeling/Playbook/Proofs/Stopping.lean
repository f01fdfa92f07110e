import Mathlib.Algebra.Order.Field.Rat
import Mathlib.Algebra.Order.Field.Power
import Playbook.Proofs.Execution
import Playbook.Proofs.Loop

/-!
# Playbook — when stop steps stop the loop

A stop step names the number of passes after which the loop is to end. That number
is read where the step is executed: an integer as it is, and any other number as
none at all, which stops the loop at once. So a stop step whose number is written
with a fraction or an exponent, or does not fit a word, comes too early.

What a run executes is observed by a driver that does what the driver of runs
does and keeps a log of it: each step with the session that it was executed in.
A session counts the passes of the loop that have been completed, and the log
says that it counts right.

Main results:

* `forgets_watch` — a run that is watched is the run.
* `scheduled_watch` — the log of a run is made of the initial steps and passes
  of the loop, of which all but the last are full.
* `Moment.running_after` — what a stop step makes of the loop.
* `stops_early_iff` — a stop step comes too early exactly if its
  number is no integer.
-/

namespace Playbook

open Effect

/-! ## Watching a run -/

/-- The execution of a step: the step and the session that it was executed in. -/
structure Moment where
  step : Step
  before : Session

/-- The session after the execution of the step, however it ended. -/
def Moment.after (ctx : Context) (m : Moment) :
    Session := ((m.step.execute ctx).run m.before).2

/-- Computations of a run with a log of the steps that were executed. -/
abbrev Watching := ExceptT Failure (StateM (Session × List Moment))

namespace Session

/-- Computes something without executing a step. -/
def aside {α : Type} (x : Stepping α) : Watching α := fun (s, log) =>
  let (result, s) := x.run s
  (result, (s, log))

/-- The driver of runs, which logs every step. -/
def watcher (ctx : Context) : Driver Watching where
  execute phase number step := fun (s, log) =>
    let (result, after) := ((driver ctx).execute phase number step).run s
    (result, (after, log ++ [⟨step, s⟩]))
  running := aside (driver ctx).running
  count := aside (driver ctx).count
  giveUp := aside (driver ctx).giveUp

/-- Runs the playbook of a run from its current state and logs the steps. -/
def watch (ctx : Context) : Watching Unit := do
  let plan := (← get).1.run.plan
  (watcher ctx).run ctx.host.horizon plan

/-! ## A watched run is the run -/

/-- Up to the log both computations are the same. -/
def Forgets {α : Type} (x : Stepping α) (y : Watching α) : Prop :=
  ∀ s log, ∃ log', y.run (s, log) = ((x.run s).1, ((x.run s).2, log'))

theorem relates_forgets (ctx : Context) :
    Driver.Relates @Forgets (driver ctx) (watcher ctx) where
  pure _ _ log := ⟨log, rfl⟩
  bind {α β x y f g} hx hf := by
    intro s log
    obtain ⟨log₁, hy⟩ := hx s log
    rw [run_bind, run_bind, hy]
    rcases x.run s with ⟨failure | a, s₁⟩
    · exact ⟨log₁, rfl⟩
    · exact hf a s₁ log₁
  execute _ _ step s log := ⟨log ++ [⟨step, s⟩], rfl⟩
  running _ log := ⟨log, rfl⟩
  count _ log := ⟨log, rfl⟩
  giveUp _ log := ⟨log, rfl⟩

/-- A run that is watched is the run. -/
theorem forgets_watch (ctx : Context) : Forgets (play ctx) (watch ctx) :=
  fun s log => (relates_forgets ctx).run ctx.host.horizon s.run.plan s log

/-! ## The log -/

variable (ctx : Context)

theorem run_watched_execute (phase : String) (number : Nat) (step : Step)
    (s : Session) (log : List Moment) :
    ((watcher ctx).execute phase number step).run (s, log) =
      (((step.execute ctx).run s).1.mapError
        (Failure.within (.step phase number step.kind)),
        (Moment.after ctx ⟨step, s⟩, log ++ [⟨step, s⟩])) := rfl

theorem run_watched_running (s : Session) (log : List Moment) :
    (watcher ctx).running.run (s, log) = (.ok s.run.running, (s, log)) := rfl

/-- Steps were executed one after the other, as far as there is something in the
log, and the counter did not move. -/
structure Stretch (steps : List Step) (passes : Nat)
    (log : List Moment) : Prop where
  steps : log.map Moment.step <+: steps
  passes : ∀ m ∈ log, m.before.run.iterations = passes

theorem stretch_nil (steps : List Step) (passes : Nat) : Stretch steps passes [] :=
  ⟨List.nil_prefix, fun _ h => (List.not_mem_nil h).elim⟩

theorem Stretch.cons {step : Step} {steps : List Step} {s : Session}
    {log : List Moment} (h : Stretch steps s.run.iterations log) :
    Stretch (step :: steps) s.run.iterations (⟨step, s⟩ :: log) := by
  refine ⟨(List.prefix_cons_inj step).mpr h.steps, fun m hm => ?_⟩
  rcases List.mem_cons.mp hm with rfl | hrest
  · rfl
  · exact h.passes m hrest

theorem iterations_after (m : Moment) :
    (m.after ctx).run.iterations = m.before.run.iterations :=
  Step.iterations_execute ctx m.step m.before

/-- All steps of a phase are executed, unless one fails. -/
theorem run_watched_all (phase : String) (number : Nat) (steps : List Step)
    (s : Session) (log : List Moment) :
    ∃ result s' more, ((watcher ctx).all phase number steps).run (s, log) =
      (result, (s', log ++ more)) ∧
      s'.run.iterations = s.run.iterations ∧ Stretch steps s.run.iterations more ∧
      ∀ a, result = .ok a → more.map Moment.step = steps := by
  induction steps generalizing number s log with
  | nil =>
    exact ⟨.ok (), s,
      [], by rw [List.append_nil]; rfl, rfl, stretch_nil [] _, fun _ _ => rfl⟩
  | cons step steps ih =>
    rw [Driver.all, run_bind, run_watched_execute]
    have hiterations := iterations_after ctx ⟨step, s⟩
    rcases (step.execute ctx).run s with ⟨failure | _, _⟩
    · exact ⟨_, _, [⟨step, s⟩], rfl, hiterations, (stretch_nil steps _).cons,
        fun _ h => by cases h⟩
    · obtain ⟨result, s', more, hrun, hsame, hstretch, hall⟩ :=
        ih (number + 1) (Moment.after ctx ⟨step, s⟩) (log ++ [⟨step, s⟩])
      rw [hiterations] at hsame hstretch
      refine ⟨result, s', ⟨step, s⟩ :: more, ?_, hsame, hstretch.cons,
        fun a ha => ?_⟩
      · rw [List.append_assoc] at hrun
        exact hrun
      · rw [List.map_cons, hall a ha]

/-- The steps of a pass are executed as long as the loop goes on and none fails. -/
theorem run_watched_pass (phase : String) (number : Nat) (steps : List Step)
    (s : Session) (log : List Moment) :
    ∃ result s' more, ((watcher ctx).pass phase number steps).run (s, log) =
      (result, (s', log ++ more)) ∧
      s'.run.iterations = s.run.iterations ∧ Stretch steps s.run.iterations more ∧
      (result = .ok true → more.map Moment.step = steps) ∧
      (result = .ok false → s'.run.running = false) := by
  induction steps generalizing number s log with
  | nil =>
    refine ⟨.ok s.run.running, s,
      [], by rw [List.append_nil]; rfl, rfl, stretch_nil [] _, fun _ => rfl, fun h => ?_⟩
    exact Except.ok.inj h
  | cons step steps ih =>
    rw [Driver.pass, run_bind, run_watched_running]
    dsimp only
    cases hrunning : s.run.running with
    | false =>
      rw [if_neg Bool.false_ne_true]
      exact ⟨.ok false, s,
        [], by rw [List.append_nil]; rfl, rfl, stretch_nil _ _,
        fun h => (by cases h), fun _ => hrunning⟩
    | true =>
      rw [if_pos rfl, run_bind, run_watched_execute]
      have hiterations := iterations_after ctx ⟨step, s⟩
      rcases (step.execute ctx).run s with ⟨failure | _, _⟩
      · exact ⟨_, _, [⟨step, s⟩], rfl, hiterations, (stretch_nil steps _).cons,
          fun h => (by cases h), fun h => (by cases h)⟩
      · obtain ⟨result, s', more, hrun, hsame, hstretch, hfull, hstopped⟩ :=
          ih (number + 1) (Moment.after ctx ⟨step, s⟩) (log ++ [⟨step, s⟩])
        rw [hiterations] at hsame hstretch
        refine ⟨result, s', ⟨step, s⟩ :: more, ?_, hsame, hstretch.cons,
          fun h => ?_, hstopped⟩
        · rw [List.append_assoc] at hrun
          exact hrun
        · rw [List.map_cons, hfull h]

/-- Passes of the loop from a counter on: full ones, each of which counts, and
one that need not be full. -/
inductive Rounds (body : List Step) : (passes : Nat) → List Moment → Prop where
  | last {passes : Nat} {pass : List Moment} (h : Stretch body passes pass) :
      Rounds body passes pass
  | full {passes : Nat} {pass rest : List Moment} (h : Stretch body passes pass)
      (hfull : pass.map Moment.step = body)
      (hrest : Rounds body (passes + 1) rest) : Rounds body passes (pass ++ rest)

/-- A loop that has been stopped executes nothing. -/
theorem run_watched_loop_of_stopped (body : List Step) (left : Nat)
    {s : Session} (h : s.run.running = false) (log : List Moment) :
    ((watcher ctx).loop body left).run (s, log) = (.ok (), (s, log)) := by
  cases left with
  | zero =>
    rw [Driver.loop, run_bind, run_watched_running, h]
    rfl
  | succ left =>
    rw [Driver.loop, run_bind, run_watched_running, h]
    rfl

/-- The loop is passed again and again, and every full pass is counted. -/
theorem run_watched_loop (body : List Step) (left : Nat) (s : Session)
    (log : List Moment) :
    ∃ result s' more, ((watcher ctx).loop body left).run (s, log) =
      (result, (s', log ++ more)) ∧
      Rounds body s.run.iterations more := by
  induction left generalizing s log with
  | zero =>
    rw [Driver.loop, run_bind, run_watched_running]
    refine ⟨if s.run.running then .error ⟨[], .endlessLoop⟩
      else .ok (), s, [], ?_, .last (stretch_nil _ _)⟩
    rw [List.append_nil]
    cases s.run.running <;> rfl
  | succ left ih =>
    cases hrunning : s.run.running with
    | false =>
      refine ⟨.ok (), s, [], ?_, .last (stretch_nil _ _)⟩
      rw [List.append_nil, run_watched_loop_of_stopped ctx body _ hrunning]
    | true =>
      rw [Driver.loop, run_bind, run_watched_running, hrunning]
      dsimp only
      rw [if_pos rfl, run_bind]
      obtain ⟨result, s₁, pass, hrun, hsame, hstretch, hfull, hstopped⟩ :=
        run_watched_pass ctx "loop" 1 body s log
      rw [hrun]
      match result with
      | .error failure => exact ⟨_, s₁, pass, rfl, .last hstretch⟩
      | .ok false =>
        -- the pass was stopped: the loop is entered once more, only to
        -- find itself stopped
        exact ⟨.ok (), s₁, pass, run_watched_loop_of_stopped ctx body
          left (hstopped rfl) _, .last hstretch⟩
      | .ok true =>
        obtain ⟨result, s₂, more, hloop, hrounds⟩ := ih
          { s₁ with run := { s₁.run with iterations := s₁.run.iterations + 1 } }
          (log ++ pass)
        refine ⟨result, s₂, pass ++ more, ?_,
          .full hstretch (hfull rfl) (hsame ▸ hrounds)⟩
        rw [List.append_assoc] at hloop
        exact hloop

/-- The log of a run from a counter on: the initial steps, as far as none
failed, and then the passes of the loop. -/
inductive Scheduled (plan : Plan) (passes : Nat) : List Moment → Prop where
  | initial {first : List Moment} (h : Stretch plan.init passes first) :
      Scheduled plan passes first
  | looping {body : List Step} {first rest : List Moment}
      (hbody : plan.body = some body)
      (h : Stretch plan.init passes first)
      (hall : first.map Moment.step = plan.init)
      (hrest : Rounds body passes rest) :
      Scheduled plan passes (first ++ rest)

/-- The log of a run consists of what the playbook says is to be executed, and
the counter stands at the full passes before. -/
theorem scheduled_watch (ctx : Context) (start : Session) :
    Scheduled start.run.plan start.run.iterations
      ((watch ctx).run (start, [])).2.2 := by
  have hrun : (watch ctx).run (start, []) =
      ((watcher ctx).run ctx.host.horizon start.run.plan).run (start, []) := rfl
  obtain ⟨result, s', first, hinit, hsame, hstretch, hall⟩ :=
    run_watched_all ctx "init" 1 start.run.plan.init start []
  rw [hrun, Driver.run, run_bind, hinit]
  cases result with
  | error failure => exact .initial hstretch
  | ok _ =>
    cases hbody : start.run.plan.body with
    | none => exact .initial hstretch
    | some body =>
      obtain ⟨result, s'', rest, hloop, hrounds⟩ :=
        run_watched_loop ctx body ctx.host.horizon s' ([] ++ first)
      dsimp only
      rw [hloop]
      exact .looping hbody hstretch (hall () rfl) (hsame ▸ hrounds)

end Session

/-! ## Numbers of passes -/

/-- The number that a finite double stands for. -/
def Double.value (x : Double) :
    ℚ := (if x.isNegative then -1 else 1) * x.significand * 2 ^ x.scale

/-- The number that is written. -/
def Number.value : Number → ℚ
  | integer n => n
  | real x => x.value

/-- The step is a stop step that names a number of passes. -/
structure Step.NamesPasses (s : Step) (loops : Number) : Prop where
  kind : StepKind.parse s.kind = some .stop
  loops : s.field? "loops" = some (.num loops)

/-- Whether the loop is stopped after so many passes where this number is named: an
integer is compared with them, and every other number stops the loop at once. -/
def Number.stopsAt (loops : Number) (passes : Nat) : Bool :=
  match loops with
  | integer n => n ≤ passes
  | real _ => true

theorem Step.NamesPasses.stopsAt_eq {s : Step} {loops : Number}
    (h : s.NamesPasses loops) (passes : Nat) :
    s.stopsAt passes = loops.stopsAt passes := by
  have hstops : s.stops? = some ((Json.num loops).nat?.getD 0) := by
    unfold Step.stops?
    rw [if_pos h.kind, h.loops]
    rfl
  unfold Step.stopsAt Number.stopsAt
  rw [hstops, Bool.eq_iff_iff]
  match loops with
  | .integer (.ofNat n) =>
    show decide (n ≤ passes) = true ↔ decide ((n : Int) ≤ passes) = true
    rw [decide_eq_true_iff, decide_eq_true_iff]
    exact Int.ofNat_le.symm
  | .integer (.negSucc n) =>
    simp only [Json.nat?, Number.nat?, Option.getD_none, Nat.zero_le,
      decide_true, true_iff, decide_eq_true_eq]
    omega
  | .real x => simp [Json.nat?, Number.nat?]

namespace Moment

variable (ctx : Context)

/-- The step stops the loop before as many passes have been made as it names. -/
structure Early (ctx : Context) (m : Moment) (loops : Number) : Prop where
  goes : m.before.run.running = true
  stops : (m.after ctx).run.running = false
  early : (m.before.run.iterations : ℚ) < loops.value

/-- What a stop step makes of the loop. -/
theorem running_after (m : Moment) {loops : Number} (h : m.step.NamesPasses loops) :
    (m.after ctx).run.running =
    (m.before.run.running && !loops.stopsAt m.before.run.iterations) := by
  rw [← h.stopsAt_eq]
  exact Step.running_execute ctx m.step m.before

theorem early_iff (m : Moment) {loops : Number} (h : m.step.NamesPasses loops) :
    m.Early ctx loops ↔
    m.before.run.running = true ∧ (∃ x, loops = .real x) ∧
    (m.before.run.iterations : ℚ) < loops.value := by
  have hafter := running_after ctx m h
  constructor
  · rintro ⟨hgoes, hstops, hearly⟩
    refine ⟨hgoes, ?_, hearly⟩
    cases loops with
    | real x => exact ⟨x, rfl⟩
    | integer n =>
      -- an integer that has been reached is not ahead
      rw [hstops, hgoes, Bool.true_and] at hafter
      have hreached : n ≤ m.before.run.iterations := by
        simpa [Number.stopsAt] using hafter
      have hvalue : ((n : Int) : ℚ) ≤ m.before.run.iterations := by
        exact_mod_cast hreached
      exact absurd hearly (not_lt.mpr hvalue)
  · rintro ⟨hgoes, ⟨x, rfl⟩, hearly⟩
    refine ⟨hgoes, ?_, hearly⟩
    rw [hafter]
    exact Bool.and_false _

end Moment

/-- In every run, what is executed is what the playbook says, with the passes
counted right. A stop step whose number is an integer stops the loop exactly if it
has been passed so often; one whose number is a double always does. So a stop step
comes too early exactly if its number is a double that has not been reached. -/
theorem Session.stops_early_iff (ctx : Context) (start : Session) :
    let watched := (watch ctx).run (start, [])
    (play ctx).run start = (watched.1, watched.2.1) ∧
      Scheduled start.run.plan start.run.iterations watched.2.2 ∧
      ∀ m ∈ watched.2.2, ∀ loops, m.step.NamesPasses loops →
        (m.after ctx).run.iterations = m.before.run.iterations ∧
        (∀ n, loops = .integer n →
          (m.after ctx).run.running =
          (m.before.run.running && !decide (n ≤ m.before.run.iterations))) ∧
        (∀ x, loops = .real x → (m.after ctx).run.running = false) ∧
        (m.Early ctx loops ↔
          m.before.run.running = true ∧ (∃ x, loops = .real x) ∧
          (m.before.run.iterations : ℚ) < loops.value) := by
  intro watched
  refine ⟨?_, scheduled_watch ctx start, fun m _ loops hnames =>
    ⟨iterations_after ctx m, ?_, ?_, m.early_iff ctx hnames⟩⟩
  · obtain ⟨log, hrun⟩ := forgets_watch ctx start []
    show _ = (((watch ctx).run (start, [])).1, ((watch ctx).run (start, [])).2.1)
    rw [hrun]
    rfl
  · rintro n rfl
    exact m.running_after ctx hnames
  · rintro x rfl
    rw [m.running_after ctx hnames]
    exact Bool.and_false _

/-- A loop that is to be passed `2.0` times is stopped in the first pass. -/
theorem Session.stops_before_two : ¬ ∀ (ctx : Context) (start : Session),
    ∀ m ∈ ((watch ctx).run (start, [])).2.2, ∀ loops,
    m.step.NamesPasses loops → m.before.run.running = true →
      (m.after ctx).run.running = false →
      loops.value ≤ m.before.run.iterations := by
  intro hclaim
  let two : Double := ⟨0x4000000000000000⟩
  let stop : Step :=
    { kind := "stop", output := none, fields := [("loops", .num (.real two))] }
  let start : Session := {
    world := { disk := .empty }
    run :=
      { registry := { workdir := "wd", items := [] }
        plan := { init := [], body := some [stop] } } }
  let ctx : Context := {
    settings := {}
    host :=
      { start := fun _ _ disk => .ok { status := .exited 0, disk }
        elapsed := fun _ => 0
        horizon := 1 } }
  have hlog : (((watch ctx).run (start, [])).2.2).any (fun m =>
      m.step = stop ∧ m.before.run.running = true ∧
      m.before.run.iterations = 0) = true := by decide +kernel
  obtain ⟨m, hm, hchecked⟩ := List.any_eq_true.mp hlog
  obtain ⟨hstep, hgoes, hzero⟩ := of_decide_eq_true hchecked
  have hnames : m.step.NamesPasses (.real two) := by
    rw [hstep]
    exact ⟨by decide, by decide⟩
  have hstopped : (m.after ctx).run.running = false := by
    rw [m.running_after ctx hnames]
    exact Bool.and_false _
  have hreached := hclaim ctx start m hm _ hnames hgoes hstopped
  rw [hzero] at hreached
  have htwo : (0 : ℚ) < Number.value (.real two) := by
    have hpositive : two.isNegative = false ∧ 0 < two.significand := by decide
    show 0 < two.value
    unfold Double.value
    rw [hpositive.1, if_neg Bool.false_ne_true, one_mul]
    exact mul_pos (Nat.cast_pos.mpr hpositive.2) (zpow_pos two_pos _)
  exact absurd hreached (not_le.mpr (by exact_mod_cast htwo))

end Playbook
