import Playbook.Proofs.Execution
import Playbook.Proofs.Loop

/-!
# Playbook — the course of a playbook

Which steps a playbook executes, and when its loop ends, depends on nothing but
its stop steps: `Plan.course` says so without running anything. A run follows
that course. It leaves it only by failing: where a step fails, or where the host
gives up on a loop that has not ended within its horizon.

The proof goes through a dry run, which executes no step but keeps the control
of the loop. A run and the dry run of the same driver stay together (`Shadows`),
and the dry run is computed (`run_dry`).

Main results:

* `Shadows.bind`, `shadows_run` — a run stays with its dry run.
* `run_loop`, `run_dry` — the dry run makes the intended course.
* `play_course` — what a run of a playbook executes, and how it ends.
-/

namespace Playbook

open Effect

/-! ## The intended course -/

/-- A step at its place in a phase. -/
structure Turn where
  phase : String
  number : Nat
  step : Step
deriving DecidableEq, Repr

/-- Steps one after the other, the first one as the step with this number. -/
def turnsOf (phase : String) : (number : Nat) → List Step → List Turn
  | _, [] => []
  | number, step :: steps => ⟨phase, number, step⟩ :: turnsOf phase
    (number + 1) steps

/-- The turns up to the first of a kind, which is the last of them. -/
def upTo (last : Step → Bool) : List Turn → List Turn
  | [] => []
  | t :: ts => if last t.step then [t] else t :: upTo last ts

/-- So many full passes of a loop. -/
def fullPasses (count : Nat) (body : List Step) :
    List Turn := (List.replicate count (turnsOf "loop" 1 body)).flatten

/-- The smallest number of passes that a stop step among some steps names. -/
def leastLoops (steps : List Step) : Option Nat :=
  (steps.filterMap Step.stops?).min?

/-- The turns that a playbook is meant to take, and how the run
stands after them. -/
structure Course where
  turns : List Turn
  /-- Whether the run is over after them. -/
  ends : Bool
  running : Bool
  iterations : Nat
deriving DecidableEq, Repr

/-- The course of a playbook whose loop is passed at most `limit` times. -/
def Plan.course (p : Plan) (limit : Nat) : Course :=
  let start := turnsOf "init" 1 p.init
  let halted := p.init.any fun step => step.stops? == some 0
  match p.body with
  | none => ⟨start, true, !halted, 0⟩
  | some body =>
    -- the initial steps are taken all the same when one of them stops the loop
    if halted then ⟨start, true, false, 0⟩
    else
      match leastLoops body with
      | none => ⟨start ++ fullPasses limit body, false, true, limit⟩
      | some loops =>
        if loops < limit then
          let last := upTo (fun step => step.stops? == some loops)
              (turnsOf "loop" 1 body)
          ⟨start ++ fullPasses loops body ++ last, true, false, loops⟩
        else ⟨start ++ fullPasses limit body, false, true, limit⟩

theorem fullPasses_succ (count : Nat) (body : List Step) :
    fullPasses (count + 1) body = turnsOf "loop" 1 body ++ fullPasses
      count body := by
  simp [fullPasses, List.replicate_succ]

/-! ## Turns -/

theorem step_mem_of_mem_turnsOf {phase : String} {number : Nat}
    {steps : List Step} {t : Turn} (h : t ∈ turnsOf phase number steps) :
    t.step ∈ steps := by
  induction steps generalizing number with
  | nil => cases h
  | cons step steps ih =>
    rcases List.mem_cons.mp h with rfl | hrest
    · exact List.mem_cons_self ..
    · exact List.mem_cons_of_mem _ (ih hrest)

theorem upTo_eq_self {last : Step → Bool} {ts : List Turn}
    (h : ∀ t ∈ ts, last t.step = false) : upTo last ts = ts := by
  induction ts with
  | nil => rfl
  | cons t ts ih =>
    have hhead := h t (List.mem_cons_self ..)
    rw [upTo, hhead, if_neg Bool.false_ne_true, ih fun u hu =>
      h u (List.mem_cons_of_mem _ hu)]

theorem upTo_congr {last last' : Step → Bool} {ts : List Turn}
    (h : ∀ t ∈ ts, last t.step = last' t.step) :
    upTo last ts = upTo last' ts := by
  induction ts with
  | nil => rfl
  | cons t ts ih =>
    rw [upTo, upTo, h t (List.mem_cons_self ..), ih fun u hu =>
      h u (List.mem_cons_of_mem _ hu)]

/-- A loop goes on until the least number of passes that one of its
stop steps names. -/
theorem any_stopsAt (steps : List Step) (passes : Nat) :
    steps.any (·.stopsAt passes) = match leastLoops steps with
      | none => false
      | some loops => decide (loops ≤ passes) := by
  unfold leastLoops
  cases hmin : (steps.filterMap Step.stops?).min? with
  | none =>
    rw [List.min?_eq_none_iff] at hmin
    rw [List.any_eq_false]
    intro step hstep
    have hstops := List.filterMap_eq_nil_iff.mp hmin step hstep
    simp [Step.stopsAt, hstops]
  | some loops =>
    -- `first` names the least number; whichever step stops the loop names
    -- one that is no less
    obtain ⟨hmem, hleast⟩ := List.min?_eq_some_iff.mp hmin
    obtain ⟨first, hfirst, hstops⟩ := List.mem_filterMap.mp hmem
    rw [Bool.eq_iff_iff, List.any_eq_true, decide_eq_true_iff]
    constructor
    · rintro ⟨step, hstep, hstop⟩
      unfold Step.stopsAt at hstop
      cases hs : step.stops? with
      | none =>
        rw [hs] at hstop
        cases hstop
      | some n =>
        rw [hs] at hstop
        have hn := hleast n (List.mem_filterMap.mpr ⟨step, hstep, hs⟩)
        exact Nat.le_trans hn (of_decide_eq_true hstop)
    · intro hle
      refine ⟨first, hfirst, ?_⟩
      unfold Step.stopsAt
      rw [hstops]
      exact decide_eq_true hle

/-- In the pass that is stopped, the stop steps that count are those that name
the least number of passes. -/
theorem upTo_stopsAt {steps : List Step} {loops : Nat}
    (h : leastLoops steps = some loops) :
    upTo (·.stopsAt loops) (turnsOf "loop" 1 steps) =
      upTo (fun step => step.stops? == some loops) (turnsOf "loop" 1 steps) := by
  refine upTo_congr fun t ht => ?_
  have hleast := (List.min?_eq_some_iff.mp h).2
  unfold Step.stopsAt
  cases hs : t.step.stops? with
  | none => rfl
  | some n =>
    have hn :=
      hleast n (List.mem_filterMap.mpr ⟨t.step, step_mem_of_mem_turnsOf ht, hs⟩)
    rw [Bool.eq_iff_iff]
    simp only [decide_eq_true_eq, beq_iff_eq, Option.some.injEq]
    omega

/-! ## Dry runs -/

/-- The control of the loop, and the turns that were taken. -/
structure Dry where
  running : Bool
  iterations : Nat
  turns : List Turn

namespace Dry

/-- Takes a turn: only its stop matters. -/
def take (t : Turn) (c : Dry) : Dry :=
  { c with running := c.running && !t.step.stopsAt c.iterations, turns := c.turns ++ [t] }

/-- The driver that executes no step. -/
def driver : Driver (ExceptT Unit (StateM Dry)) where
  execute phase number step := modify (take ⟨phase, number, step⟩)
  running := do return (← get).running
  count := modify fun c => { c with iterations := c.iterations + 1 }
  giveUp := throw ()

end Dry

/-! ## A run and its dry run -/

/-- The loop stands the same way in a run and in a dry run. -/
structure Agrees (s : Session) (c : Dry) : Prop where
  running : c.running = s.run.running
  iterations : c.iterations = s.run.iterations

/-- A run fails in one of some turns, having executed those before it. -/
def FailsIn (ctx : Context) (begun : List Step) (ts : List Turn)
    (failure : Failure) (after : Session) : Prop :=
  ∃ done t rest before fault, ts = done ++ t :: rest ∧
    before.world.begun = begun ++ done.map Turn.step ∧
    (t.step.execute ctx).run before = (.error fault, after) ∧
    failure = fault.within (.step t.phase t.number t.step.kind)

/-- A part of a run takes the turns of its dry run, all of them
unless it fails in one. -/
structure Shadows {α : Type} (ctx : Context) (x : Stepping α)
    (y : ExceptT Unit (StateM Dry) α) : Prop where
  grows : Along (fun c c' => c.turns <+: c'.turns) y
  follows : ∀ s c, Agrees s c → ∃ more, (y.run c).2.turns = c.turns ++ more ∧
    match x.run s with
    | (.ok a, s') =>
      (y.run c).1 = .ok a ∧ Agrees s' (y.run c).2 ∧
      s'.world.begun = s.world.begun ++ more.map Turn.step
    | (.error failure, s') => FailsIn ctx s.world.begun more failure s' ∨
      (y.run c).1 = .error () ∧ s'.world.begun = s.world.begun ++
      more.map Turn.step ∧ failure = ⟨[], .endlessLoop⟩

theorem grows_chains : Chains fun c c' : Dry => c.turns <+: c'.turns where
  refl c := List.prefix_refl c.turns
  trans h k := h.trans k

theorem FailsIn.append {ctx : Context} {begun : List Step} {ts : List Turn}
    {failure : Failure} {after : Session}
    (h : FailsIn ctx begun ts failure after) (more : List Turn) :
    FailsIn ctx begun (ts ++ more) failure after := by
  obtain ⟨done, t, rest, before, fault, rfl, hbefore, hrun, hfailure⟩ := h
  exact ⟨done, t, rest ++ more, before, fault, by simp, hbefore, hrun, hfailure⟩

theorem FailsIn.prepend {ctx : Context} {begun : List Step}
    {first ts : List Turn} {failure : Failure} {after : Session}
    (h : FailsIn ctx (begun ++ first.map Turn.step) ts failure after) :
    FailsIn ctx begun (first ++ ts) failure after := by
  obtain ⟨done, t, rest, before, fault, rfl, hbefore, hrun, hfailure⟩ := h
  refine ⟨first ++ done, t, rest, before, fault, by simp, ?_, hrun, hfailure⟩
  rw [hbefore, List.map_append, List.append_assoc]

namespace Shadows

variable {α β : Type} {ctx : Context}

theorem pure (a : α) : Shadows ctx (Pure.pure a) (Pure.pure a) where
  grows := Along.pure grows_chains a
  follows _ _ h := ⟨[], by simp, rfl, h, by simp⟩

theorem bind {x : Stepping α} {y : ExceptT Unit (StateM Dry) α}
    {f : α → Stepping β} {g : α → ExceptT Unit (StateM Dry) β}
    (hx : Shadows ctx x y) (hf : ∀ a, Shadows ctx (f a) (g a)) :
    Shadows ctx (x >>= f) (y >>= g) where
  grows := Along.bind grows_chains hx.grows fun a => (hf a).grows
  follows s c h := by
    obtain ⟨more, hturns, hmatch⟩ := hx.follows s c h
    rw [run_bind, run_bind]
    rcases hrun : x.run s with ⟨failure | a, s'⟩
    · rw [hrun] at hmatch
      rcases hmatch with hfails | ⟨hover, hbegun, hendless⟩
      -- the run has failed in its first part, while the dry run may go
      -- on with its second
      · rcases hdry : y.run c with ⟨done | a, c'⟩
        · rw [hdry] at hturns
          exact ⟨more, hturns, Or.inl hfails⟩
        · rw [hdry] at hturns
          obtain ⟨rest, hrest⟩ := (hf a).grows c'
          refine ⟨more ++ rest, ?_, Or.inl (hfails.append rest)⟩
          rw [← List.append_assoc, ← hturns]
          exact hrest.symm
      · rcases hdry : y.run c with ⟨done | a, c'⟩
        · rw [hdry] at hturns
          exact ⟨more, hturns, Or.inr ⟨rfl, hbegun, hendless⟩⟩
        · rw [hdry] at hover
          cases hover
    -- both have come through the first part and stand the same way
    -- before the second
    · rw [hrun] at hmatch
      obtain ⟨hok, hagrees, hbegun⟩ := hmatch
      rcases hdry : y.run c with ⟨done | b, c'⟩
      · rw [hdry] at hok
        cases hok
      · rw [hdry] at hok hturns hagrees
        cases hok
        obtain ⟨rest, hturns', hmatch'⟩ := (hf a).follows s' c' hagrees
        refine ⟨more ++ rest, ?_, ?_⟩
        · show ((g a).run c').2.turns = _
          rw [hturns', hturns, List.append_assoc]
        · show match (f a).run s' with
            | (.ok b, s'') => ((g a).run c').1 = .ok b ∧
                Agrees s'' ((g a).run c').2 ∧
                s''.world.begun = s.world.begun ++ (more ++ rest).map Turn.step
            | (.error failure, s'') =>
              FailsIn ctx s.world.begun (more ++ rest) failure s'' ∨
                ((g a).run c').1 = .error () ∧
                  s''.world.begun =
                  s.world.begun ++ (more ++ rest).map Turn.step ∧
                  failure = ⟨[], .endlessLoop⟩
          rw [List.map_append, ← List.append_assoc, ← hbegun]
          rcases hrun' : (f a).run s' with ⟨failure | b, s''⟩
          · rw [hrun'] at hmatch'
            exact hmatch'.imp_left fun hfails => FailsIn.prepend (hbegun ▸ hfails)
          · rw [hrun'] at hmatch'
            exact hmatch'

theorem execute (phase : String) (number : Nat) (step : Step) :
    Shadows ctx ((Session.driver ctx).execute phase number step)
      (Dry.driver.execute phase number step) where
  grows c := List.prefix_append c.turns [⟨phase, number, step⟩]
  follows s c h := by
    have hbegun := Step.begun_execute ctx step s
    have hrunning := Step.running_execute ctx step s
    have hiterations := Step.iterations_execute ctx step s
    refine ⟨[⟨phase, number, step⟩], rfl, ?_⟩
    -- the driver executes the step as it is and only puts the frame
    -- around its failure
    have hrun : ((Session.driver ctx).execute phase number step).run s =
        (((step.execute ctx).run s).1.mapError
          (Failure.within (.step phase number step.kind)),
          ((step.execute ctx).run s).2) := rfl
    rw [hrun]
    rcases hstep : (step.execute ctx).run s with ⟨fault | _, s'⟩
    · exact Or.inl ⟨[], ⟨phase, number, step⟩, [], s, fault,
        rfl, by simp, hstep, rfl⟩
    · rw [hstep] at hbegun hrunning hiterations
      refine ⟨rfl, ⟨?_, ?_⟩, hbegun⟩
      · show (c.running && !step.stopsAt c.iterations) = s'.run.running
        rw [hrunning, h.running, h.iterations]
      · exact h.iterations.trans hiterations.symm

theorem running : Shadows ctx (Session.driver ctx).running Dry.driver.running where
  grows c := List.prefix_refl c.turns
  follows s c h := by
    refine ⟨[], (List.append_nil _).symm, congrArg Except.ok h.running, h, ?_⟩
    exact (List.append_nil _).symm

theorem count : Shadows ctx (Session.driver ctx).count Dry.driver.count where
  grows c := List.prefix_refl c.turns
  follows s c h := by
    refine ⟨[], (List.append_nil _).symm, rfl, ⟨h.running, ?_⟩,
      (List.append_nil _).symm⟩
    exact congrArg (· + 1) h.iterations

theorem giveUp : Shadows ctx (Session.driver ctx).giveUp Dry.driver.giveUp where
  grows c := List.prefix_refl c.turns
  follows _ _ _ :=
    ⟨[], (List.append_nil _).symm, Or.inr ⟨rfl, (List.append_nil _).symm, rfl⟩⟩

end Shadows

/-- The operations of a run stay with those of its dry run. -/
theorem relates_shadows (ctx : Context) :
    Driver.Relates (fun x y => Shadows ctx x y) (Session.driver ctx)
      Dry.driver where
  pure := Shadows.pure
  bind := Shadows.bind
  execute := Shadows.execute
  running := Shadows.running
  count := Shadows.count
  giveUp := Shadows.giveUp

theorem shadows_run (ctx : Context) (limit : Nat) (plan : Plan) :
    Shadows ctx ((Session.driver ctx).run limit plan) (Dry.driver.run limit plan) :=
  (relates_shadows ctx).run limit plan

/-! ## The dry run -/

namespace Dry

theorem run_running (c : Dry) : driver.running.run c = (.ok c.running, c) := rfl

theorem run_execute (phase : String) (number : Nat) (step : Step) (c : Dry) :
    (driver.execute phase number step).run c =
    (.ok (), c.take ⟨phase, number, step⟩) := rfl

/-- All steps of a phase are taken, whether or not one of them stops the loop. -/
theorem run_all (phase : String) (number : Nat) (steps : List Step) (c : Dry) :
    (driver.all phase number steps).run c = (.ok (), { c with
      running := c.running && !steps.any (·.stopsAt c.iterations)
      turns := c.turns ++ turnsOf phase number steps }) := by
  induction steps generalizing number c with
  | nil => simp [Driver.all, turnsOf]
  | cons step steps ih =>
    rw [Driver.all, run_bind, run_execute]
    dsimp only
    rw [ih]
    simp [take, turnsOf, Bool.and_assoc]

/-- A pass that finds the loop stopped does nothing. -/
theorem run_pass_of_stopped (phase : String) (number : Nat) (steps : List Step)
    {c : Dry} (h : c.running = false) :
    (driver.pass phase number steps).run c = (.ok false, c) := by
  cases steps with
  | nil => rw [Driver.pass, run_running, h]
  | cons step steps =>
    rw [Driver.pass, run_bind, run_running, h]
    rfl

/-- A pass goes up to the first step that stops the loop, and is
full without one. -/
theorem run_pass (phase : String) (number : Nat) (steps : List Step) {c : Dry}
    (h : c.running = true) :
    (driver.pass phase number steps).run c =
    (.ok (!steps.any (·.stopsAt c.iterations)), { c with
      running := !steps.any (·.stopsAt c.iterations)
      turns := c.turns ++
        upTo (·.stopsAt c.iterations) (turnsOf phase number steps) }) := by
  induction steps generalizing number c with
  | nil =>
    rw [Driver.pass, run_running, h]
    simp [turnsOf, upTo, ← h]
  | cons step steps ih =>
    rw [Driver.pass, run_bind, run_running, h]
    dsimp only
    rw [if_pos rfl, run_bind, run_execute]
    dsimp only
    by_cases hstop : step.stopsAt c.iterations = true
    -- the rest of the pass finds the loop stopped, whatever it consists of
    · rw [run_pass_of_stopped _ _ _ (by simp [take, hstop])]
      simp [take, hstop, turnsOf, upTo]
    · have hgoes : (take ⟨phase, number, step⟩ c).running = true := by
        simp [take, h, hstop]
      rw [ih (number + 1) hgoes]
      simp [take, h, hstop, turnsOf, upTo]

/-! ## The loop -/

/-- A loop that is stopped takes no further turn. -/
theorem run_loop_of_stopped (body : List Step) (left : Nat) {c : Dry}
    (h : c.running = false) :
    (driver.loop body left).run c = (.ok (), c) := by
  cases left with
  | zero =>
    rw [Driver.loop, run_bind, run_running, h]
    rfl
  | succ left =>
    rw [Driver.loop, run_bind, run_running, h]
    rfl

/-- One round of a loop that goes on: a full pass counts, a pass that was
stopped is the last. -/
theorem run_loop_succ (body : List Step) (left : Nat) {c : Dry}
    (h : c.running = true) :
    (driver.loop body (left + 1)).run c =
      if body.any (·.stopsAt c.iterations) then
        (.ok (), ⟨false, c.iterations,
          c.turns ++ upTo (·.stopsAt c.iterations) (turnsOf "loop" 1 body)⟩)
      else (driver.loop body left).run
          ⟨true, c.iterations + 1, c.turns ++ turnsOf "loop" 1 body⟩ := by
  rw [Driver.loop, run_bind, run_running, h]
  dsimp only
  rw [if_pos rfl, run_bind, run_pass _ _ _ h]
  cases hany : body.any (·.stopsAt c.iterations) with
  | true =>
    -- the pass did not count: the loop is entered once more, only to
    -- find itself stopped
    show (driver.loop body left).run ⟨false, c.iterations, _⟩ = _
    rw [run_loop_of_stopped _ _ rfl]
    rfl
  | false =>
    have hfull : upTo (·.stopsAt c.iterations) (turnsOf "loop" 1 body) =
        turnsOf "loop" 1 body := by
      refine upTo_eq_self fun t ht => ?_
      have hnone := List.any_eq_false.mp hany t.step (step_mem_of_mem_turnsOf ht)
      simpa using hnone
    rw [hfull]
    rfl

/-- The loop makes as many full passes as the least of its stop steps names and then
goes up to the first of these; it does not end before it has come so far. -/
theorem run_loop (body : List Step) (left : Nat) {c : Dry} (h : c.running = true)
    (hleast : ∀ loops, leastLoops body = some loops → c.iterations ≤ loops) :
    (driver.loop body left).run c =
      match leastLoops body with
      | none =>
        (.error (), ⟨true, c.iterations + left,
          c.turns ++ fullPasses left body⟩)
      | some loops =>
        if loops < c.iterations + left then
          (.ok (),
            ⟨false, loops, c.turns ++ (fullPasses (loops - c.iterations) body ++
            upTo (fun step => step.stops? == some loops) (turnsOf "loop" 1 body))⟩)
        else (.error (), ⟨true, c.iterations + left,
            c.turns ++ fullPasses left body⟩) := by
  induction left generalizing c with
  | zero =>
    have hover : (driver.loop body 0).run c = (.error (), c) := by
      rw [Driver.loop, run_bind, run_running, h]
      rfl
    have hsame : (⟨true, c.iterations + 0, c.turns ++ fullPasses 0 body⟩ :
        Dry) = c := by
      simp [fullPasses, ← h]
    rw [hover, hsame]
    cases hl : leastLoops body with
    | none => rfl
    | some loops =>
      have hnot : ¬ loops < c.iterations + 0 := Nat.not_lt.mpr (hleast loops hl)
      dsimp only
      rw [if_neg hnot]
  | succ left ih =>
    -- one round is computed; the bound on the passes so far is what lets
    -- the next one go on
    rw [run_loop_succ body left h, any_stopsAt]
    cases hl : leastLoops body with
    | none =>
      have hnext :=
        ih (c := ⟨true, c.iterations + 1, c.turns ++ turnsOf "loop" 1 body⟩) rfl
        fun loops hloops => by rw [hl] at hloops; cases hloops
      rw [hl] at hnext
      rw [if_neg Bool.false_ne_true, hnext, fullPasses_succ]
      simp only [List.append_assoc, Nat.add_assoc, Nat.add_comm 1]
    | some loops =>
      have hle := hleast loops hl
      dsimp only
      by_cases hnow : loops ≤ c.iterations
      -- the pass that is stopped: its counter stands exactly at the
      -- least number named
      · have heq : c.iterations = loops := Nat.le_antisymm hle hnow
        rw [if_pos (decide_eq_true hnow), if_pos (by omega), heq, upTo_stopsAt hl]
        simp [fullPasses]
      · have hnext :=
          ih (c := ⟨true, c.iterations + 1, c.turns ++ turnsOf "loop" 1 body⟩)
            rfl
          fun loops' hloops => by
            rw [hl] at hloops
            cases hloops
            show c.iterations + 1 ≤ loops
            omega
        rw [hl] at hnext
        have hcount : loops - c.iterations =
            (loops - (c.iterations + 1)) + 1 := by omega
        have hmore : fullPasses (loops - c.iterations) body =
            turnsOf "loop" 1 body ++ fullPasses
              (loops - (c.iterations + 1)) body := by
          rw [hcount, fullPasses_succ]
        rw [if_neg (by simpa using hnow), hnext, fullPasses_succ, hmore]
        simp only [List.append_assoc, Nat.add_assoc, Nat.add_comm 1]

theorem stopsAt_zero (step : Step) : step.stopsAt 0 = (step.stops? == some 0) := by
  unfold Step.stopsAt
  cases step.stops? with
  | none => rfl
  | some loops =>
    rw [Bool.eq_iff_iff]
    simp

/-- The dry run makes the intended course. -/
theorem run_dry (limit : Nat) (plan : Plan) :
    (driver.run limit plan).run ⟨true, 0, []⟩ =
      (if (plan.course limit).ends then .ok () else .error (),
        ⟨(plan.course limit).running, (plan.course limit).iterations,
          (plan.course limit).turns⟩) := by
  rw [Driver.run, run_bind, run_all]
  dsimp only
  simp only [stopsAt_zero, Bool.true_and, List.nil_append]
  unfold Plan.course
  cases plan.body with
  | none => rfl
  | some body =>
    cases hhalted : plan.init.any fun step => step.stops? == some 0 with
    | true => exact run_loop_of_stopped body limit rfl
    | false =>
      rw [run_loop body limit rfl fun _ _ => Nat.zero_le _]
      cases hleast : leastLoops body with
      | none => simp [hleast]
      | some loops =>
        dsimp only
        by_cases hlt : loops < limit <;> simp [hleast, hlt]

end Dry

/-! ## The run -/

/-- **What a playbook executes.** A fresh run executes the course of its playbook
step by step. It ends well only at the end of a course that has one, with the loop
and its counter standing as the course says. Otherwise a step of the course fails,
which is the last one executed and whose failure is returned; or the course has no
end within the horizon of the host, which gives up on the loop. -/
theorem play_course (ctx : Context) (w : World) (registry : Registry)
    (plan : Plan) (values : Namespace) :
    let course := plan.course ctx.host.horizon
    match (Session.play ctx).run
        { world := w, run := { registry, plan, values } } with
    | (.ok (), after) =>
      course.ends = true ∧ after.world.begun = w.begun ++
        course.turns.map Turn.step ∧
        after.run.running = course.running ∧
        after.run.iterations = course.iterations
    | (.error failure, after) =>
      (∃ done t rest before fault, course.turns = done ++ t :: rest ∧
        before.world.begun = w.begun ++ done.map Turn.step ∧
        (t.step.execute ctx).run before = (.error fault, after) ∧
        after.world.begun = w.begun ++ (done ++ [t]).map Turn.step ∧
        failure = fault.within (.step t.phase t.number t.step.kind)) ∨
      course.ends = false ∧ after.world.begun = w.begun ++
        course.turns.map Turn.step ∧
        failure = ⟨[], .endlessLoop⟩ := by
  intro course
  let start : Session := { world := w, run := { registry, plan, values } }
  have hrun : (Session.play ctx).run start =
      ((Session.driver ctx).run ctx.host.horizon plan).run start := rfl
  obtain ⟨more, hturns, hmatch⟩ :=
    (shadows_run ctx ctx.host.horizon plan).follows start ⟨true, 0, []⟩ ⟨rfl, rfl⟩
  -- from here on the dry run is its result: the course, and how it ends
  rw [Dry.run_dry] at hturns hmatch
  have hmore : more = course.turns := hturns.symm
  rw [hmore] at hmatch
  rw [hrun]
  rcases hresult : ((Session.driver ctx).run ctx.host.horizon plan).run
    start with ⟨failure | _, after⟩
  · rw [hresult] at hmatch
    rcases hmatch with ⟨done, t, rest, before, fault, hcourse, hbefore, hstep,
      hfailure⟩ | ⟨hover, hbegun, hendless⟩
    · have hafter := Step.begun_execute ctx t.step before
      rw [hstep] at hafter
      refine Or.inl ⟨done, t, rest, before, fault, hcourse, hbefore,
        hstep, ?_, hfailure⟩
      rw [hafter, hbefore, List.map_append, ← List.append_assoc]
      rfl
    · refine Or.inr ⟨?_, hbegun, hendless⟩
      cases hends : (plan.course ctx.host.horizon).ends with
      | false => rfl
      | true =>
        rw [hends] at hover
        cases hover
  · rw [hresult] at hmatch
    obtain ⟨hover, hagrees, hbegun⟩ := hmatch
    refine ⟨?_, hbegun, hagrees.running.symm, hagrees.iterations.symm⟩
    cases hends : (plan.course ctx.host.horizon).ends with
    | true => rfl
    | false =>
      rw [hends] at hover
      cases hover

end Playbook
