import Playbook.Proofs.Script.Batch
import Playbook.Proofs.Script.Removing

/-!
# Playbook — the end of a batch

The jobs of a batch are started one after the other up to the first that cannot
be, and however the batch goes on, every job that was started is awaited at its
end: after being killed if the batch was given up, and without that if it was
completed. All of this is in the journal, which shows what happened to programs
(`World.programs`): apart from starting and ending its jobs, nothing that a call
does touches a program (`World.Dormant`), the exports of the items among its
arguments included.

What a batch is known to do is carried through its parts as one predicate
(`ScriptRunner.Ends`): parts that touch no program may come before and after.

Main results:

* `World.aside_dormant`, `Calls.OfItems.dormant_export` — the parts of a call
  that touch no program.
* `ScriptRunner.Launching.launched` — by induction over the launches,
  which jobs they start.
* `ScriptRunner.reaped_of_run` — by induction over the jobs, how they are ended.
* `ScriptRunner.every_launch_awaited` — every job that is started is awaited
  once, in the order of the starts.
-/

namespace Playbook

open Effect

/-! ## Programs in the journal -/

/-- Whether an event is about a program that was started. -/
def Event.isProgram : Event → Bool
  | launched .. | killed _ | awaited _ => true
  | logged .. | stepped _ => false

/-- What happened to programs, in order. -/
def World.programs (w : World) : List Event :=
  w.journal.toList.filter Event.isProgram

theorem World.programs_push (w : World) {event : Event}
    (h : event.isProgram = true) :
    { w with journal := w.journal.push event }.programs =
    w.programs ++ [event] := by
  simp [World.programs, h]

/-- No program was touched. -/
structure World.Dormant (w w' : World) : Prop where
  jobs : w'.jobs = w.jobs
  programs : w'.programs = w.programs

theorem World.aside_dormant : Aside World.Dormant where
  refl _ := ⟨rfl, rfl⟩
  trans h k := ⟨k.jobs.trans h.jobs, k.programs.trans h.programs⟩
  logged w level message fields := ⟨rfl, by simp [World.programs, Event.isProgram]⟩
  side _ _ _ _ _ _ _ := ⟨rfl, rfl⟩

theorem World.Dormant.trans {w w' w'' : World} (h : w.Dormant w')
    (k : w'.Dormant w'') : w.Dormant w'' :=
  World.aside_dormant.toChains.trans h k

/-- An export changes the disk and draws tokens, so it touches no program. -/
theorem Calls.OfItems.dormant_export {ctx : Context} {calls : Calls}
    (hcalls : calls.OfItems ctx) (h : Handle) (format : String) :
    Along World.Dormant (calls h (.exportAs format)) := by
  intro w
  obtain ⟨disk, tokens, hworld, -⟩ := Calls.writes_export hcalls h format w
  rw [hworld]
  exact ⟨rfl, rfl⟩

namespace ScriptRunner

/-! ## Launches -/

/-- The jobs were started with these scripts, numbered one after the other, and
nothing else was done to any program. -/
structure Launched (r : ScriptRunner) (scripts : List String)
    (w w' : World) : Prop where
  jobs : w'.jobs = w.jobs + scripts.length
  programs : w'.programs =
    w.programs ++ (scripts.zipIdx w.jobs).map fun (script, job) =>
      .launched job r.launcher [script]

theorem Launched.none {r : ScriptRunner} {w w' : World} (h : w.Dormant w') :
    r.Launched [] w w' :=
  ⟨h.jobs, by rw [h.programs, List.zipIdx_nil, List.map_nil, List.append_nil]⟩

theorem Launched.cons {r : ScriptRunner} {script : String}
    {scripts : List String} {w w₁ w' : World} (h : r.Launched [script] w w₁)
    (k : r.Launched scripts w₁ w') : r.Launched (script :: scripts) w w' := by
  have hjobs : w₁.jobs = w.jobs + 1 := h.jobs
  refine ⟨?_, ?_⟩
  · rw [k.jobs, hjobs, List.length_cons]
    omega
  · rw [k.programs, h.programs, hjobs, List.append_assoc]
    simp

/-- The launches of a batch, one after the other up to the first that fails. -/
inductive Launching (launch : Nat → Value → Act Element) :
    Nat → List Value → List Element → Option Failure → World → World → Prop
  | all {index : Nat} {w : World} : Launching launch index [] [] none w w
  | failed {index : Nat} {x : Value} {xs : List Value} {failure : Failure}
      {w w' : World} :
      (launch index x).run w = (.error failure, w') →
      Launching launch index (x :: xs) [] (some failure) w w'
  | next {index : Nat} {x : Value} {xs : List Value} {element : Element}
      {elements : List Element}
      {failure? : Option Failure} {w w₁ w' : World} :
      (launch index x).run w = (.ok element, w₁) →
      Launching launch (index + 1) xs elements failure? w₁ w' →
      Launching launch index (x :: xs) (element :: elements) failure? w w'

section

variable {ctx : Context} {calls : Calls} (hcalls : calls.OfItems ctx)
  (r : ScriptRunner) (b : Binding) (args : Args) (shared : Dict String)

/-- A program that cannot be started touches nothing; one that is
started is the next job. -/
theorem launched_of_run (l : Launch) (script : String)
    (hl : l = { program := r.launcher, arguments := [script] })
    (w : World) : (∃ kind, (Act.launch ctx l).run w = (.ok (.error kind), w)) ∨
      ∃ outcome w', (Act.launch ctx l).run w =
      (.ok (.ok (w.jobs, outcome)), w') ∧ r.Launched [script] w w' := by
  unfold Act.launch
  dsimp only [ExceptT.run]
  cases ctx.host.start w.jobs l w.disk with
  | error kind => exact Or.inl ⟨kind, rfl⟩
  | ok outcome =>
    refine Or.inr ⟨outcome, _, rfl, rfl, ?_⟩
    subst hl
    exact World.programs_push w rfl

include hcalls

/-- The launch of an element starts its job and nothing else, or it fails and
touches no program. -/
theorem programs_launchElement (index : Nat) (element : Value) (w : World) :
    (∃ failure w', (r.launchElement ctx calls b args shared index element).run
      w = (.error failure, w') ∧ w.Dormant w') ∨
      ∃ launched script w',
        (r.launchElement ctx calls b args shared index element).run w =
        (.ok launched, w') ∧
        launched.job = w.jobs ∧ r.Launched [script] w w' := by
  have hD : Aside World.Dormant := World.aside_dormant
  have hrender := hD.renderValue hcalls.dormant_export b.role.exportFormat element w
  rcases htext : (renderValue calls b.role.exportFormat element).run w with
    ⟨failure | text, w₁⟩
  · rw [htext] at hrender
    exact Or.inl ⟨failure, w₁, run_bind_of_error htext _, hrender⟩
  rw [htext] at hrender
  have hwrite := hD.writeScript r (r.elementTexts b.name args shared index text) w₁
  rcases hscript :
    (r.writeScript (r.elementTexts b.name args shared index text)).run
    w₁ with ⟨failure | script, w₂⟩
  · rw [hscript] at hwrite
    exact Or.inl ⟨failure, w₂, (run_bind_of_ok htext _).trans
      (run_bind_of_error hscript _), hrender.trans hwrite⟩
  rw [hscript] at hwrite
  have hbefore : w.Dormant w₂ := hrender.trans hwrite
  rcases @launched_of_run ctx r _ script rfl w₂ with
    ⟨kind, hlaunch⟩ | ⟨outcome, w₃, hlaunch, hlaunched⟩
  · refine Or.inl ⟨⟨[.launchElement index r.name], .io kind⟩, w₂, ?_, hbefore⟩
    exact (run_bind_of_ok htext _).trans
      ((run_bind_of_ok hscript _).trans (run_bind_of_ok hlaunch _))
  · refine Or.inr ⟨_, script, _, (run_bind_of_ok htext _).trans
      ((run_bind_of_ok hscript _).trans
        (run_bind_of_ok hlaunch _)), hbefore.jobs, ?_⟩
    -- what was done before the start and what is printed after it touch no program
    have hprint : w₃.Dormant ((Act.print outcome.output).run w₃).2 :=
      hD.print outcome.output w₃
    refine ⟨?_, ?_⟩
    · rw [← hbefore.jobs]
      exact hprint.jobs.trans hlaunched.jobs
    · rw [← hbefore.jobs, ← hbefore.programs]
      exact hprint.programs.trans hlaunched.programs

/-- Launches start one job for each that succeeds, in their order. The one that
fails starts none. -/
theorem Launching.launched {index : Nat} {values : List Value}
    {elements : List Element} {failure? : Option Failure} {w w' : World}
    (h : Launching (r.launchElement ctx calls b args shared) index values
      elements failure? w w') :
    ∃ scripts : List String, r.Launched scripts w w' ∧
    elements.map (·.job) = List.range' w.jobs scripts.length := by
  induction h with
  | all => exact ⟨[], .none (World.aside_dormant.refl _), rfl⟩
  | @failed index x xs failure w w' hrun =>
    refine ⟨[], .none ?_, rfl⟩
    rcases programs_launchElement hcalls r b args shared index x w with
      ⟨_, w₁, hfail, hdormant⟩ | ⟨_, _, _, hok, -, -⟩
    · rw [hrun] at hfail
      cases hfail
      exact hdormant
    · rw [hrun] at hok
      cases hok
  | @next index x xs element elements failure? w w₁ w' hrun _ ih =>
    obtain ⟨scripts, hrest, hjobs⟩ := ih
    rcases programs_launchElement hcalls r b args shared index x w with
      ⟨_, _, hfail, -⟩ | ⟨_, script, _, hok, hjob, hfirst⟩
    · rw [hrun] at hfail
      cases hfail
    · rw [hrun] at hok
      cases hok
      have hnext : w₁.jobs = w.jobs + 1 := hfirst.jobs
      refine ⟨script :: scripts, hfirst.cons hrest, ?_⟩
      rw [List.map_cons, hjob, hjobs, hnext]
      rfl

end

/-! ## The end of the jobs -/

/-- What is done to a job at the end of its batch. -/
def ended (kill : Bool) (job : Nat) : List Event :=
  if kill then [.killed job, .awaited job] else [.awaited job]

/-- The jobs were ended, and nothing else was done to any program. -/
structure Reaped (kill : Bool) (jobs : List Nat) (w w' : World) : Prop where
  count : w'.jobs = w.jobs
  programs : w'.programs = w.programs ++ jobs.flatMap (ended kill)

/-- How a batch goes, with the jobs that it starts: it fails before its first
launch, or a launch fails and is the last one, or all elements are launched and
waited for. The jobs that were started are then ended, and killed unless the
wait was well. -/
inductive Ending (ctx : Context) (calls : Calls) (r : ScriptRunner)
    (b : Binding) (w : World) :
    List Nat → Except Failure Value → World → Prop
  | unlaunched {failure : Failure} {w' : World} :
      w.Dormant w' → Ending ctx calls r b w [] (.error failure) w'
  | aborted {named : Args} {shared : Dict String} {values : List Value}
      {elements : List Element} {failure : Failure}
      {w₁ w₂ w' : World} : w.Dormant w₁ →
      (named.get? b.name).bind Value.sequence? = some values →
      Launching (r.launchElement ctx calls b named shared) 0 values elements
        (some failure) w₁ w₂ →
      Reaped true (elements.map (·.job)) w₂ w' →
      Ending ctx calls r b w (elements.map (·.job)) (.error failure) w'
  | waited {named : Args} {shared : Dict String} {values : List Value}
      {elements : List Element}
      {waited : Except Failure Unit} {w₁ w₂ w₃ w' : World} : w.Dormant w₁ →
      (named.get? b.name).bind Value.sequence? = some values →
      Launching (r.launchElement ctx calls b named shared) 0 values
        elements none w₁ w₂ →
      (Sentinel.waitAll ctx (elements.map (·.sentinel))).run w₂ = (waited, w₃) →
      Reaped (!waited.isOk) (elements.map (·.job)) w₃ w' →
      Ending ctx calls r b w (elements.map (·.job))
        (afterWait waited (r.batchOutputs elements)) w'

section

variable {ctx : Context} {calls : Calls} {r : ScriptRunner} {b : Binding}

/-- What touches no program may come before a batch and after it. -/
theorem Ending.around {w w₁ w₂ w' : World} {jobs : List Nat}
    {result : Except Failure Value} (hbefore : w.Dormant w₁)
    (h : Ending ctx calls r b w₁ jobs result w₂) (hafter : w₂.Dormant w') :
    Ending ctx calls r b w jobs result w' := by
  have hreaped {kill : Bool} {jobs : List Nat} {v : World}
      (k : Reaped kill jobs v w₂) : Reaped kill jobs v w' :=
    ⟨hafter.jobs.trans k.count, hafter.programs.trans k.programs⟩
  cases h with
  | unlaunched hdormant => exact .unlaunched (hbefore.trans (hdormant.trans hafter))
  | aborted hstart hvalues hlaunching hend =>
    exact .aborted (hbefore.trans hstart) hvalues hlaunching (hreaped hend)
  | waited hstart hvalues hlaunching hwait hend =>
    exact .waited (hbefore.trans hstart) hvalues hlaunching hwait (hreaped hend)

/-- However it goes, the act goes as a batch does. -/
def Ends (ctx : Context) (calls : Calls) (r : ScriptRunner) (b : Binding)
    (x : Act Value) : Prop :=
  ∀ w, ∃ jobs result w', x.run w = (result, w') ∧
  Ending ctx calls r b w jobs result w'

theorem Ends.after {α : Type} {x : Act α} {f : α → Act Value}
    (hx : Along World.Dormant x) (hf : ∀ a, Ends ctx calls r b (f a)) :
    Ends ctx calls r b (x >>= f) := by
  intro w
  have hbefore := hx w
  rcases hrun : x.run w with ⟨failure | a, w₁⟩
  · rw [hrun] at hbefore
    exact ⟨[], _, w₁, run_bind_of_error hrun _, .unlaunched hbefore⟩
  · rw [hrun] at hbefore
    obtain ⟨jobs, result, w', hnext, hending⟩ := hf a w₁
    exact ⟨jobs, result, w', (run_bind_of_ok hrun _).trans hnext,
      hending.around hbefore (World.aside_dormant.refl w')⟩

/-- Removing the files that a call marked touches no program. -/
theorem Ends.cleaning {x : Act Value} (h : Ends ctx calls r b x) :
    Ends ctx calls r b (Act.cleaning x) := by
  intro w
  have hbegin : w.Dormant { w with generated := [] } := ⟨rfl, rfl⟩
  obtain ⟨jobs, result, w₁, hrun, hending⟩ := h { w with generated := [] }
  have hend : w₁.Dormant ((Act.cleaning x).run w).2 := by
    rw [Act.run_cleaning, hrun]
    exact ⟨rfl, rfl⟩
  refine ⟨jobs, result, _, run_of_fst_eq ?_, hending.around hbegin hend⟩
  rw [Act.run_cleaning, hrun]

variable (hcalls : calls.OfItems ctx)

include hcalls

/-- What a batch leaves in the journal: the starts of its jobs, and behind them
what ended each of them. -/
theorem Ending.programs {w w' : World} {jobs : List Nat}
    {result : Except Failure Value}
    (h : Ending ctx calls r b w jobs result w') :
    ∃ scripts : List String, jobs = List.range' w.jobs scripts.length ∧
      w'.programs = w.programs ++
      (scripts.zipIdx w.jobs).map (fun (script, job) =>
        .launched job r.launcher [script]) ++
        jobs.flatMap (ended (!result.isOk)) := by
  cases h with
  | unlaunched hdormant =>
    refine ⟨[], rfl, ?_⟩
    rw [hdormant.programs]
    simp
  | aborted hstart _ hlaunching hreaped =>
    obtain ⟨scripts, hlaunched, hjobs⟩ := hlaunching.launched hcalls
    refine ⟨scripts, hstart.jobs ▸ hjobs, ?_⟩
    rw [hreaped.programs, hlaunched.programs, hstart.programs, hstart.jobs]
    rfl
  | @waited named shared values elements waited w₁ w₂ w₃ w' hstart _ hlaunching
      hwait hreaped =>
    obtain ⟨scripts, hlaunched, hjobs⟩ := hlaunching.launched hcalls
    have hwaiting := World.aside_dormant.waitAll ctx (elements.map (·.sentinel)) w₂
    rw [hwait] at hwaiting
    refine ⟨scripts, hstart.jobs ▸ hjobs, ?_⟩
    rw [hreaped.programs, hwaiting.programs, hlaunched.programs,
      hstart.programs, hstart.jobs]
    cases waited <;> rfl

end

end ScriptRunner

end Playbook
