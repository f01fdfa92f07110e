import Playbook.Proofs.Answer
import Playbook.Proofs.Disk
import Playbook.Proofs.Script.Filling

/-!
# Playbook — the jobs of a call

A call of a script runner starts programs in one place only: with a script that
it has just written. Everything before, between and after starts nothing
(`World.Idle`). So what a call starts is a list of jobs, each with the texts
that stand in its script and the sentinel that is waited for
(`ScriptRunner.Starts`).

Main results:

* `World.serving_idle` — exports and the other parts of a call that
  are calm start nothing.
* `ScriptRunner.Starts.started` — what a list of jobs leaves in the journal.
* `ScriptRunner.run_launchAll` — the jobs of a batch, up to the first that
  cannot be started.
-/

namespace Playbook

open Effect

/-! ## Idle stretches -/

/-- Nothing was started. -/
structure World.Idle (w w' : World) : Prop where
  jobs : w'.jobs = w.jobs
  started : w'.started = w.started

theorem World.serving_idle : Serving World.Idle where
  refl _ := ⟨rfl, rfl⟩
  trans h k := ⟨k.jobs.trans h.jobs, k.started.trans h.started⟩
  side _ _ _ _ _ _ _ := ⟨rfl, rfl⟩
  event w event _ h := by
    refine ⟨rfl, ?_⟩
    simp [World.started, h]
  lock _ _ _ _ h := ⟨h.jobs, h.started⟩

theorem World.Idle.trans {w w' w'' : World} (h : w.Idle w')
    (k : w'.Idle w'') : w.Idle w'' :=
  World.serving_idle.toChains.trans h k

/-- Requests that the items of the world answer, as deep as they may nest. -/
def Calls.OfItems (ctx : Context) (calls : Calls) : Prop :=
  ∀ h request w, ∃ depth, (calls h request).run w =
  (Calls.within ctx depth h request).run w

theorem Calls.ofItems_all (ctx : Context) : (Calls.all ctx).OfItems ctx := by
  intro h request w
  exact ⟨w.slots.length + 1, Calls.run_all ctx h request w⟩

theorem Calls.OfItems.along_export {R : World → World → Prop} (hR : Serving R)
    {ctx : Context} {calls : Calls} (h : calls.OfItems ctx) (item : Handle)
    (format : String) : Along R (calls item (.exportAs format)) := by
  intro w
  obtain ⟨depth, hrun⟩ := h item (.exportAs format) w
  rw [hrun]
  exact hR.exportWithin ctx depth item format w

/-! ## Starting programs -/

/-- A program that cannot be started changes nothing; one that is started gets
the next number. -/
theorem Act.run_launch (ctx : Context) (l : Launch) (w : World) :
    (∃ kind, ctx.host.start w.jobs l w.disk = .error kind ∧
      (Act.launch ctx l).run w = (.ok (.error kind), w)) ∨
      ∃ outcome w', (Act.launch ctx l).run w = (.ok (.ok (w.jobs, outcome)), w') ∧
        w'.jobs = w.jobs + 1 ∧
        w'.started = w.started ++ [(w.jobs, l.program, l.arguments)] := by
  unfold Act.launch
  dsimp only [ExceptT.run]
  cases ctx.host.start w.jobs l w.disk with
  | error kind => exact Or.inl ⟨kind, rfl, rfl⟩
  | ok outcome =>
    refine Or.inr ⟨outcome, _, rfl, rfl, ?_⟩
    simp [World.started, Event.launch?]

/-- A job of a call: what stands in its script for each name, and the sentinel
that is waited for. -/
structure Job where
  textOf : String → String
  sentinel : String

namespace ScriptRunner

/-- Jobs are started one after the other. When a job is started, its
script stands on the disk, and its path is the argument of the program;
nothing else is started. -/
inductive Starts (ctx : Context) (r : ScriptRunner) :
    List Job → World → World → Prop
  | none {w w' : World} : w.Idle w' → Starts ctx r [] w w'
  | next {job : Job} {jobs : List Job} {w w₁ w₂ w' : World} {path : String}
      {outcome : Outcome} :
      w.Idle w₁ → w₁.disk.readText path = .ok (r.prototype.filled job.textOf) →
      (Act.launch ctx { program := r.launcher, arguments := [path] }).run w₁ =
      (.ok (.ok (w₁.jobs, outcome)), w₂) →
      Starts ctx r jobs w₂ w' → Starts ctx r (job :: jobs) w w'

namespace Starts

variable {ctx : Context} {r : ScriptRunner} {jobs : List Job} {w w' w'' : World}

theorem after (hidle : w.Idle w') (h : Starts ctx r jobs w' w'') :
    Starts ctx r jobs w w'' := by
  cases h with
  | none hlast => exact .none (hidle.trans hlast)
  | next hfirst hscript hlaunch hrest =>
    exact .next (hidle.trans hfirst) hscript hlaunch hrest

theorem before (h : Starts ctx r jobs w w') (hidle : w'.Idle w'') :
    Starts ctx r jobs w w'' := by
  induction h with
  | none hlast => exact .none (hlast.trans hidle)
  | next hfirst hscript hlaunch _ ih =>
    exact .next hfirst hscript hlaunch (ih hidle)

/-- One more job is started before others. -/
theorem cons {job : Job} (h : Starts ctx r [job] w w')
    (hrest : Starts ctx r jobs w' w'') :
    Starts ctx r (job :: jobs) w w'' := by
  cases h with
  | next hfirst hscript hlaunch hlast =>
    cases hlast with
    | none hidle => exact .next hfirst hscript hlaunch (hrest.after hidle)

/-- The journal shows as many programs as there are jobs, numbered one after the
other, and no other program. -/
theorem started (h : Starts ctx r jobs w w') :
    ∃ paths : List String, paths.length = jobs.length ∧
    w'.jobs = w.jobs + jobs.length ∧
    w'.started = w.started ++ (paths.zipIdx w.jobs).map fun (path, number) =>
  (number, r.launcher, [path]) := by
  induction h with
  | none hidle =>
    exact ⟨[], rfl,
      hidle.jobs, by rw [hidle.started, List.zipIdx_nil, List.map_nil, List.append_nil]⟩
  | @next job jobs w w₁ w₂ w' path outcome hidle _ hlaunch _ ih =>
    obtain ⟨paths, hlength, hjobs, hstarted⟩ := ih
    have hone : w₂.jobs = w.jobs + 1 ∧
        w₂.started = w.started ++ [(w.jobs, r.launcher, [path])] := by
      rcases Act.run_launch ctx { program := r.launcher, arguments := [path] }
          w₁ with
        ⟨kind, -, hfail⟩ | ⟨outcome', w₃, hok, hcount, hjournal⟩
      · rw [hlaunch] at hfail
        cases hfail
      · rw [hlaunch] at hok
        cases hok
        rw [hcount, hjournal, hidle.jobs, hidle.started]
        exact ⟨rfl, rfl⟩
    refine ⟨path ::
      paths, by rw [List.length_cons, List.length_cons, hlength], ?_, ?_⟩
    · rw [hjobs, hone.1, List.length_cons]
      omega
    · rw [hstarted, hone.1, hone.2, List.zipIdx_cons, List.map_cons,
        List.append_assoc]
      rfl

end Starts

/-! ## Scripts -/

/-- A script that was written stands on the disk; writing it starts nothing. -/
theorem run_writeScript (r : ScriptRunner) (texts : Dict String) (w : World) :
    (∃ failure w', (r.writeScript texts).run w = (.error failure, w') ∧ w.Idle w') ∨
      ∃ path w', (r.writeScript texts).run w = (.ok path, w') ∧ w.Idle w' ∧
        w'.disk.readText path = .ok (r.prototype.render texts) := by
  have hidle := World.serving_idle.writeScript r texts w
  rcases hrun : (r.writeScript texts).run w with ⟨failure | path, w'⟩
  · rw [hrun] at hidle
    exact Or.inl ⟨failure, w', rfl, hidle⟩
  · rw [hrun] at hidle
    refine Or.inr ⟨path, w', rfl, hidle, ?_⟩
    obtain ⟨_, w₁, -, h⟩ := run_bind_ok hrun
    obtain ⟨name, w₂, hname, h⟩ := run_bind_ok h
    obtain ⟨_, w₃, hwrite, h⟩ := run_bind_ok h
    obtain ⟨_, w₄, htrack, h⟩ := run_bind_ok h
    cases htrack
    cases h
    -- marking the file to be removed leaves it on the disk for now
    have hwritten := Act.run_within_ok hwrite
    rw [Act.run_onDisk] at hwritten
    obtain ⟨hresult, rfl⟩ := Prod.mk.inj hwritten
    exact Disk.readText_write (Store.run_change_ok (run_of_fst_eq hresult))

/-- A run that writes a script, launches it and goes on with `next` has one job
started, or none and says why. -/
theorem run_starting (ctx : Context) {r : ScriptRunner} {texts : Dict String}
    (job : Job)
    (htexts : r.prototype.render texts = r.prototype.filled job.textOf)
    {α : Type} {x : Act α}
    {next : Except IoKind (Nat × Outcome) →
      Act α} {w₀ w : World} (hx : x.run w₀ = (do
      let script ← r.writeScript texts
      let launched ← Act.launch ctx { program := r.launcher, arguments := [script] }
      next launched : Act α).run w) :
    (∃ failure w', x.run w₀ = (.error failure, w') ∧ w.Idle w' ∧
      (r.writeScript texts).run w = (.error failure, w')) ∨
      (∃ script kind w', x.run w₀ = (next (.error kind)).run w' ∧ w.Idle w' ∧
        ctx.host.start w'.jobs { program := r.launcher, arguments := [script] }
        w'.disk = .error kind) ∨
      ∃ started w', x.run w₀ = (next (.ok started)).run w' ∧
      Starts ctx r [job] w w' := by
  rcases run_writeScript r texts w with ⟨failure, w', hwrite, hidle⟩ |
    ⟨path, w₁, hwrite, hidle, htext⟩
  · exact Or.inl ⟨failure, w', hx.trans (run_bind_of_error hwrite _), hidle, hwrite⟩
  rw [run_bind_of_ok hwrite] at hx
  rcases Act.run_launch ctx { program := r.launcher, arguments := [path] } w₁ with
    ⟨kind, hrefused, hfail⟩ | ⟨outcome, w₂, hok, -, -⟩
  · exact Or.inr (Or.inl ⟨path, kind, w₁, hx.trans (run_bind_of_ok hfail _),
      hidle, hrefused⟩)
  · have hscript : w₁.disk.readText path =
        .ok (r.prototype.filled job.textOf) := by rw [htext, htexts]
    refine Or.inr
      (Or.inr ⟨(w₁.jobs, outcome), w₂, hx.trans (run_bind_of_ok hok _), ?_⟩)
    exact .next hidle hscript hok (.none ⟨rfl, rfl⟩)

/-! ## Batches -/

/-- Awaiting the jobs of a batch ends well and starts nothing. -/
theorem run_reap (r : ScriptRunner) (kill : Bool)
    (elements : List Element) (w : World) :
    ∃ w', (r.reap kill elements).run w = (.ok (), w') ∧ w.Idle w' := by
  have hidle := World.serving_idle.reap r kill elements w
  have hok : ((r.reap kill elements).run w).1 = .ok () := by
    clear hidle
    induction elements generalizing w with
    | nil => cases kill <;> rfl
    | cons element rest ih =>
      cases kill with
      | true => exact ih _
      | false =>
        have hrun : (r.reap false (element :: rest)).run w =
            (if element.status.isSuccess then r.reap false rest else do
            Act.warn "array element exited unsuccessfully"
              [r.runnerField, ⟨"status", element.status.text, false⟩]
            r.reap false rest : Act Unit).run
              ((Act.note (.awaited element.job)).run w).2 := rfl
        rw [hrun]
        split
        · exact ih _
        · exact ih _
  exact ⟨_, run_of_fst_eq hok, hidle⟩

/-- The jobs of the elements of a batch, whose own texts are given,
from an index on. -/
def batchJobs (r : ScriptRunner) (variableName : String) (args : Args)
    (shared : Dict String) (index : Nat) (owns : List String) : List Job :=
  (owns.zipIdx index).map fun (own, i) =>
    { textOf := r.elementText variableName args shared i own
      sentinel := indexedPath args Prototype.touchfile i }

/-- The text is a rendering of the value. -/
def Renders (calls : Calls) (format : String) (value : Value)
    (text : String) : Prop :=
  ∃ w w', (renderValue calls format value).run w = (.ok text, w')

/-- Why no job is started for a value: the value cannot be rendered, its script
cannot be written, or the program cannot be launched. -/
inductive Hindered (ctx : Context) (calls : Calls) (r : ScriptRunner)
    (format : String) (value : Value) (w : World) :
    Failure → Prop
  | unrendered {failure : Failure} {w' : World} :
      (renderValue calls format value).run w = (.error failure, w') →
      Hindered ctx calls r format value w failure
  | unwritten {failure : Failure} {texts : Dict String}
      {w₁ w' : World} : w.Idle w₁ →
      (r.writeScript texts).run w₁ = (.error failure, w') →
      Hindered ctx calls r format value w failure
  | unlaunched {failure : Failure} {script : String} {kind : IoKind}
      {w₁ : World} : w.Idle w₁ →
      ctx.host.start w₁.jobs { program := r.launcher, arguments := [script] }
        w₁.disk = .error kind →
      failure.cause = .io kind → Hindered ctx calls r format value w failure

section

variable {ctx : Context} {calls : Calls} (hcalls : calls.OfItems ctx)
  {r : ScriptRunner} (hr : r.prototype.Accepted) {b : Binding} (args : Args)
  {shared : Dict String}
  (hshared : ∀ name, r.prototype.bindings.contains name = true → name ≠ b.name →
    r.prototype.isPath name = false →
    (shared.get? name).isSome)

include hcalls hr hshared

/-- The job of an element is started with its own texts, or nothing is started. -/
theorem run_launchElement (index : Nat) (element : Value) (w : World) :
    (∃ failure w', (r.launchElement ctx calls b args shared index element).run
      w = (.error failure, w') ∧ w.Idle w' ∧
      Hindered ctx calls r b.role.exportFormat element w failure) ∨
      ∃ launched w' own,
        (r.launchElement ctx calls b args shared index element).run w =
        (.ok launched, w') ∧
        Renders calls b.role.exportFormat element own ∧
        launched.sentinel = indexedPath args Prototype.touchfile index ∧
        launched.args = r.elementArgs b.name args index element ∧
        Starts ctx r (r.batchJobs b.name args shared index [own]) w w' := by
  have hrender := World.serving_idle.renderValue
      (hcalls.along_export World.serving_idle) b.role.exportFormat element w
  rcases hown : (renderValue calls b.role.exportFormat element).run w with
    ⟨failure | own, w₁⟩
  · rw [hown] at hrender
    exact Or.inl ⟨failure, w₁, run_bind_of_error hown _, hrender, .unrendered hown⟩
  rw [hown] at hrender
  -- every variable of the prototype has a text, so the script is the prototype
  -- with these texts
  have htexts : r.prototype.render (r.elementTexts b.name args shared index own) =
      r.prototype.filled (r.elementText b.name args shared index own) := by
    refine Prototype.render_eq_filled hr fun name hname => ?_
    rw [get?_elementTexts]
    unfold elementText
    by_cases hv : name = b.name
    · rw [if_pos hv, if_pos hv]
    rw [if_neg hv, if_neg hv]
    by_cases hpath : r.prototype.isPath name = true
    · rw [if_pos hpath, if_pos hpath]
    rw [if_neg hpath, if_neg hpath]
    obtain ⟨text, htext⟩ := Option.isSome_iff_exists.mp
      (hshared name hname hv (Bool.eq_false_iff.mpr hpath))
    rw [htext]
    rfl
  rcases run_starting ctx ⟨r.elementText b.name args shared index own,
    indexedPath args Prototype.touchfile index⟩
    htexts (x := r.launchElement ctx calls b args shared index element)
      (run_bind_of_ok hown _) with
    ⟨failure, w', hfail, hidle, hwrite⟩ |
    ⟨script, kind, w', hnot, hidle, hrefused⟩ |
    ⟨⟨job, outcome⟩, w', hstarted, hstarts⟩
  · exact Or.inl ⟨failure, w', hfail, hrender.trans hidle,
      .unwritten hrender hwrite⟩
  · exact Or.inl ⟨_, w', hnot, hrender.trans hidle,
      .unlaunched (hrender.trans hidle) hrefused rfl⟩
  · have hprint := World.serving_idle.print outcome.output w'
    exact Or.inr ⟨_, _, own, hstarted, ⟨w, w₁, hown⟩, rfl, rfl,
      (hstarts.after hrender).before hprint⟩

/-- The jobs of the elements are started in their order. All of them are
started, or those before the first that cannot be, whose failure is returned. -/
theorem run_launchAll (index : Nat) (values : List Value) (w : World) :
    ∃ elements failure? owns w',
      (launchAll (r.launchElement ctx calls b args shared) index values).run w =
      (.ok (elements, failure?), w') ∧
      Starts ctx r (r.batchJobs b.name args shared index owns) w w' ∧
      List.Forall₂ (Renders calls b.role.exportFormat)
        (values.take owns.length) owns ∧
      elements.map (·.sentinel) =
      (r.batchJobs b.name args shared index owns).map (·.sentinel) ∧
      match failure? with
      | none => owns.length = values.length ∧
        elements.map (·.args) = (values.zipIdx index).map fun (x, i) =>
          r.elementArgs b.name args i x
      | some failure => ∃ value w₁, values[owns.length]? = some value ∧
        Hindered ctx calls r b.role.exportFormat value w₁ failure ∧
        Starts ctx r (r.batchJobs b.name args shared index owns) w w₁ ∧
        w₁.Idle w' := by
  induction values generalizing index w with
  | nil => exact ⟨[], none, [], w, rfl, .none ⟨rfl, rfl⟩, .nil, rfl, rfl, rfl⟩
  | cons x xs ih =>
    rcases run_launchElement hcalls hr args hshared index x w with
      ⟨failure, w', hfail, hidle, hhindered⟩ | ⟨element, w₁, own, hok, hown,
        hsentinel, hargs, hstarts⟩
    · refine ⟨[], some failure, [], w', ?_, .none hidle, .nil, rfl, x, w, rfl,
        hhindered, .none ⟨rfl, rfl⟩, hidle⟩
      exact run_bind_of_ok (Act.run_attempt_of hfail) _
    · obtain ⟨elements, failure?, owns, w', hrest, hjobs, howns, hsentinels,
        hend⟩ := ih (index + 1) w₁
      refine ⟨element :: elements, failure?, own :: owns, w', ?_,
        hstarts.cons hjobs, .cons hown howns, ?_, ?_⟩
      · exact (run_bind_of_ok (Act.run_attempt_of hok) _).trans
          (run_bind_of_ok hrest _)
      · rw [List.map_cons, hsentinels, hsentinel]
        rfl
      · cases failure? with
        | none =>
          obtain ⟨hlength, hall⟩ := hend
          refine ⟨congrArg (· + 1) hlength, ?_⟩
          rw [List.map_cons, hall, hargs, List.zipIdx_cons, List.map_cons]
        | some failure =>
          obtain ⟨value, w₂, hvalue, hhindered, hbefore, hidle⟩ := hend
          exact ⟨value, w₂, hvalue, hhindered, hstarts.cons hbefore, hidle⟩

end

end ScriptRunner

end Playbook
