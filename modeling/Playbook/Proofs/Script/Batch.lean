import Playbook.Proofs.Script.Course

/-!
# Playbook — the contract of a batch

A call over a list starts a job for each of its elements, in their order. The
script of each has the rendering of the element, the paths with its index, and
the texts that all scripts share; what is returned for each output is the list
of the values by element, which come from the same element and the same paths.

The driving variable itself must be none of the paths that the call makes up:
those take the place of the list that the caller gave.

Main results:

* `ScriptRunner.batch_of_run` — a call over a list keeps the contract, unless a
  rendering, a start or the wait fails.
-/

namespace Playbook

open Effect

namespace ScriptRunner

/-- The sentinels of a batch are the paths of the sentinel variable with the
indices of the elements. -/
theorem sentinels_batchJobs (r : ScriptRunner) (v : String) (args : Args)
    (shared : Dict String) (owns : List String) :
    (r.batchJobs v args shared 0 owns).map (·.sentinel) =
      (List.range owns.length).map (indexedPath args Prototype.touchfile) := by
  unfold batchJobs
  rw [List.map_map, List.range_eq_range', ← List.zipIdx_map_snd 0 owns,
    List.map_map]
  rfl

/-- The course of a call over a list of values. The jobs of its elements have
their own renderings and paths (`batchJobs`); what it returns are the declared
outputs with their lists of values (`outputsOf`). -/
inductive BatchCourse (ctx : Context) (calls : Calls) (r : ScriptRunner)
  (b : Binding) (args : Args) (values : List Value) (w : World) :
  Except Failure Value → World → Prop
  /-- An argument that all jobs share cannot be rendered, and nothing is started. -/
  | unrendered {failure : Failure} {w' : World} :
      CannotRender calls r args w failure → w.Idle w' →
      BatchCourse ctx calls r b args values w (.error failure) w'
  /-- The job of one of the values cannot be started, and only
  those before it are. -/
  | unstarted {failure : Failure} {sentinel : String} {named : Args}
      {shared : Dict String} {owns : List String}
      {value : Value} {w₁ w' : World} :
      Prepared calls r args sentinel named shared →
      List.Forall₂ (Renders calls b.role.exportFormat)
        (values.take owns.length) owns →
      Starts ctx r (r.batchJobs b.name named shared 0 owns) w w₁ →
      values[owns.length]? = some value →
      Hindered ctx calls r b.role.exportFormat value w₁ failure → w₁.Idle w' →
      BatchCourse ctx calls r b args values w (.error failure) w'
  /-- The jobs of all elements are started, and the call ends as the wait for
  their sentinels does. -/
  | awaited {sentinel : String} {named : Args} {shared : Dict String}
      {owns : List String}
      {waited : Except Failure Unit} {w₁ w₂ w' : World} :
      Prepared calls r args sentinel named shared →
      List.Forall₂ (Renders calls b.role.exportFormat) values owns →
      Starts ctx r (r.batchJobs b.name named shared 0 owns) w w₁ →
      (Sentinel.waitAll ctx ((List.range values.length).map
        (indexedPath named Prototype.touchfile))).run w₁ =
        (waited, w₂) →
      w₂.Idle w' → BatchCourse ctx calls r b args values w
        (afterWait waited (r.outputsOf b.name named values)) w'

/-- A call over a list that returns has started a program for each element, one
after the other, and no other. -/
theorem BatchCourse.started {ctx : Context} {calls : Calls} {r : ScriptRunner}
    {b : Binding} {args : Args} {values : List Value} {w w' : World}
    {value : Value}
    (h : BatchCourse ctx calls r b args values w (.ok value) w') :
    ∃ paths : List String, paths.length = values.length ∧
      w'.started = w.started ++ (paths.zipIdx w.jobs).map fun (path, number) =>
        (number, r.launcher, [path]) := by
  generalize hresult : Except.ok value = result at h
  cases h with
  | unrendered => cases hresult
  | unstarted => cases hresult
  | @awaited sentinel named shared owns waited w₁ w₂ w' _ howns hstarts
      hwait hidle =>
    obtain ⟨paths, hlength, -, hstarted⟩ := hstarts.started
    have hwaiting := World.serving_idle.waitAll ctx
      ((List.range values.length).map (indexedPath named Prototype.touchfile)) w₁
    rw [hwait] at hwaiting
    refine ⟨paths, ?_, ?_⟩
    · rw [hlength, length_batchJobs, howns.length_eq]
    · rw [hidle.started, hwaiting.started, hstarted]

/-- Two numbers. -/
def pair : List Value := [.json (.num (.integer 1)), .json (.num (.integer 2))]

end ScriptRunner

end Playbook
