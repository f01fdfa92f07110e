import Playbook.Runner.Run
import Playbook.Proofs.Script.Course

/-!
# Playbook — the check of arguments

A runner that is called first looks whether what it requires is among its arguments.
A script runner has put the paths that it makes up among them by then, so these are
never missing. If anything is missing, the call ends there: it names what is
missing, and all that has happened is that fresh names were taken for the paths.
Otherwise the call goes on as if there were no check (`afterCheck`).

Main results:

* `ScriptRunner.run_of_missing`, `ModuleRunner.run_of_missing` — a call that is
  refused does nothing.
* `ScriptRunner.run_of_complete`, `ModuleRunner.run_of_complete` — a call that
  is not refused is one without a check.
* `checked_before_effects` — which calls are refused, and that these do nothing.
-/

namespace Playbook

open Effect

/-! ## Scripts -/

namespace ScriptRunner

/-- The variables for which a call is refused: those that are not among the
arguments, in the order of the prototype. The paths that the call makes up
itself, for the sentinel and for declared output files, are never missing. -/
def missing (r : ScriptRunner) (args : Args) : List String :=
  r.prototype.bindings.keys.filter fun name =>
    !r.prototype.isPath name && !args.contains name

/-- The warnings about arguments that no placeholder uses. -/
def warnUnused (r : ScriptRunner) (args : Args) : Act Unit := do
  for name in args.keys do
    unless r.prototype.bindings.contains name do
      Act.warn "argument is not used by the prototype"
        [⟨"runner", r.name, false⟩, ⟨"variable", name, false⟩]

/-- Goes on with the arguments once the paths of a call were put in and
nothing is missing. -/
def goOn (ctx : Context) (calls : Calls) (r : ScriptRunner) (sentinel : String)
    (named : Args) : Act Value := do
  r.warnUnused named
  let shared ← renderShared calls r.prototype.bindings named
  r.runJobs ctx calls sentinel named shared

/-- A call without the check of its arguments. -/
def afterCheck (ctx : Context) (calls : Calls) (r : ScriptRunner)
    (args : Args) : Act Value :=
  r.withPaths args (r.goOn ctx calls)

/-- Once the paths are put in, the check finds missing what neither the caller
nor the call itself has put in. -/
theorem PathsIn.filter_eq_missing {r : ScriptRunner} {args named : Args}
    {sentinel : String} (h : PathsIn r args sentinel named) :
    (r.prototype.bindings.keys.filter fun name => !named.contains name) =
    r.missing args := by
  unfold missing
  refine List.filter_congr fun name _ => ?_
  by_cases hpath : r.prototype.isPath name = true
  · rw [h.contains (Or.inl hpath), hpath]
    rfl
  · have hsame : named.contains name = args.contains name := by
      unfold Dict.contains
      rw [h.others name (Bool.eq_false_iff.mpr hpath)]
    rw [hsame, Bool.eq_false_iff.mpr hpath]
    rfl

/-- If a variable is missing, the call is refused. It names all that are
missing, and fresh names are all that it took. -/
theorem run_of_missing {r : ScriptRunner} {args : Args}
    (h : r.missing args ≠ []) (ctx : Context) (calls : Calls) (w : World) :
    (r.run ctx calls args).run w =
    (.error ⟨[], .missingArguments r.name (r.missing args)⟩,
      { w with tokens := w.tokens + 1 + r.prototype.fileOutputs.length }) := by
  obtain ⟨sentinel, named, hpaths, -, hrun⟩ := run_withPaths r args w
  have hrefused : r.validate named = Act.fail
      (.missingArguments r.name (r.missing args)) := by
    unfold validate
    rw [hpaths.filter_eq_missing]
    cases hmissing : r.missing args with
    | nil => exact absurd hmissing h
    | cons name names => rfl
  have hstart := hrun (r.runNamed ctx calls)
  unfold runNamed at hstart
  rw [hrefused] at hstart
  -- no file was marked to be removed, so nothing is removed at the end
  exact hstart

/-- If no variable is missing, the call is the same as without its check. -/
theorem run_of_complete {r : ScriptRunner} {args : Args}
    (h : r.missing args = []) (ctx : Context) (calls : Calls) :
    r.run ctx calls args = r.afterCheck ctx calls args := by
  funext w
  obtain ⟨sentinel, named, hpaths, -, hrun⟩ := run_withPaths r args w
  have hpasses : r.validate named = r.warnUnused named := by
    unfold validate
    rw [hpaths.filter_eq_missing, h]
    rfl
  have hsame : r.runNamed ctx calls sentinel named =
      r.goOn ctx calls sentinel named := by
    unfold runNamed goOn
    rw [hpasses]
  have hchecked := hrun (r.runNamed ctx calls)
  rw [hsame] at hchecked
  exact hchecked.trans (hrun (r.goOn ctx calls)).symm

end ScriptRunner

/-! ## Computations -/

namespace ModuleRunner

/-- A call without the check of its arguments. -/
def afterCheck (ctx : Context) (calls : Calls) (r : ModuleRunner)
    (args : Args) : Act Value := do
  for name in args.keys do
    unless r.required.contains name do
      Act.warn "variable was not in requirements"
        [⟨"runner", r.name, false⟩, ⟨"variable", name, false⟩]
  Act.within (.computation r.identifier r.name)
    (r.computation.run ctx calls ⟨r.name, r.workdir⟩ args)

/-- If a variable is missing, the call is refused and does nothing. -/
theorem run_of_missing {r : ModuleRunner} {args : Args}
    (h : missing r.required args ≠ []) (ctx : Context)
    (calls : Calls) (w : World) :
    (r.run ctx calls args).run w =
    (.error ⟨[], .missingArguments r.name (missing r.required args)⟩, w) := by
  unfold run
  cases hmissing : missing r.required args with
  | nil => exact absurd hmissing h
  | cons name names => rfl

/-- If no variable is missing, the call is the same as without its check. -/
theorem run_of_complete {r : ModuleRunner} {args : Args}
    (h : missing r.required args = []) (ctx : Context) (calls : Calls) :
    r.run ctx calls args = r.afterCheck ctx calls args := by
  unfold run
  rw [h]
  rfl

end ModuleRunner

/-! ## Leaves -/

namespace Leaf

/-- The variables for which a call is refused. -/
def missing : Leaf → Args → List String
  | module r, args => ModuleRunner.missing r.required args
  | script r, args => r.missing args

/-- A call without the check of its arguments. -/
def afterCheck (ctx : Context) (calls : Calls) : Leaf → Args → Act Value
  | module r, args => r.afterCheck ctx calls args
  | script r, args => r.afterCheck ctx calls args

theorem run_of_complete {l : Leaf} {args : Args} (h : l.missing args = [])
    (ctx : Context) (calls : Calls) :
    l.run ctx calls args = l.afterCheck ctx calls args := by
  cases l with
  | module r => exact ModuleRunner.run_of_complete h ctx calls
  | script r => exact ScriptRunner.run_of_complete h ctx calls

/-- Where all that a leaf requires is among the arguments, nothing is missing. -/
theorem missing_eq_nil {l : Leaf} {args : Args}
    (h : ∀ name ∈ l.required.keys, name ∈ args.keys) :
    l.missing args = [] := by
  cases l with
  | module r =>
    refine List.filter_eq_nil_iff.mpr fun name hname => ?_
    have hthere := Dict.contains_eq_true.mpr (h name hname)
    simp [hthere]
  | script r =>
    refine List.filter_eq_nil_iff.mpr fun name hname => ?_
    have hthere := Dict.contains_eq_true.mpr (h name hname)
    simp [hthere]

end Leaf

/-- **Missing arguments end a call before it does anything.** A call of a script
is refused exactly if a variable of its prototype is missing that is neither the
sentinel nor a declared output file, and a call of a computation exactly if one
that it requires is missing. The failure lists the missing names in order,
whatever the host, the items and the computation would do; the world is left as
it was, but for the names that a script has taken for its paths. Any other call
goes on as one without a check. -/
theorem checked_before_effects :
    (∀ (r : ScriptRunner) (args : Args) (ctx : Context) (calls : Calls)
      (w : World), (r.run ctx calls args).run w =
      if r.missing args = [] then (r.afterCheck ctx calls args).run w
      else (.error ⟨[], .missingArguments r.name (r.missing args)⟩,
        { w with tokens := w.tokens + 1 + r.prototype.fileOutputs.length })) ∧
    ∀ (r : ModuleRunner) (args : Args) (ctx : Context) (calls : Calls)
      (w : World), (r.run ctx calls args).run w =
      if ModuleRunner.missing r.required args =
        [] then (r.afterCheck ctx calls args).run w
      else (.error ⟨[], .missingArguments r.name
          (ModuleRunner.missing r.required args)⟩, w) := by
  constructor
  · intro r args ctx calls w
    split
    · next hcomplete => rw [ScriptRunner.run_of_complete hcomplete]
    · next hmissing => exact ScriptRunner.run_of_missing hmissing ctx calls w
  · intro r args ctx calls w
    split
    · next hcomplete => rw [ModuleRunner.run_of_complete hcomplete]
    · next hmissing => exact ModuleRunner.run_of_missing hmissing ctx calls w

end Playbook
