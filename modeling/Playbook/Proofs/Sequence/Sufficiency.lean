import Playbook.Proofs.Check
import Playbook.Proofs.Sequence.Gathering

/-!
# Playbook — what a runner requires is enough

A runner that was built and is given all that it requires is never refused, and
neither is any runner in it. The runners of a sequence are given what they
require of its pool; what they require is in the pool at the beginning, because
the sequence requires it too, and stays there, because what they return is only
written over it.

Main results:

* `Runner.Supplied.feed`, `Runner.mem_keys_project_of_supplied` — the pool keeps
  what is required, and passes it on.
* `Runner.run_of_supplied` — what holds of leaves that are given all they
  require holds of a run.
* `Runner.requirements_suffice` — no leaf is called with something missing, so
  that leaving out all checks changes nothing.
-/

namespace Playbook.Runner

open Effect

/-! ## The pool -/

/-- Everything that runners require is in the pool. -/
def Supplied (rs : List Runner) (pool : Args) : Prop :=
  ∀ r ∈ rs, ∀ name ∈ r.required.keys, name ∈ pool.keys

/-- Whatever a runner returns, nothing leaves the pool. -/
theorem Supplied.feed {rs : List Runner} {pool : Args} (h : Supplied rs pool)
    (returned : Value) :
    Supplied rs (feed pool returned) := by
  intro r hr name hname
  rw [feed_eq_extend, Dict.mem_keys_extend]
  exact Or.inl (h r hr name hname)

/-- A runner is given all that it requires, if that is in the pool. -/
theorem mem_keys_project_of_supplied {r : Runner} {rs : List Runner}
    {pool : Args} (h : Supplied (r :: rs) pool) :
    ∀ name ∈ r.required.keys, name ∈ (project r.required pool).keys := by
  intro name hname
  exact mem_keys_project.mpr ⟨hname, h r (List.mem_cons_self ..) name hname⟩

/-! ## Runs -/

section

-- the halves of a mutual block do not count as uses of what they share
set_option linter.unusedSectionVars false

variable {m : Type → Type} [Monad m] [LawfulMonad m]
  {f g : Leaf → Args → m Value} {K : ∀ {α : Type}, m α → m α → Prop}
  (hpure : ∀ {α : Type} (a : α), K (pure a) (pure a))
  (hbind : ∀ {α β : Type} {x y : m α} {k k' : α → m β}, K x y →
    (∀ a, K (k a) (k' a)) → K (x >>= k) (y >>= k'))
    (hleaf : ∀ l args, l.missing args = [] → K (f l args) (g l args))

include hpure hbind hleaf

mutual
/-- A relation that holds over sequences of acts if it holds over their parts,
and over leaves that miss nothing, holds over the runs of a settled runner that
is given all that it requires. -/
theorem run_of_supplied : (r : Runner) → r.Settled → {args : Args} →
    (∀ name ∈ r.required.keys, name ∈ args.keys) →
    K (run f r args) (run g r args)
  | .leaf l, _, args, hargs => hleaf l args (Leaf.missing_eq_nil hargs)
  | .sequence name actions required, hr, args, hargs => by
    -- the sequence requires what its runners require, so its arguments are a
    -- pool that supplies them
    have hsupplied : Supplied actions args := by
      intro r hmem key hkey
      exact hargs key (hr.mem_keys_required hmem hkey)
    have hsettled : AllSettled actions := hr.1
    rw [run, run, map_eq_pure_bind, map_eq_pure_bind]
    exact hbind (runActions_of_supplied actions hsettled hsupplied)
      fun pool => hpure _

theorem runActions_of_supplied : (rs : List Runner) → AllSettled rs →
    {pool : Args} → Supplied rs pool →
    K (runActions f rs pool) (runActions g rs pool)
  | [], _, pool, _ => hpure pool
  | r :: rs, hrs, pool, hsupplied => by
    have hrest : Supplied rs pool := fun s hs =>
      hsupplied s (List.mem_cons_of_mem _ hs)
    rw [runActions, runActions]
    refine hbind (run_of_supplied r hrs.1
      (mem_keys_project_of_supplied hsupplied)) fun returned => ?_
    exact runActions_of_supplied rs hrs.2 (hrest.feed returned)
end

end

/-- Every leaf of a record was given all that it requires. -/
def AllComplete (record : List (Leaf × Args)) : Prop :=
  ∀ call ∈ record, call.1.missing call.2 = []

/-- A record stays complete. -/
theorem allComplete_chains (σ : Type) :
    Chains fun s s' : σ × List (Leaf × Args) => AllComplete s.2 →
        AllComplete s'.2 where
  refl _ := id
  trans h k := k ∘ h

/-- Recording a leaf that is given all that it requires keeps
the record complete. -/
theorem along_recorded {ε σ : Type}
    (leaf : Leaf → Args → ExceptT ε (StateM σ) Value) {l : Leaf} {args : Args}
    (h : l.missing args = []) :
    Along (fun s s' : σ × List (Leaf × Args) => AllComplete s.2 →
      AllComplete s'.2) (recorded leaf l args) := by
  intro s hs call hcall
  rcases List.mem_append.mp hcall with hbefore | hlast
  · exact hs call hbefore
  · rw [List.mem_singleton.mp hlast]
    exact h

/-- **What a runner requires is enough.** A runner that was built is given at
least what it requires. Then, whatever its leaves do and return, each of them is
called with all that it requires. So no check of arguments fails in the run,
neither its own nor that of a runner in it: the run is the same as with all
these checks left out. -/
theorem requirements_suffice {ctx : Context} {spec : RunnerSpec} {r : Runner}
    {w w' : World} (hbuilt : (build ctx spec).run w = (.ok r, w')) {args : Args}
    (hargs : ∀ name ∈ r.required.keys, name ∈ args.keys) :
    (∀ {ε σ : Type} (leaf : Leaf → Args → ExceptT ε (StateM σ) Value) (s : σ),
      ∀ call ∈ calls leaf r args s,
      call.1.missing call.2 = []) ∧
    ∀ (ctx : Context) (calls : Calls), r.run (Leaf.run ctx calls) args =
    r.run (Leaf.afterCheck ctx calls) args := by
  have hsettled := settled_of_build spec hbuilt
  constructor
  · intro ε σ leaf s
    have hchains := allComplete_chains σ
    have halong := run_of_supplied (K := fun {α} x _ =>
        Along _ x) (g := recorded leaf) (Along.pure hchains)
      (Along.bind hchains) (fun l args hmissing =>
        along_recorded leaf hmissing) r hsettled hargs
    exact halong (s, []) fun _ h => (List.not_mem_nil h).elim
  · intro ctx calls
    exact run_of_supplied (K := fun {α} x y => x = y) (fun _ =>
      rfl) (fun hx hk => by rw [hx, funext hk])
        (fun l args hmissing => Leaf.run_of_complete hmissing ctx calls) r
      hsettled hargs

/-! ## A sequence in a sequence -/

/-- A computation, and a sequence of another computation and a script. -/
def nestedSpec : RunnerSpec :=
  .sequence "outer" [.module "first" "m" none,
    .sequence "inner" [.module "second" "n" none,
      .script "job" "job.proto.sh" "sh" false (some "wd")]]

/-- A world with the prototype, a computation that writes over what the next one
requires, and that one. -/
def nestedWorld : World :=
  { pairWorld with
    catalog :=
      [("m", ⟨0, .plain (some []) fun _ =>
        .ok (.ofMap [("x", .null), ("y", .null)])⟩),
      ("n", ⟨1, givingBack ["x"]⟩)]
    instances := 2 }

/-- The sequence requires what the inner one requires, and with that, nothing is
missing anywhere. -/
theorem nested_suffices :
    ∃ r w', (build ScriptRunner.touching nestedSpec).run nestedWorld = (.ok r, w') ∧
      let args : Args := [("touchfile", .null), ("x", .ofText "1")]
      let calling := Leaf.run ScriptRunner.touching
          (Calls.all ScriptRunner.touching)
      r.required.keys = ["x", "touchfile"] ∧
      (∀ call ∈ calls calling r args nestedWorld, call.1.missing call.2 = []) ∧
      r.run calling args =
        r.run (Leaf.afterCheck ScriptRunner.touching
          (Calls.all ScriptRunner.touching)) args := by
  obtain ⟨r, w', hbuilt, hcheck⟩ :=
    exists_ok_of_check
      ((build ScriptRunner.touching nestedSpec).run nestedWorld)
    (fun r _ => r.required.keys = ["x", "touchfile"]) (by decide +kernel)
  have hrequired : r.required.keys = ["x", "touchfile"] := of_decide_eq_true hcheck
  have hargs : ∀ name ∈ r.required.keys,
      name ∈ Dict.keys [("touchfile", Value.null), ("x", .ofText "1")] := by
    rw [hrequired]
    decide
  obtain ⟨hcalled, hunchecked⟩ := requirements_suffice hbuilt hargs
  exact ⟨r, w', hbuilt, hrequired, hcalled _ nestedWorld, hunchecked _ _⟩

end Playbook.Runner
