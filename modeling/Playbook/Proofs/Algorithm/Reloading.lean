import Playbook.Proofs.Algorithm

/-!
# Playbook — algorithms whose reload fails

The runners of an algorithm are rebuilt one after the other, and each takes its
place at once. If one of them cannot be built, the reload ends there: it and
those behind it are as they were, and those before it are new. So a reload that
fails has changed nothing if it fails at the first runner, or if what the
runners before it were made from is still the same; and otherwise it has changed
what these are made from, as any reload would have.

Main results:

* `Algorithm.rebuild_failing` — where a rebuilding stops, and what it
  has done until then.
* `Algorithm.unchanged_of_upToDate` — runners that are made from what they were
  made from before are as good as they were.
* `Algorithm.reload_failing` — what a reload that fails leaves of an algorithm,
  and when this makes no difference.
* `Algorithm.replaced_by_failing` — a reload that fails and makes a difference.
-/

namespace Playbook

open Effect

namespace Algorithm

variable {ctx : Context}

/-! ## Rebuilding -/

/-- A rebuilding that fails has stopped at a runner that cannot be built; the
runners before it have been rebuilt. -/
theorem rebuild_failing {actions after : Dict Runner} {failure : Failure}
    {w w' : World}
    (h : (rebuild ctx actions).run w = ((after, some failure), w')) :
    ∃ before name failing later built turn,
      actions = before ++ (name, failing) :: later ∧
      after = built ++ (name, failing) :: later ∧
      (rebuild ctx before).run w = ((built, none), turn) ∧
      (Runner.build ctx failing.toSpec).run turn = (.error failure, w') := by
  -- by induction on the runners that are still to be rebuilt, in whatever world
  -- it is their turn
  induction actions generalizing after w with
  | nil => cases h
  | cons entry rest ih =>
    obtain ⟨name, runner⟩ := entry
    rcases hrun : (Runner.build ctx runner.toSpec).run w with ⟨fault | runner', w₁⟩
    · rw [run_rebuild_error hrun] at h
      cases h
      exact ⟨[], name, runner, rest, [], w, rfl, rfl, rfl, hrun⟩
    · rw [run_rebuild_ok hrun] at h
      rcases hrest : (rebuild ctx rest).run w₁ with ⟨⟨after', _ | fault⟩, w₂⟩
      · rw [hrest] at h
        cases h
      · rw [hrest] at h
        cases h
        obtain ⟨before, other, failing, later, built, turn, rfl, rfl, hbefore,
          hfailing⟩ := ih hrest
        refine ⟨(name, runner) :: before, other, failing, later,
          (name, runner') :: built, turn, rfl, rfl, ?_, hfailing⟩
        rw [run_rebuild_ok hrun, hbefore]

/-- The actions have their names still, and of each the one runner is as
good as the other. -/
def Unchanged (ctx : Context) (actions after : Dict Runner) : Prop :=
  List.Forall₂ (fun old new => old.1 = new.1 ∧
    Runner.Interchangeable ctx old.2 new.2) actions after

theorem Unchanged.refl (actions : Dict Runner) : Unchanged ctx actions actions :=
  List.forall₂_same.mpr fun entry _ => ⟨rfl, .refl entry.2⟩

/-- When it is the turn of each runner to be rebuilt, what it was made from is
still the same. -/
def UpToDate (ctx : Context) : Dict Runner → World → Prop
  | [], _ => True
  | (_, runner) :: rest, w =>
    (∃ v, runner.BuiltIn ctx v ∧ SameSourcesFor ctx runner.toSpec v w) ∧
    UpToDate ctx rest ((Runner.build ctx runner.toSpec).run w).2

theorem unchanged_of_upToDate {actions built : Dict Runner} {w w' : World}
    (hactions : UpToDate ctx actions w)
    (h : (rebuild ctx actions).run w = ((built, none), w')) :
    Unchanged ctx actions built := by
  induction actions generalizing built w with
  | nil =>
    cases h
    exact .nil
  | cons entry rest ih =>
    obtain ⟨name, runner⟩ := entry
    obtain ⟨⟨v, hbuilt, hsources⟩, hlater⟩ := hactions
    rcases hrun : (Runner.build ctx runner.toSpec).run w with ⟨fault | runner', w₁⟩
    · rw [run_rebuild_error hrun] at h
      cases h
    · rw [run_rebuild_ok hrun] at h
      rw [hrun] at hlater
      rcases hrest : (rebuild ctx rest).run w₁ with ⟨⟨others, _ | fault⟩, w₂⟩
      · rw [hrest] at h
        cases h
        exact .cons ⟨rfl, hbuilt.interchangeable hsources hrun⟩ (ih hlater hrest)
      · rw [hrest] at h
        cases h

/-- Runners that stay as they are do not count. -/
theorem unchanged_append {before built later : Dict Runner}
    (hlength : before.length = built.length) :
    Unchanged ctx (before ++ later) (built ++ later) ↔
    Unchanged ctx before built := by
  constructor
  · intro h
    have htake := List.forall₂_take before.length h
    rw [List.take_left] at htake
    rwa [hlength, List.take_left] at htake
  · intro h
    exact List.rel_append h (Unchanged.refl later)

/-! ## Reloading -/

/-- A reload of a free algorithm that fails has failed where its
runners are rebuilt. -/
theorem rebuild_of_reload_error {h : Handle} {a : Algorithm} {w w' : World}
    {depth : Nat} {failure : Failure}
    (hfree : w.slots[h.slot]? = some ⟨.algorithm a, false⟩)
    (hfail : (Calls.within ctx (depth + 1) h .reload).run w =
      (.error failure, w')) :
    ∃ actions v, (rebuild ctx a.actions).run (w.setLocked h.slot true) =
      ((actions, some failure), v) ∧
      w'.slots[h.slot]? = some ⟨.algorithm { a with actions }, false⟩ := by
  rcases hrebuild : (rebuild ctx a.actions).run (w.setLocked h.slot true) with
    ⟨⟨actions, failed⟩, v⟩
  have hslots : v.slots = (w.setLocked h.slot true).slots := by
    have hquiet := quiet_slots.rebuild ctx a.actions (w.setLocked h.slot true)
    rwa [hrebuild] at hquiet
  have hanswer : (Item.algorithm a).answer ctx (Calls.within ctx depth) h .reload =
      a.reload ctx h >>= fun _ => return .null := rfl
  rw [Calls.run_within_of_free hfree, hanswer, run_bind,
    run_reload hrebuild] at hfail
  cases failed with
  | none => cases hfail
  | some fault =>
    -- the algorithm has been put back before the failure is returned, and then
    -- its lock was released
    have hcheck : ∀ u, (Act.check (some fault)).run u = (.error fault, u) :=
      fun _ => rfl
    rw [hcheck] at hfail
    cases hfail
    refine ⟨actions, v, rfl, ?_⟩
    rw [World.getElem?_setLocked, if_pos rfl, World.getElem?_setItem,
      if_pos rfl, hslots, World.getElem?_setLocked,
      if_pos rfl, hfree]
    rfl

/-- **What a reload that fails leaves of an algorithm.** The runners before the
one that cannot be built have been replaced, one after the other, by what is
built from their descriptions; all else is as it was. So the actions are as good
as they were exactly if those before the failing one are. This is so if there
are none, and if what they were made from is the same when it is their turn. -/
theorem reload_failing {h : Handle} {a : Algorithm} {w w' : World} {depth : Nat}
    {failure : Failure} (hfree : w.slots[h.slot]? = some ⟨.algorithm a, false⟩)
    (hfail : (Calls.within ctx (depth + 1) h .reload).run w =
      (.error failure, w')) :
    ∃ before name failing later built turn after,
      a.actions = before ++ (name, failing) :: later ∧
      after = { a with actions := built ++ (name, failing) :: later } ∧
      w'.slots[h.slot]? = some ⟨.algorithm after, false⟩ ∧
      (rebuild ctx before).run (w.setLocked h.slot true) = ((built, none), turn) ∧
      (∃ v, (Runner.build ctx failing.toSpec).run turn = (.error failure, v)) ∧
      (Unchanged ctx a.actions after.actions ↔ Unchanged ctx before built) ∧
      (before = [] → after = a) ∧
      (UpToDate ctx before (w.setLocked h.slot true) →
        Unchanged ctx a.actions after.actions) := by
  obtain ⟨actions, v, hrebuild, hslot⟩ := rebuild_of_reload_error hfree hfail
  obtain ⟨before, name, failing, later, built, turn, hactions, rfl, hbefore,
    hfailing⟩ := rebuild_failing hrebuild
  have hlength : before.length = built.length := by
    -- rebuilding keeps the descriptions, so it keeps their number
    have hspecs := congrArg List.length
        (toSpec_rebuild ctx before (w.setLocked h.slot true))
    rw [hbefore] at hspecs
    unfold Dict.mapValues at hspecs
    rw [List.length_map, List.length_map] at hspecs
    exact hspecs.symm
  have hwhole : Unchanged ctx a.actions (built ++ (name, failing) :: later) ↔
      Unchanged ctx before built := by
    rw [hactions]
    exact unchanged_append hlength
  refine ⟨before, name, failing, later, built, turn, _, hactions, rfl, hslot,
    hbefore, ⟨v, hfailing⟩, hwhole, ?_, ?_⟩
  · rintro rfl
    cases List.length_eq_zero_iff.mp hlength.symm
    rw [List.nil_append] at hactions ⊢
    rw [← hactions]
  · intro hdate
    exact hwhole.mpr (unchanged_of_upToDate hdate hbefore)

/-- A computation that returns its arguments and requires none. -/
def firstRunner : Runner :=
  .leaf (.module ⟨"first", "m", ".", none, [], Runner.givingBack []⟩)

/-- A computation and a script as actions. -/
def pairAlgorithm : Algorithm where
  name := "alg"
  actions :=
    [("first", firstRunner),
      ("job", .leaf (.script
        (ScriptRunner.touchingRunner ScriptRunner.touchingPrototype)))]
  config := []

theorem builtIn_firstRunner :
    firstRunner.BuiltIn ScriptRunner.touching Runner.pairWorld := by
  have hbuilt : (Runner.build ScriptRunner.touching
      (.module "first" "m" none)).run Runner.pairWorld =
      (.ok firstRunner, Runner.pairWorld) := rfl
  exact Runner.builtIn_of_build hbuilt

/-- The prototype is gone, and the computation is what it was: the reload fails
at the script and has changed nothing. -/
theorem pair_unchanged :
    let ctx := ScriptRunner.touching
    let w : World :=
      { Runner.pairWorld with
        disk := .empty, slots := [⟨.algorithm pairAlgorithm, false⟩] }
    ∃ failure w' after, (Calls.within ctx (1 + 1) ⟨"alg", 0⟩ .reload).run w =
      (.error failure, w') ∧
      w'.slots[0]? = some ⟨.algorithm after, false⟩ ∧
      Unchanged ctx pairAlgorithm.actions after.actions := by
  intro ctx w
  obtain ⟨failure, w', hfail, -⟩ :=
    exists_of_check ((Calls.within ctx (1 + 1) ⟨"alg", 0⟩ .reload).run w)
      (fun _ _ => true) (by decide +kernel)
  obtain ⟨before, name, failing, later, built, turn, after, hactions, -, hslot,
      -, -, -, hnone, hdate⟩ :=
    reload_failing (h := ⟨"alg", 0⟩) (a := pairAlgorithm) rfl hfail
  refine ⟨failure, w', after, hfail, hslot, ?_⟩
  cases before with
  | nil =>
    rw [hnone rfl]
    exact .refl _
  | cons entry rest =>
    obtain ⟨rfl, hrest⟩ := List.cons.inj hactions
    -- there is one runner before the script at most
    have hnil : rest = [] := by
      cases rest with
      | nil => rfl
      | cons other others =>
        have hlength := congrArg List.length hrest
        simp at hlength
    subst hnil
    exact hdate ⟨⟨Runner.pairWorld, builtIn_firstRunner,
      sameSourcesFor_native ctx rfl rfl "first" none⟩, trivial⟩

/-- The description of an algorithm with a computation and a script. -/
def pairDescription : AlgorithmSpec where
  name := "alg"
  actions := [.module "first" "m" none,
    .script "job" "job.proto.sh" "sh" false (some "wd")]

/-- The variables that the runner of an action requires, if an algorithm with
the action stands in the slot. -/
def requiredAt (w : World) (slot : Nat) (name : String) : Option (List String) :=
  match w.itemAt slot with
  | some (.algorithm a) => (a.actions.get? name).map (·.required.keys)
  | _ => none

/-- The prototype is gone, and the computation requires a variable now. The
reload fails at the script; afterwards the first action requires the variable
too, and refuses the arguments that it took before. -/
theorem replaced_by_failing :
    let ctx := ScriptRunner.touching
    ∃ a v, (build ctx pairDescription).run Runner.pairWorld = (.ok a, v) ∧
      let w : World := { Runner.changedWorld with slots := [⟨.algorithm a, false⟩] }
      let ended := (Calls.all ctx ⟨"alg", 0⟩ .reload).run w
      let started : World → Except Failure Value :=
        fun w => ((Calls.all ctx ⟨"alg", 0⟩ (.action "first" [])).run w).1
      ended.1.isOk = false ∧ requiredAt w 0 "first" = some [] ∧
        requiredAt ended.2 0 "first" = some ["x"] ∧
        (started w).isOk = true ∧ (started ended.2).isOk = false := by
  intro ctx
  obtain ⟨a, v, hbuilt, hcheck⟩ :=
    exists_ok_of_check ((build ctx pairDescription).run Runner.pairWorld)
      (fun a _ =>
        let w : World := { Runner.changedWorld with slots := [⟨.algorithm a, false⟩] }
        let ended := (Calls.all ctx ⟨"alg", 0⟩ .reload).run w
        let started : World → Except Failure Value :=
          fun w => ((Calls.all ctx ⟨"alg", 0⟩ (.action "first" [])).run w).1
        ended.1.isOk = false ∧ requiredAt w 0 "first" = some [] ∧
          requiredAt ended.2 0 "first" = some ["x"] ∧
          (started w).isOk = true ∧ (started ended.2).isOk = false)
            (by decide +kernel)
  exact ⟨a, v, hbuilt, of_decide_eq_true hcheck⟩

end Algorithm

end Playbook
