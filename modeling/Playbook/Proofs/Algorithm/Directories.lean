import Playbook.Proofs.Algorithm
import Playbook.Proofs.Sequence.Leaves

/-!
# Playbook — where the leaves of an action work

Before each run an algorithm gives the runner of the action its own working
directory, and the run is given up if one of the directories cannot be created.
So when leaves are called, all of them have been told where to work, whatever
they were told or built with before: a leaf works in the directory that its
description names, or else in that of the algorithm.

Main results:

* `Algorithm.Course` — the three ways that a request for an action can go.
* `Algorithm.course_of_keeps` — an algorithm that is as its description says
  goes one of them.
* `Algorithm.leaves_in_place` — so it does after every history, whoever
  asks for the action.
-/

namespace Playbook

open Effect

namespace Algorithm

/-! ## The course of an action -/

/-- What the description gives an action, with the arguments of a request
written over it. -/
def withDefaults (spec : AlgorithmSpec) (args : Args) :
    Args := Dict.extend (spec.config.mapValues Value.json) args

section

variable (ctx : Context) (spec : AlgorithmSpec) (dir : String) (h : Handle)
  (depth : Nat) (name : String) (args : Args)

/-- How a request for an action ends, with the result and the world that it
leaves, if the algorithm is to work in the directory: the algorithm has no such
action; or its runner cannot be given the directory, and nothing is run; or the
runner is run, and each of the leaves that are called is one of the description
of the action and works in the directory that its own description names, or else
in that of the algorithm. -/
inductive Course (w : World) : Except Failure Value × World → Prop
  | unknown (hnone : (keyed spec.actions).get? name = none) :
      Course w (.error (Cause.unknownAction spec.name name), w)
  | homeless {action : RunnerSpec} {runner placed : Runner} {failure : Failure}
      {disk : Disk} {item : Item}
      (haction : (keyed spec.actions).get? name = some action)
      (hspec : runner.toSpec = action)
      (hplaced : (runner.setWorkdir dir).run w.disk =
        ((placed, some failure), disk)) :
      Course w (.error failure, { w with disk }.setItem h.slot item)
  | ran {action : RunnerSpec} {runner placed : Runner} {disk : Disk}
      {item : Item} {start after : World}
      {result : Except Failure Value}
      (haction : (keyed spec.actions).get? name = some action)
      (hspec : runner.toSpec = action)
      (hplaced : (runner.setWorkdir dir).run w.disk = ((placed, none), disk))
      (hstart : start = ({ w with disk }.setItem h.slot item).setLocked h.slot true)
      (hrun : (Act.within (.action name spec.name)
        (placed.run (Leaf.run ctx (Calls.within ctx depth))
          (withDefaults spec args))).run start = (result, after))
      (hleaves : ∀ call ∈ placed.calls (Leaf.run ctx (Calls.within ctx depth))
        (withDefaults spec args) start,
        call.1.toSpec ∈ action.leaves ∧
        call.1.workdir = call.1.toSpec.workdir?.getD dir) :
      Course w (result, after.setLocked h.slot false)

end

variable {ctx : Context} {spec : AlgorithmSpec} {last : Option String}
  {h : Handle} {w : World}

/-- A free algorithm that is as its description says works in the directory of
the description, or else in the last one. -/
theorem course_of_keeps {a : Algorithm}
    (hfree : w.slots[h.slot]? = some ⟨.algorithm a, false⟩)
    (hkeeps : Keeps ctx spec last a) (depth : Nat) (name : String)
    (args : Args) :
    Course ctx spec (spec.workdir.getD (last.getD ".")) h depth name args w
      ((Calls.within ctx (depth + 1) h (.action name args)).run w) := by
  have haction : (keyed spec.actions).get? name =
      (a.actions.get? name).map Runner.toSpec := by
    rw [← hkeeps.actions, Dict.get?_mapValues]
  have hanswer : (Item.algorithm a).answer ctx (Calls.within ctx depth) h
      (.action name args) =
      a.act ctx (Calls.within ctx depth) h name args := rfl
  rw [Calls.run_within_of_free hfree, hanswer, ← hkeeps.workdir]
  dsimp only
  cases hget : a.actions.get? name with
  | none =>
    rw [hget] at haction
    rw [run_act_of_unknown hget, World.setLocked_setLocked hfree, hkeeps.name]
    exact .unknown haction
  | some runner =>
    rw [hget] at haction
    obtain ⟨v, hbuilt⟩ := hkeeps.standing _ (Dict.mem_of_get? hget)
    -- the algorithm is put back while it is locked
    have hlocked : ∀ disk item,
        World.setItem { w.setLocked h.slot true with disk } h.slot item =
        ({ w with disk }.setItem h.slot item).setLocked h.slot true :=
      fun disk item => World.setItem_setLocked { w with disk } h.slot
      h.slot true item
    rcases hplaced : (runner.setWorkdir a.workdir).run w.disk with
      ⟨⟨placed, _ | failure⟩, disk⟩
    · have hargs : a.arguments args = withDefaults spec args := by
        unfold withDefaults
        rw [← hkeeps.config]
        rfl
      rw [run_act_of_placed (w := w.setLocked h.slot true) hget hplaced,
        hlocked, hargs, hkeeps.name]
      refine .ran haction rfl hplaced rfl rfl ?_
      rw [Runner.eq_placed_of_setWorkdir hplaced]
      exact Runner.workdir_of_calls _ hbuilt.fits a.workdir _ _
    · rw [run_act_of_homeless (w := w.setLocked h.slot true) hget hplaced, hlocked]
      dsimp only
      have hunlocked : World.isLocked { w with disk } h.slot = false :=
        World.FreeAt.isLocked ⟨_, hfree⟩
      rw [World.setLocked_of_free
        (((World.sameLocks_setItem _ h.slot _).locked h.slot).trans hunlocked)]
      exact .homeless haction rfl hplaced

/-- **Each leaf works in the right directory.** An algorithm was built from a
description and has a history of working directories, reloads and actions, where
`last` is the working directory that it was given last. When it is asked for an
action, directly or on the way of another request, then each module or script
that the run reaches, however deeply it is nested, works in the directory that
its own description names, or else in the one that the description of the
algorithm names, or else in the last one, or else in the current one. -/
theorem leaves_in_place (hreached : Reached ctx spec h last w) (name : String)
    (args : Args) :
    Course ctx spec (spec.workdir.getD (last.getD ".")) h w.slots.length name args w
        ((Calls.all ctx h (.action name args)).run w) ∧
      ∀ depth, Course ctx spec (spec.workdir.getD (last.getD ".")) h
        depth name args w
          ((Calls.within ctx (depth + 1) h (.action name args)).run w) := by
  obtain ⟨a, hfree, hkeeps⟩ := hreached.keeps
  rw [Calls.run_all]
  exact ⟨course_of_keeps hfree hkeeps _ name args, fun depth =>
    course_of_keeps hfree hkeeps depth name args⟩

/-- A sequence in a sequence, and one of three modules with a working
directory of its own. -/
def placingSpec : AlgorithmSpec where
  name := "alg"
  actions :=
    [.sequence "go" [.module "a" "m" none,
      .sequence "inner" [.module "b" "m" (some "own"), .module "c" "m" none]]]

/-- A world with a computation that tells, under the name of its
runner, where it works. -/
def placingWorld : World where
  disk := .empty
  catalog :=
    [("m", ⟨0, .native (some []) fun site _ =>
      .done (.ofMap [(site.runner, .ofText site.workdir)])⟩)]
  instances := 1

/-- What the modules of an action have told. -/
def toldBy (run : Except Failure Value × World) : List (String × String) :=
  ((run.1.toOption.bind Value.mapping?).getD []).map fun entry =>
    (entry.1, entry.2.displayText)

/-- A history: a working directory, a run in it, a reload, and another
working directory. -/
def placingHistory (ctx : Context) (h : Handle) (w : World) : World :=
  let after : Request → World → World := fun request w =>
    ((Calls.within ctx (1 + 1) h request).run w).2
  after (.setWorkdir "second")
    (after .reload (after (.action "go" []) (after (.setWorkdir "first") w)))

theorem reached_placingHistory (hreached : Reached ctx spec h last w) :
    Reached ctx spec h (some "second") (placingHistory ctx h w) := by
  refine .moved 1 "second" (.asked 1 (fun dir => ?_)
    (.asked 1 (fun dir => ?_) (.moved 1 "first" hreached)))
  · exact Request.noConfusion
  · exact Request.noConfusion

/-- After a run in the first directory and a reload, all modules without a
directory of their own work in the second. -/
theorem second_in_place :
    let h : Handle := ⟨"alg", 0⟩
    let ctx := ScriptRunner.touching
    ∃ a v, (build ctx placingSpec).run placingWorld = (.ok a, v) ∧
      let w := placingHistory ctx h { v with slots := [⟨.algorithm a, false⟩] }
      let ended := (Calls.all ctx h (.action "go" [])).run w
      Reached ctx placingSpec h (some "second") w ∧
        Course ctx placingSpec "second" h w.slots.length "go" [] w ended ∧
        toldBy ended = [("a", "second"), ("b", "own"), ("c", "second")] := by
  intro h ctx
  obtain ⟨a, v, hbuilt, hcheck⟩ :=
    exists_ok_of_check ((build ctx placingSpec).run placingWorld)
      (fun a v =>
        let w := placingHistory ctx h { v with slots := [⟨.algorithm a, false⟩] }
        toldBy ((Calls.all ctx h (.action "go" [])).run w) =
        [("a", "second"), ("b", "own"), ("c", "second")])
    (by decide +kernel)
  have hstart : Reached ctx placingSpec h none
      { v with slots := [⟨.algorithm a, false⟩] } := .built hbuilt rfl
  have hreached := reached_placingHistory hstart
  exact ⟨a, v, hbuilt, hreached, (leaves_in_place hreached "go" []).1,
    of_decide_eq_true hcheck⟩

end Algorithm

end Playbook
