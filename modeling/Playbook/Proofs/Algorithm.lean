import Playbook.Proofs.Registry.Free
import Playbook.Proofs.Sequence.Rebuilding

/-!
# Playbook — algorithms in use

An algorithm that was built from a description is given working directories,
reloaded and asked for actions, directly or by other items while these carry out
requests of their own. None of this makes it drift from its description: its runners
are described as they were, and each is still as good as it was when it was built
(`Algorithm.Keeps`). The only thing that changes for good is the working directory
of an algorithm that has none of its own, and it is always the last one given.

Main results:

* `Algorithm.keeps_of_build`, `Algorithm.Keeps.makes`,
  `Algorithm.Keeps.adopt` — what is built fits its description, and each step
  that a request can make keeps this.
* `Calls.setWorkdir_within` — what giving an item a working directory makes of it.
* `Algorithm.Reached.keeps` — so after every history an algorithm
  fits its description.
-/

namespace Playbook

open Effect

/-! ## Runners that are built or rebuilt -/

namespace Algorithm

variable {ctx : Context}

/-- Each runner is as good as built in some world. -/
def Standing (ctx : Context) (actions : Dict Runner) : Prop :=
  ∀ entry ∈ actions, ∃ w, entry.2.BuiltIn ctx w

theorem Standing.insert {actions : Dict Runner} (h : Standing ctx actions)
    (name : String) {runner : Runner} {w : World}
    (hrunner : runner.BuiltIn ctx w) :
    Standing ctx (actions.insert name runner) := by
  intro entry hentry
  rcases Dict.mem_insert hentry with rfl | hthere
  · exact ⟨w, hrunner⟩
  · exact h entry hthere

/-- Wherever rebuilding stops, each runner has just been built or is as it was. -/
theorem Standing.rebuild {actions : Dict Runner}
    (h : Standing ctx actions) (w : World) :
    Standing ctx ((rebuild ctx actions).run w).1.1 := by
  induction actions generalizing w with
  | nil => exact h
  | cons entry rest ih =>
    obtain ⟨name, runner⟩ := entry
    obtain ⟨-, hrest⟩ := List.forall_mem_cons.mp h
    rcases hrun : (Runner.build ctx runner.toSpec).run w with ⟨failure | built, w₁⟩
    · rw [run_rebuild_error hrun]
      exact h
    · rw [run_rebuild_ok hrun]
      exact List.forall_mem_cons.mpr
        ⟨⟨w, Runner.builtIn_of_build hrun⟩, ih hrest w₁⟩

/-- The algorithm is as the description says; where this names no working directory,
it works in the one that was given last, or else in the current one. -/
structure Keeps (ctx : Context) (spec : AlgorithmSpec) (given : Option String)
    (a : Algorithm) : Prop where
  name : a.name = spec.name
  actions : a.actions.mapValues Runner.toSpec = keyed spec.actions
  config : a.config = spec.config
  pinned : a.pinned = spec.workdir.isSome
  workdir : a.workdir = spec.workdir.getD (given.getD ".")
  standing : Standing ctx a.actions

variable {spec : AlgorithmSpec} {given : Option String} {a : Algorithm}

theorem keeps_of_build {w w' : World}
    (h : (build ctx spec).run w = (.ok a, w')) : Keeps ctx spec none a := by
  obtain ⟨actions, w₁, hactions, h⟩ := run_bind_ok h
  cases h
  refine ⟨rfl, toSpecs_foldlM hactions, rfl, rfl, rfl, ?_⟩
  refine foldlM_ok (P := fun _ actions _ => Standing ctx actions) ?_ (fun _ h =>
    (List.not_mem_nil h).elim) hactions
  intro _ action _ before v after v' _ hbefore hstep
  obtain ⟨runner, v₁, hbuild, hinsert⟩ := run_bind_ok hstep
  cases hinsert
  exact hbefore.insert _ (Runner.builtIn_of_build (Act.run_within_ok hbuild))

/-- What a request makes of an algorithm still is as the description says,
unless the request gives a working directory. -/
theorem Keeps.makes (h : Keeps ctx spec given a) {request : Request}
    (hrequest : ∀ dir, request ≠ .setWorkdir dir) {j : Item}
    (hmakes : Item.Makes ctx request (.algorithm a) j) :
    ∃ b, j = .algorithm b ∧ Keeps ctx spec given b := by
  cases hmakes with
  | @placed name args _ runner disk hrunner =>
    have hsame := sameSpec_insert hrunner
        (Runner.toSpec_setWorkdir a.workdir runner disk)
    obtain ⟨w, hbuilt⟩ := h.standing _ (Dict.mem_of_get? hrunner)
    refine ⟨_, rfl, h.name, hsame.actions.trans h.actions, h.config, h.pinned,
      h.workdir, ?_⟩
    exact h.standing.insert name (hbuilt.setWorkdir a.workdir disk)
  | rebuilt w =>
    have hactions := (toSpec_rebuild ctx a.actions w).trans h.actions
    exact ⟨_, rfl, h.name, hactions, h.config, h.pinned, h.workdir,
      h.standing.rebuild w⟩
  | moved dir => exact absurd rfl (hrequest dir)

/-- An algorithm that is given a working directory works in it,
unless it has its own. -/
theorem Keeps.adopt (h : Keeps ctx spec given a) (dir : String) :
    ∃ b, (Item.algorithm a).adopt dir = .algorithm b ∧
    Keeps ctx spec (some dir) b := by
  refine ⟨_, rfl, ?_⟩
  cases hown : spec.workdir with
  | some own =>
    have hpinned : a.pinned = true := by rw [h.pinned, hown]; rfl
    rw [if_pos hpinned]
    refine ⟨h.name, h.actions, h.config, h.pinned, ?_, h.standing⟩
    rw [h.workdir, hown]
    rfl
  | none =>
    have hpinned : ¬ a.pinned = true := by
      rw [h.pinned, hown]
      exact Bool.false_ne_true
    rw [if_neg hpinned]
    refine ⟨h.name, h.actions, h.config, h.pinned, ?_, h.standing⟩
    rw [hown]
    rfl

end Algorithm

/-! ## Giving an item a working directory -/

/-- Whether or not the directory can be created, the item adopts it. -/
theorem Calls.setWorkdir_within {w : World} {h : Handle} {i : Item}
    (hfree : w.slots[h.slot]? = some ⟨i, false⟩) (ctx : Context) (depth : Nat)
    (dir : String) :
    ((Calls.within ctx (depth + 1) h (.setWorkdir dir)).run
      w).2.slots[h.slot]? = some ⟨i.adopt dir, false⟩ := by
  have hadopt := Item.run_setWorkdir dir i w.disk
  rcases hset : (i.setWorkdir dir).run w.disk with ⟨⟨j, failure⟩, disk⟩
  have hover := Act.run_overDisk (w := w.setLocked h.slot true) hset
  rw [hset] at hadopt
  have hanswer :
      ((i.answer ctx (Calls.within ctx depth) h (.setWorkdir dir)).run
        (w.setLocked h.slot true)).2 =
      ({ w.setLocked h.slot true with disk }).setItem h.slot (i.adopt dir) := by
    rw [Item.answer, run_bind_of_ok hover, ← hadopt]
    -- the item is put back before it is looked at whether the directory was created
    cases failure <;> rfl
  rw [run_within_of_free hfree]
  dsimp only
  rw [hanswer, World.getElem?_setLocked, if_pos rfl,
    World.getElem?_setItem, if_pos rfl]
  show (((w.setLocked h.slot true).slots[h.slot]?.map _).map _) = _
  rw [World.getElem?_setLocked, if_pos rfl, hfree]
  rfl

/-! ## Histories -/

namespace Algorithm

/-- An algorithm that was built from the description stands behind the handle,
and `given` is the working directory that it was given last. Requests to it may
be made on the way of others, which is what their depth tells; and as long as it
is left alone, anything may happen in the world. -/
inductive Reached (ctx : Context) (spec : AlgorithmSpec) (h : Handle) :
    Option String → World → Prop
  | built {a : Algorithm} {v v' w : World} : (build ctx spec).run v = (.ok a, v') →
      w.slots[h.slot]? = some ⟨.algorithm a, false⟩ → Reached ctx spec h none w
  | moved {given : Option String} {w : World} (depth : Nat) (dir : String) :
      Reached ctx spec h given w →
      Reached ctx spec h (some dir)
        ((Calls.within ctx (depth + 1) h (.setWorkdir dir)).run w).2
  | asked {given : Option String} {w : World} (depth : Nat)
      {request : Request} : (∀ dir, request ≠ .setWorkdir dir) →
      Reached ctx spec h given w →
      Reached ctx spec h given
        ((Calls.within ctx (depth + 1) h request).run w).2
  | meanwhile {given : Option String} {w w' : World} :
      w'.slots[h.slot]? = w.slots[h.slot]? →
      Reached ctx spec h given w → Reached ctx spec h given w'

/-- What a registry adds was given the working directory of the registry. -/
theorem reached_of_add {ctx : Context} {spec : AlgorithmSpec} {r r' : Registry}
    {handle : Handle} {w w' : World}
    (h : (r.addAlgorithm ctx spec).run w = (.ok (handle, r'), w')) :
    Reached ctx spec handle (some r.workdir) w' := by
  obtain ⟨a, v, hbuild, hadd⟩ := run_bind_ok h
  obtain ⟨rfl, hslots, -⟩ := Registry.run_add_ok hadd
  have hadopted : w'.slots[v.slots.length]? =
      some ⟨(Item.algorithm a).adopt r.workdir, false⟩ := by
    rw [hslots, List.getElem?_concat_length]
  -- it stands there as if it had been built there and been given the directory then
  have hbefore : (w'.setItem v.slots.length
      (.algorithm a)).slots[v.slots.length]? = some ⟨.algorithm a, false⟩ := by
    rw [World.getElem?_setItem, if_pos rfl, hadopted]
    rfl
  refine .meanwhile ?_ (.moved 0 r.workdir (.built hbuild hbefore))
  exact hadopted.trans (Calls.setWorkdir_within hbefore ctx 0 r.workdir).symm

/-- After every history the algorithm is free and as the description says. -/
theorem Reached.keeps {ctx : Context} {spec : AlgorithmSpec} {h : Handle}
    {given : Option String} {w : World}
    (hreached : Reached ctx spec h given w) :
    ∃ a, w.slots[h.slot]? = some ⟨.algorithm a, false⟩ ∧
    Keeps ctx spec given a := by
  induction hreached with
  | built hbuild hslot => exact ⟨_, hslot, keeps_of_build hbuild⟩
  | moved depth dir _ ih =>
    obtain ⟨a, hslot, hkeeps⟩ := ih
    obtain ⟨b, hadopt, hb⟩ := hkeeps.adopt dir
    exact ⟨b, by rw [Calls.setWorkdir_within hslot, hadopt], hb⟩
  | @asked given w depth request hrequest _ ih =>
    obtain ⟨a, hslot, hkeeps⟩ := ih
    obtain ⟨j, hj, hmade⟩ := Calls.makes_within hslot ctx depth request
    -- by induction on the steps that the request has made
    have hafter : ∃ b, j = .algorithm b ∧ Keeps ctx spec given b := by
      clear hj
      induction hmade with
      | refl => exact ⟨a, rfl, hkeeps⟩
      | tail _ hstep ih =>
        obtain ⟨b, rfl, hb⟩ := ih
        exact hb.makes hrequest hstep
    obtain ⟨b, rfl, hb⟩ := hafter
    exact ⟨b, hj, hb⟩
  | meanwhile hsame _ ih =>
    obtain ⟨a, hslot, hkeeps⟩ := ih
    exact ⟨a, hsame.trans hslot, hkeeps⟩

end Algorithm

end Playbook
