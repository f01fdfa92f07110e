import Playbook.Proofs.Sequence.Rebuilding

/-!
# Playbook — the leaves that a run reaches

The leaves of a runner are listed in the order in which they stand in it, and
so are those of its description. Whatever a run does and however it ends, it
calls no others. So what the leaves are like when the run begins is what the
ones that are called are like; in particular they work in the directories that
they were given before.

Main results:

* `Runner.each_iff`, `Runner.leaves_toSpec`, `Runner.leaves_placed` — the list
  of leaves, and what is made of a runner.
* `Runner.mem_leaves_of_calls` — a run calls leaves of its runner and no others.
* `Runner.workdir_of_calls` — in a runner that was given a working directory,
  each leaf works in its own or in that one.
-/

namespace Playbook

open Effect

namespace RunnerSpec

/-- The working directory that a description names; a sequence has none. -/
def workdir? : RunnerSpec → Option String
  | module _ _ workdir => workdir
  | script _ _ _ _ workdir => workdir
  | sequence .. => none

mutual
/-- The descriptions of modules and scripts, in the order in which they stand. -/
def leaves : RunnerSpec → List RunnerSpec
  | module name identifier workdir => [module name identifier workdir]
  | script name path shell parallel workdir =>
    [script name path shell parallel workdir]
  | sequence _ actions => leavesAll actions
termination_by structural s => s

def leavesAll : List RunnerSpec → List RunnerSpec
  | [] => []
  | s :: ss => leaves s ++ leavesAll ss
termination_by structural ss => ss
end

end RunnerSpec

/-! ## Leaves -/

namespace Leaf

theorem workdir?_toSpec (l : Leaf) :
    l.toSpec.workdir? = l.pinned := by cases l <;> rfl

theorem leaves_toSpec (l : Leaf) :
    l.toSpec.leaves = [l.toSpec] := by cases l <;> rfl

/-- A leaf that was given a working directory works in the one that its
description names, or else in this one. -/
theorem Fits.workdir_adopt {ctx : Context} {l : Leaf} (h : l.Fits ctx)
    (dir : String) :
    (l.adopt dir).workdir = l.toSpec.workdir?.getD dir := by
  rw [workdir?_toSpec, adopt_eq]
  cases hpinned : l.pinned with
  | none => cases l <;> rfl
  | some own => exact h.workdir own hpinned

end Leaf

namespace Runner

mutual
/-- The leaves of a runner, in the order in which they stand. -/
def leaves : Runner → List Leaf
  | leaf l => [l]
  | sequence _ actions _ => leavesAll actions
termination_by structural r => r

def leavesAll : List Runner → List Leaf
  | [] => []
  | r :: rs => leaves r ++ leavesAll rs
termination_by structural rs => rs
end

mutual
theorem each_iff {P : Leaf → Prop} : (r : Runner) → (r.Each P ↔ ∀ l ∈ r.leaves, P l)
  | .leaf l => ⟨fun h _ hl => List.mem_singleton.mp hl ▸ h, fun h =>
    h l (List.mem_singleton_self l)⟩
  | .sequence _ actions _ => allEach_iff actions

theorem allEach_iff {P : Leaf → Prop} :
    (rs : List Runner) → (AllEach P rs ↔ ∀ l ∈ leavesAll rs, P l)
  | [] => ⟨fun _ _ h => (List.not_mem_nil h).elim, fun _ => trivial⟩
  | r :: rs => by
    rw [AllEach, leavesAll, List.forall_mem_append, each_iff r, allEach_iff rs]
end

mutual
/-- The leaves are described by the leaves of the description. -/
theorem leaves_toSpec : (r : Runner) → r.toSpec.leaves = r.leaves.map Leaf.toSpec
  | .leaf l => Leaf.leaves_toSpec l
  | .sequence _ actions _ => leavesAll_toSpecs actions

theorem leavesAll_toSpecs : (rs : List Runner) →
    RunnerSpec.leavesAll (toSpecs rs) = (leavesAll rs).map Leaf.toSpec
  | [] => rfl
  | r :: rs => by
    rw [toSpecs, RunnerSpec.leavesAll, leavesAll, List.map_append,
      leaves_toSpec r, leavesAll_toSpecs rs]
end

mutual
theorem leaves_placed (dir : String) :
    (r : Runner) → (r.placed dir).leaves = r.leaves.map (Leaf.adopt dir)
  | .leaf _ => rfl
  | .sequence _ actions _ => leavesAll_placedAll dir actions

theorem leavesAll_placedAll (dir : String) : (rs : List Runner) →
    leavesAll (placedAll dir rs) = (leavesAll rs).map (Leaf.adopt dir)
  | [] => rfl
  | r :: rs => by
    rw [placedAll, leavesAll, leavesAll, List.map_append, leaves_placed dir r,
      leavesAll_placedAll dir rs]
end

/-! ## Runs -/

section

variable {ε σ : Type} (leaf : Leaf → Args → ExceptT ε (StateM σ) Value)
  {ls : List Leaf}

/-- A record that named none but these leaves still does. -/
def Names (ls : List Leaf) (s s' : σ × List (Leaf × Args)) : Prop :=
  (∀ call ∈ s.2, call.1 ∈ ls) → ∀ call ∈ s'.2, call.1 ∈ ls

theorem names_chains (σ : Type) (ls : List Leaf) : Chains (Names (σ := σ) ls) where
  refl _ := id
  trans h k := k ∘ h

mutual
theorem names_run : (r : Runner) → (∀ l ∈ r.leaves, l ∈ ls) → (args : Args) →
    Along (Names ls) (run (recorded leaf) r args)
  | .leaf l, hl, args => by
    intro s hs call hcall
    rcases List.mem_append.mp hcall with hbefore | hlast
    · exact hs call hbefore
    · rw [List.mem_singleton.mp hlast]
      exact hl l (List.mem_singleton_self l)
  | .sequence _ actions _, hactions, args =>
    Along.map (names_runActions actions hactions args)

theorem names_runActions : (rs : List Runner) → (∀ l ∈ leavesAll rs, l ∈ ls) →
    (pool : Args) →
    Along (Names ls) (runActions (recorded leaf) rs pool)
  | [], _, pool => Along.pure (names_chains σ ls) pool
  | r :: rs, hleaves, pool => by
    obtain ⟨hr, hrs⟩ := List.forall_mem_append.mp hleaves
    exact Along.bind (names_chains σ ls) (names_run r hr _) fun returned =>
      names_runActions rs hrs _
end

/-- A run calls leaves of its runner and no others. -/
theorem mem_leaves_of_calls (r : Runner) (args : Args) (s : σ) :
    ∀ call ∈ calls leaf r args s, call.1 ∈ r.leaves :=
  names_run leaf r (fun _ => id) args (s, []) fun _ h => (List.not_mem_nil h).elim

/-- A runner was given a working directory. Each leaf that a run of it calls is
one of the description, and works in the directory that its own description
names, or else in the one that was given. -/
theorem workdir_of_calls {ctx : Context} {r : Runner}
    (hr : r.Each (Leaf.Fits ctx)) (dir : String) (args : Args) (s : σ) :
    ∀ call ∈ calls leaf (r.placed dir) args s,
      call.1.toSpec ∈ r.toSpec.leaves ∧
      call.1.workdir = call.1.toSpec.workdir?.getD dir := by
  intro call hcall
  have hmem := mem_leaves_of_calls leaf (r.placed dir) args s call hcall
  rw [leaves_placed] at hmem
  obtain ⟨l, hl, hadopted⟩ := List.mem_map.mp hmem
  rw [← hadopted, Leaf.toSpec_adopt, leaves_toSpec]
  exact ⟨List.mem_map_of_mem hl, ((each_iff r).mp hr l hl).workdir_adopt dir⟩

end

end Runner

end Playbook
