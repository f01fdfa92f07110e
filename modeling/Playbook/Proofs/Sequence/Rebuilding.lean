import Playbook.Proofs.Answer
import Playbook.Proofs.Sequence.Visiting
import Playbook.Proofs.Sources

/-!
# Playbook — reloading is rebuilding

A reload asks each leaf for its sources again and keeps everything else that the
leaf has, while a build makes each leaf from its description. Both come to the
same, since what a leaf keeps is what its description says, up to the working
directory, and this is the same again once both are given one. The invariant
behind this is that leaves fit their descriptions (`Leaf.Fits`): no working
directory, reload or run makes a leaf forget what was described.

Main results:

* `Runner.both_reload_build` — by induction over the runner, a reload and a
  build end alike.
* `Runner.described_afterUses` — no history makes a runner drift
  from its description.
* `Runner.interchangeable_of_uses` — after any history, reloading is rebuilding.
* `Runner.BuiltIn.interchangeable` — a runner is as good as another one that is
  built while its sources are the same.
* `Runner.differ_where_creation_fails` — two such runners part where a working
  directory cannot be created.
-/

namespace Playbook

open Effect

/-! ## Leaves that fit their descriptions -/

namespace Leaf

/-- The leaf has what its description settles: the working directory that it
names, and the program that is launched. -/
structure Fits (ctx : Context) (l : Leaf) : Prop where
  workdir : ∀ dir, l.pinned = some dir → l.workdir = dir
  launcher : ∀ r, l = script r →
    r.launcher = if r.shell =
    RunnerSpec.defaultShell then ctx.settings.defaultShell else r.shell

variable {ctx : Context} {l : Leaf}

theorem Fits.adopt (h : l.Fits ctx) (dir : String) : (l.adopt dir).Fits ctx := by
  rw [adopt_eq]
  split
  · exact h
  · next hnone =>
    refine ⟨fun own hown => ?_, fun r hr => ?_⟩
    · rw [pinned_moved] at hown
      exact absurd (congrArg Option.isSome hown) hnone
    · cases l with
      | module m => cases hr
      | script m =>
        cases hr
        exact h.launcher m rfl

end Leaf

namespace Runner

/-! ## Reloading and building -/

theorem settle_reload_leaf (ctx : Context) (l : Leaf) (w : World) :
    settle ((l.reload ctx).run w) = (l.load ctx).run w := by
  unfold Leaf.reload
  rw [StateT.run_bind]
  show _ = StateT.run (l.load ctx).run w
  rcases StateT.run (l.load ctx).run w with ⟨failure | found, v⟩ <;> rfl

theorem settle_reload (ctx : Context) (r : Runner) (w : World) :
    settle ((r.reload ctx).run w) = (visit (Leaf.load ctx) true r).run w :=
  settle_changeLeaves (settle_reload_leaf ctx) r w

section

variable {ctx : Context} {S : World → World → Prop}

/-- What a module runner takes from the catalog at a reload is what one that is
built takes from it. -/
theorem both_load_buildModule {r : ModuleRunner}
    (hS : KeptFor ctx S (Leaf.module r).toSpec)
    (hfits : (Leaf.module r).Fits ctx) {w v : World} (hstate : S w v) :
    Both (fun a b => ∀ dir, (Leaf.module a).adopt dir =
      (Leaf.module b).adopt dir) S ((r.load ctx).run w)
        ((ModuleRunner.build ctx r.name r.identifier r.pinned).run v) := by
  refine Both.within ?_ _
  rw [ModuleRunner.load_eq, ModuleRunner.load_eq]
  refine Both.map (hS hstate) ?_
  rintro found _ rfl dir
  obtain ⟨name, identifier, workdir, pinned, required, computation⟩ := r
  -- both adopt the working directory, or both have the one that the
  -- description names
  cases pinned with
  | none => rfl
  | some own =>
    obtain rfl : workdir = own := hfits.workdir own rfl
    rfl

theorem both_load_buildScript {r : ScriptRunner}
    (hS : KeptFor ctx S (Leaf.script r).toSpec)
    (hfits : (Leaf.script r).Fits ctx) {w v : World} (hstate : S w v) :
    Both (fun a b => ∀ dir, (Leaf.script a).adopt dir =
      (Leaf.script b).adopt dir) S (r.load.run w)
        ((ScriptRunner.build ctx r.name r.path r.shell r.parallel
          r.pinned).run v) := by
  refine Both.within ?_ _
  rw [ScriptRunner.load_eq, ScriptRunner.load_eq]
  have hprototype : Both Eq S ((Act.fromDisk (Prototype.load r.path)).run w)
      ((Act.fromDisk (Prototype.load r.path)).run v) := by
    show Both Eq S (Prototype.load r.path w.disk, w)
      (Prototype.load r.path v.disk, v)
    rw [hS hstate]
    cases Prototype.load r.path v.disk with
    | error failure => exact .error
    | ok prototype => exact .ok rfl hstate
  refine hprototype.map ?_
  rintro prototype _ rfl dir
  obtain ⟨name, path, shell, launcher, parallel, workdir, pinned, old⟩ := r
  obtain rfl : launcher = if shell =
      RunnerSpec.defaultShell then ctx.settings.defaultShell else shell :=
    hfits.launcher _ rfl
  cases pinned with
  | none => rfl
  | some own =>
    obtain rfl : workdir = own := hfits.workdir own rfl
    rfl

mutual
/-- A reload and a build of the same description end alike, with runners that
are the same in every working directory. -/
theorem both_reload_build : (r : Runner) → {w v : World} →
    KeptFor ctx S r.toSpec → r.Each (Leaf.Fits ctx) → S w v →
    Both (fun a b => ∀ dir, a.placed dir = b.placed dir) S
      ((visit (Leaf.load ctx) true r).run w) ((build ctx r.toSpec).run v)
  | .leaf (.module r), _, _, hS, hfits, hstate => by
    have hload : visit (Leaf.load ctx) true (leaf (.module r)) =
        (leaf ∘ Leaf.module) <$> r.load ctx := by
      rw [visit, Leaf.load, Functor.map_map]
      rfl
    rw [hload]
    exact (both_load_buildModule hS hfits hstate).map fun a b hsame dir =>
      congrArg leaf (hsame dir)
  | .leaf (.script r), _, _, hS, hfits, hstate => by
    have hload : visit (Leaf.load ctx) true (leaf (.script r)) =
        (leaf ∘ Leaf.script) <$> r.load := by
      rw [visit, Leaf.load, Functor.map_map]
      rfl
    rw [hload]
    exact (both_load_buildScript hS hfits hstate).map fun a b hsame dir =>
      congrArg leaf (hsame dir)
  | .sequence name actions required, _, _, hS, hfits, hstate => by
    refine Both.within ((both_reloadAll_buildAll actions hS hfits hstate).map
      fun as bs hsame dir => ?_) _
    have hunion : union as = union bs := by
      -- what runners require does not depend on the working directory
      refine union_congr ?_
      rw [← map_required_placedAll dir as, hsame dir, map_required_placedAll]
    show sequence name (placedAll dir as) (union as) =
      sequence name (placedAll dir bs) (union bs)
    rw [hsame dir, hunion]

theorem both_reloadAll_buildAll : (rs : List Runner) → {w v : World} →
    KeptForAll ctx S (toSpecs rs) →
    AllEach (Leaf.Fits ctx) rs → S w v →
    Both (fun as bs => ∀ dir, placedAll dir as = placedAll dir bs) S
      ((visitAll (Leaf.load ctx) true rs).run w)
        ((buildAll ctx (toSpecs rs)).run v)
  | [], _, _, _, _, hstate => .ok (fun _ => rfl) hstate
  | r :: rs, _, _, ⟨hfirst, hothers⟩, ⟨hr, hrs⟩, hstate => by
    refine (both_reload_build r hfirst hr hstate).bind
      fun a b w v hfirst hstate => ?_
    refine (both_reloadAll_buildAll rs hothers hrs hstate).bind
      fun as bs w v hrest hstate => ?_
    exact .ok (fun dir => congrArg₂ List.cons (hfirst dir) (hrest dir)) hstate
end

end

/-! ## Histories -/

section

variable {ctx : Context}

/-- What a leaf reads from its sources changes neither its description nor what
the description settles. -/
theorem described_load {l l' : Leaf} {w w' : World}
    (h : (l.load ctx).run w = (.ok l', w')) :
    l'.toSpec = l.toSpec ∧ (l.Fits ctx → l'.Fits ctx) := by
  cases l with
  | module r =>
    obtain ⟨m, hm, rfl⟩ := run_map_ok h
    rw [ModuleRunner.load_eq] at hm
    obtain ⟨found, -, rfl⟩ := run_map_ok hm
    exact ⟨rfl, fun hfits => ⟨hfits.workdir, fun _ hscript => by cases hscript⟩⟩
  | script r =>
    obtain ⟨m, hm, rfl⟩ := run_map_ok h
    rw [ScriptRunner.load_eq] at hm
    obtain ⟨prototype, -, rfl⟩ := run_map_ok hm
    refine ⟨rfl, fun hfits => ⟨hfits.workdir, fun _ hscript => ?_⟩⟩
    cases hscript
    exact hfits.launcher r rfl

theorem described_reload_leaf (l : Leaf) (w : World) :
    ((l.reload ctx).run w).1.1.toSpec = l.toSpec ∧
    (l.Fits ctx → ((l.reload ctx).run w).1.1.Fits ctx) := by
  have hload := settle_reload_leaf ctx l w
  rcases hreload : (l.reload ctx).run w with ⟨⟨l', _ | failure⟩, w'⟩
  · rw [hreload] at hload
    exact described_load hload.symm
  · obtain rfl := eq_of_reload_leaf hreload
    exact ⟨rfl, id⟩

theorem fits_placeLeaf (dir : String) (l : Leaf) (disk : Disk) (h : l.Fits ctx) :
    ((placeLeaf dir l).run disk).1.1.Fits ctx := by
  unfold placeLeaf
  dsimp only [StateT.run]
  rcases disk.makeDirectories (l.adopt dir).workdir with ⟨_ | _, disk'⟩ <;>
    exact h.adopt dir

theorem fits_buildModule {name identifier : String} {pinned : Option String}
    {w w' : World} {r : ModuleRunner}
    (h : (ModuleRunner.build ctx name identifier pinned).run w = (.ok r, w')) :
    (Leaf.module r).Fits ctx := by
  have hload := Act.run_within_ok h
  rw [ModuleRunner.load_eq] at hload
  obtain ⟨found, -, rfl⟩ := run_map_ok hload
  refine ⟨fun dir hdir => ?_, fun _ hscript => by cases hscript⟩
  obtain rfl : pinned = some dir := hdir
  rfl

theorem fits_buildScript {name path shell : String} {parallel : Bool}
    {pinned : Option String} {w w' : World} {r : ScriptRunner}
    (h : (ScriptRunner.build ctx name path shell parallel pinned).run w =
      (.ok r, w')) :
    (Leaf.script r).Fits ctx := by
  have hload := Act.run_within_ok h
  rw [ScriptRunner.load_eq] at hload
  obtain ⟨prototype, -, rfl⟩ := run_map_ok hload
  refine ⟨fun dir hdir => ?_, fun _ hscript => ?_⟩
  · obtain rfl : pinned = some dir := hdir
    rfl
  · cases hscript
    rfl

mutual
/-- The leaves of a runner that was built fit their descriptions. -/
theorem each_of_build : (s : RunnerSpec) → {w w' : World} → {r : Runner} →
    (build ctx s).run w = (.ok r, w') →
    r.Each (Leaf.Fits ctx)
  | .module .., _, _, _, h => by
    obtain ⟨m, hm, rfl⟩ := run_map_ok h
    exact fits_buildModule hm
  | .script .., _, _, _, h => by
    obtain ⟨m, hm, rfl⟩ := run_map_ok h
    exact fits_buildScript hm
  | .sequence _ actions, _, _, _, h => by
    obtain ⟨rs, hrs, rfl⟩ := run_map_ok (Act.run_within_ok h)
    exact allEach_of_buildAll actions hrs

theorem allEach_of_buildAll : (ss : List RunnerSpec) → {w w' : World} →
    {rs : List Runner} →
    (buildAll ctx ss).run w = (.ok rs, w') → AllEach (Leaf.Fits ctx) rs
  | [], _, _, _, h => by
    cases h
    trivial
  | s :: ss, _, _, _, h => by
    obtain ⟨r, w₁, hr, h⟩ := run_bind_ok h
    obtain ⟨rs, w₂, hrs, h⟩ := run_bind_ok h
    cases h
    exact ⟨each_of_build s hr, allEach_of_buildAll ss hrs⟩
end

end

/-- What is done with a runner, one thing after the other. -/
inductive Use where
  | setWorkdir (dir : String)
  | reload
  | run (calls : Calls) (args : Args)
  /-- Whatever else happens in the world. -/
  | meanwhile (w : World)

/-- The runner and the world after a use. It may have failed. -/
def Use.step (ctx : Context) (use : Use) (r : Runner) (w : World) :
    Runner × World :=
  match use with
  | setWorkdir dir =>
    let ((r, _), disk) := (r.setWorkdir dir).run w.disk
    (r, { w with disk })
  | reload =>
    let ((r, _), w) := (r.reload ctx).run w
    (r, w)
  | run calls args => (r, ((r.run (Leaf.run ctx calls) args).run w).2)
  | meanwhile w => (r, w)

/-- The runner and the world after a history of uses. -/
def afterUses (ctx : Context) (uses : List Use) (r : Runner) (w : World) :
    Runner × World :=
  uses.foldl (fun (r, w) use => use.step ctx r w) (r, w)

/-- The runner has this description, and its leaves fit it. -/
structure Described (ctx : Context) (spec : RunnerSpec) (r : Runner) : Prop where
  toSpec : r.toSpec = spec
  fits : r.Each (Leaf.Fits ctx)

variable {ctx : Context} {spec : RunnerSpec}

/-- No use of a runner changes its description. -/
theorem Described.step {r : Runner} (h : Described ctx spec r)
    (use : Use) (w : World) :
    Described ctx spec (use.step ctx r w).1 := by
  cases use with
  | setWorkdir dir =>
    exact ⟨(toSpec_setWorkdir dir r w.disk).trans h.toSpec,
      each_changeLeaves (fits_placeLeaf dir) false r w.disk h.fits⟩
  | reload =>
    -- so even where the reload failed at some leaf
    refine ⟨?_, each_changeLeaves (fun l s =>
      (described_reload_leaf l s).2) true r w h.fits⟩
    exact (toSpec_changeLeaves (fun l s => (described_reload_leaf l s).1) true r
      w).trans h.toSpec
  | run calls args => exact h
  | meanwhile w => exact h

theorem described_afterUses (uses : List Use) {r : Runner}
    (h : Described ctx spec r) (w : World) :
    Described ctx spec (afterUses ctx uses r w).1 := by
  induction uses generalizing r w with
  | nil => exact h
  | cons use uses ih => exact ih (h.step use w) (use.step ctx r w).2

/-! ## Interchangeable runners -/

/-- The runners report the same, can be given the same working directories, and
run alike in each of them. -/
structure Interchangeable (ctx : Context) (r b : Runner) : Prop where
  toSpec : r.toSpec = b.toSpec
  reports : r.reports = b.reports
  setWorkdir : ∀ dir disk, ((r.setWorkdir dir).run disk).1.2 =
    ((b.setWorkdir dir).run disk).1.2 ∧
    ((r.setWorkdir dir).run disk).2 = ((b.setWorkdir dir).run disk).2
  run : ∀ dir disk disk' r' b' d d', (r.setWorkdir dir).run disk = ((r', none), d) →
    (b.setWorkdir dir).run disk' = ((b', none), d') →
      ∀ calls args w, (r'.run (Leaf.run ctx calls) args).run w =
      (b'.run (Leaf.run ctx calls) args).run w

/-- Runners that are the same in every working directory are interchangeable. -/
theorem interchangeable_of_placed {r b : Runner} (hspec : r.toSpec = b.toSpec)
    (h : ∀ dir, r.placed dir = b.placed dir) :
    Interchangeable ctx r b := by
  have hvisit : ∀ dir, visit (placing dir) false r =
      visit (placing dir) false b := fun dir => by
    rw [← visit_placed dir r, h dir, visit_placed]
  refine ⟨hspec, ?_, fun dir disk => ?_,
    fun dir disk disk' r' b' d d' hr hb calls args w => ?_⟩
  · rw [← reports_placed "." r, h, reports_placed]
  · refine same_of_settle ?_
    rw [settle_setWorkdir, settle_setWorkdir, hvisit]
  · rw [eq_placed_of_setWorkdir hr, eq_placed_of_setWorkdir hb, h]

theorem Interchangeable.refl (r : Runner) :
    Interchangeable ctx r r := interchangeable_of_placed rfl fun _ => rfl

/-- **Reloading is rebuilding.** Whatever was done with a runner that was built,
it still has its description. In worlds with the same sources a reload of it
ends well exactly if building the description does, and then the runner that was
reloaded and the one that was built report the same variables in the same order
at every node, and the same array variables. They can be given the same working
directories, and in each of them they run alike. -/
theorem interchangeable_of_uses {r : Runner} {w₀ w : World}
    (hbuilt : (build ctx spec).run w₀ = (.ok r, w)) (uses : List Use) :
    let used := (afterUses ctx uses r w).1
    used.toSpec = spec ∧ ∀ v v', SameSources ctx v v' →
      (((used.reload ctx).run v).1.2 = none ↔
        ((build ctx spec).run v').1.isOk = true) ∧
      ∀ reloaded built v₁ v₂, (used.reload ctx).run v = ((reloaded, none), v₁) →
        (build ctx spec).run v' = (.ok built, v₂) →
        Interchangeable ctx reloaded built := by
  intro used
  have hused : Described ctx spec used :=
    described_afterUses uses ⟨toSpec_of_build spec hbuilt,
      each_of_build spec hbuilt⟩ w
  refine ⟨hused.toSpec, fun v v' ⟨S, hS, hstate⟩ => ?_⟩
  have hboth := both_reload_build used (hS.keptFor _) hused.fits hstate
  rw [← settle_reload, hused.toSpec] at hboth
  refine ⟨(isOk_settle _).symm.trans hboth.isOk_iff,
    fun reloaded built v₁ v₂ hreload hbuild => ?_⟩
  have hspec : reloaded.toSpec = built.toSpec := by
    have hreloaded := (hused.step .reload v).toSpec
    unfold Use.step at hreloaded
    rw [hreload] at hreloaded
    exact hreloaded.trans (toSpec_of_build spec hbuild).symm
  rw [settle_eq_ok.mpr hreload, hbuild] at hboth
  cases hboth with
  | ok hsame _ => exact interchangeable_of_placed hspec hsame

/-- The pair can be reloaded after a reload that failed, and is then
as good as built. -/
theorem pair_interchangeable :
    ∃ r w, (build ScriptRunner.touching pairSpec).run pairWorld = (.ok r, w) ∧
      let used :=
        (afterUses ScriptRunner.touching
          [.setWorkdir "elsewhere", .meanwhile changedWorld, .reload] r w).1
      used.toSpec = pairSpec ∧ ∃ reloaded v,
        (used.reload ScriptRunner.touching).run pairWorld =
        ((reloaded, none), v) ∧
        Interchangeable ScriptRunner.touching reloaded r := by
  obtain ⟨r, w, hbuilt, -⟩ := exists_stale_pair
  obtain ⟨hspec, hsources⟩ :=
    interchangeable_of_uses hbuilt [.setWorkdir "elsewhere",
      .meanwhile changedWorld, .reload]
  obtain ⟨hboth, hreloaded⟩ := hsources pairWorld pairWorld (.refl _ _)
  have hnone := hboth.mpr (by rw [hbuilt]; rfl)
  refine ⟨r, w, hbuilt, hspec, _, _, Prod.ext (Prod.ext rfl hnone) rfl, ?_⟩
  exact hreloaded _ _ _ _ (Prod.ext (Prod.ext rfl hnone) rfl) hbuilt

/-! ## Runners that are as good as built -/

/-- In every working directory the runner is what was built from its description
in the world. -/
structure BuiltIn (ctx : Context) (w : World) (r : Runner) : Prop where
  fits : r.Each (Leaf.Fits ctx)
  built : ∃ r₀ w', (build ctx r.toSpec).run w = (.ok r₀, w') ∧
    ∀ dir, r.placed dir = r₀.placed dir

theorem builtIn_of_build {r : Runner} {w w' : World}
    (h : (build ctx spec).run w = (.ok r, w')) : BuiltIn ctx w r := by
  refine ⟨each_of_build spec h, r, w', ?_, fun _ => rfl⟩
  rw [toSpec_of_build spec h]
  exact h

/-- A working directory does not make it less so. -/
theorem BuiltIn.setWorkdir {r : Runner} {w : World} (h : BuiltIn ctx w r)
    (dir : String) (disk : Disk) :
    BuiltIn ctx w ((r.setWorkdir dir).run disk).1.1 := by
  obtain ⟨r₀, w', hbuilt, hplaced⟩ := h.built
  refine ⟨each_changeLeaves (fits_placeLeaf dir) false r disk h.fits, r₀, w',
    ?_, fun other => ?_⟩
  · rw [toSpec_setWorkdir]
    exact hbuilt
  · rw [placed_setWorkdir, hplaced]

/-- What is built while the sources of a runner are the same can be
used in its place. -/
theorem BuiltIn.interchangeable {r b : Runner} {w v v' : World}
    (h : BuiltIn ctx w r) (hsources : SameSourcesFor ctx r.toSpec w v)
    (hb : (build ctx r.toSpec).run v = (.ok b, v')) :
    Interchangeable ctx r b := by
  obtain ⟨r₀, w', hr₀, hplaced⟩ := h.built
  obtain ⟨S, hS, hstate⟩ := hsources
  obtain ⟨E, hE, hsame⟩ := (SameSources.refl ctx w).sameFor r.toSpec
  -- both were built as a reload in the first world would have made the runner
  have hfirst := both_reload_build r hE h.fits hsame
  have hsecond := both_reload_build r hS h.fits hstate
  rw [hr₀] at hfirst
  rw [hb] at hsecond
  generalize (visit (Leaf.load ctx) true r).run w = reloaded at hfirst hsecond
  cases hfirst with
  | ok hr _ =>
    cases hsecond with
    | ok hrb _ =>
      refine interchangeable_of_placed (toSpec_of_build _ hb).symm fun dir => ?_
      rw [hplaced, ← hr, hrb]

/-! ## Where a working directory cannot be created -/

/-- A computation that tells its working directory, twice in a row. -/
def tellingSpec : RunnerSpec :=
  .sequence "all" [.module "a" "m" none, .module "b" "m" none]

/-- A world with the computation, and a file `f`. -/
def tellingWorld : World where
  disk := { entries := [(["f"], .file (.text "") false)] }
  catalog :=
    [("m", ⟨0, .native (some []) fun site _ =>
      .done (.ofMap [("workdir", .ofText site.workdir)])⟩)]
  instances := 1

/-- The working directory that a run tells. -/
def told (run : Except Failure Value × World) : Option String :=
  run.1.toOption.bind fun value =>
    (value.mapping?.bind (Dict.get? · "workdir")).map Value.displayText

/-- Below the file `f` no working directory can be created. After this has been
tried, a runner that was reloaded and one that was built still have the working
directories from before behind the leaf that failed, and these differ. -/
theorem differ_where_creation_fails :
    ∃ r w, (build ScriptRunner.touching tellingSpec).run tellingWorld = (.ok r, w) ∧
      let used := (afterUses ScriptRunner.touching [.setWorkdir "wd"] r w).1
      let (reloaded, failure) :=
        ((used.reload ScriptRunner.touching).run tellingWorld).1
      let tried : Runner → Runner × Option Failure :=
        fun r => ((r.setWorkdir "f/x").run tellingWorld.disk).1
      let started : Runner → Except Failure Value × World := fun r =>
        (r.run (Leaf.run ScriptRunner.touching
          (Calls.all ScriptRunner.touching)) []).run tellingWorld
      failure = none ∧ (tried r).2.isSome ∧ (tried reloaded).2 = (tried r).2 ∧
        told (started (tried reloaded).1) = some "wd" ∧
        told (started (tried r).1) = some "." ∧
        started (tried reloaded).1 ≠ started (tried r).1 := by
  obtain ⟨r, w, hbuilt, hcheck⟩ :=
    exists_ok_of_check
      ((build ScriptRunner.touching tellingSpec).run tellingWorld)
    (fun r w =>
      let used := (afterUses ScriptRunner.touching [.setWorkdir "wd"] r w).1
      let (reloaded, failure) :=
        ((used.reload ScriptRunner.touching).run tellingWorld).1
      let tried : Runner → Runner × Option Failure :=
        fun r => ((r.setWorkdir "f/x").run tellingWorld.disk).1
      let started : Runner → Except Failure Value × World := fun r =>
        (r.run (Leaf.run ScriptRunner.touching
          (Calls.all ScriptRunner.touching)) []).run tellingWorld
      failure = none ∧ (tried r).2.isSome ∧ (tried reloaded).2 = (tried r).2 ∧
        told (started (tried reloaded).1) = some "wd" ∧
        told (started (tried r).1) = some ".") (by decide +kernel)
  obtain ⟨hreload, hfails, hsame, hwd, hdot⟩ := of_decide_eq_true hcheck
  refine ⟨r, w, hbuilt, hreload, hfails, hsame, hwd, hdot, fun heq => ?_⟩
  rw [heq, hdot] at hwd
  exact absurd hwd (by decide)

end Runner

end Playbook