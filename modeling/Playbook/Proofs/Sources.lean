import Playbook.Proofs.World
import Playbook.Runner.Run

/-!
# Playbook — worlds with the same sources

A runner is made from its sources: what the catalog has under identifiers, and
the prototypes. Two worlds have the same sources if reading them gives the same
in both and leaves worlds that have the same sources again (`SameSources`);
reading may start programs, which are asked for their requirements, and these
may do anything.

Main results:

* `SameSources.refl` — every world has the same sources as itself.
* `SameSources.sameFor` — what a single runner is made from (`SameSourcesFor`)
  is the same then, too.
* `sameSourcesFor_native`, `sameSourcesFor_script` — a leaf is made from one
  computation or one prototype.
* `sameSources_of_native` — if all computations are part of the program, the
  catalogs and the prototypes are all that counts.
* `SameReading.sameSources` — otherwise it is enough to have one disk and the
  same computations.
-/

namespace Playbook

open Effect

/-- Asks for the computation under an identifier and for the variables
that it requires. -/
def Catalog.asked (ctx : Context) (identifier : String) :
    Act (Computation × Dict Binding) := do
  let found ← Catalog.load identifier
  let required ← Catalog.required ctx identifier found.computation
  return (found.computation, required)

/-- A module runner takes the computation and its variables from the catalog,
and keeps everything else. -/
theorem ModuleRunner.load_eq (ctx : Context) (r : ModuleRunner) :
    r.load ctx = (fun found =>
      { r with computation := found.1, required := found.2 }) <$>
      Catalog.asked ctx r.identifier := by
  simp only [ModuleRunner.load, Catalog.asked, map_bind, map_pure]

theorem ScriptRunner.load_eq (r : ScriptRunner) :
    r.load = (fun prototype => { r with prototype }) <$> Act.fromDisk
      (Prototype.load r.path) := by
  simp only [ScriptRunner.load, map_eq_pure_bind]

/-- In worlds that correspond the same computations and prototypes are found,
and the worlds that are left correspond. -/
structure SourcesKept (ctx : Context) (S : World → World → Prop) : Prop where
  computations : ∀ {w v}, S w v → ∀ identifier,
    Both Eq S ((Catalog.asked ctx identifier).run w)
      ((Catalog.asked ctx identifier).run v)
  prototypes : ∀ {w v}, S w v → ∀ path,
    Prototype.load path w.disk = Prototype.load path v.disk

/-- The catalog and the prototypes are the same in both worlds, and stay the
same while they are read. -/
def SameSources (ctx : Context) (w v : World) : Prop :=
  ∃ S, SourcesKept ctx S ∧ S w v

theorem SameSources.refl (ctx : Context) (w : World) : SameSources ctx w w :=
  ⟨Eq, ⟨fun h _ => h ▸ .refl rfl, fun h _ => h ▸ rfl⟩, rfl⟩

mutual
/-- What runners of the description are made from is found in worlds that
correspond, and these still correspond then. -/
def KeptFor (ctx : Context) (S : World → World → Prop) : RunnerSpec → Prop
  | .module _ identifier _ => ∀ {w v}, S w v →
    Both Eq S ((Catalog.asked ctx identifier).run w)
      ((Catalog.asked ctx identifier).run v)
  | .script _ path _ _ _ => ∀ {w v}, S w v →
    Prototype.load path w.disk = Prototype.load path v.disk
  | .sequence _ actions => KeptForAll ctx S actions
termination_by structural s => s

def KeptForAll (ctx : Context) (S : World → World → Prop) : List RunnerSpec → Prop
  | [] => True
  | s :: ss => KeptFor ctx S s ∧ KeptForAll ctx S ss
termination_by structural ss => ss
end

mutual
theorem SourcesKept.keptFor {ctx : Context} {S : World → World → Prop}
    (hS : SourcesKept ctx S) :
    (s : RunnerSpec) → KeptFor ctx S s
  | .module _ identifier _ => fun h => hS.computations h identifier
  | .script _ path _ _ _ => fun h => hS.prototypes h path
  | .sequence _ actions => hS.keptForAll actions

theorem SourcesKept.keptForAll {ctx : Context} {S : World → World → Prop}
    (hS : SourcesKept ctx S) :
    (ss : List RunnerSpec) → KeptForAll ctx S ss
  | [] => trivial
  | s :: ss => ⟨hS.keptFor s, hS.keptForAll ss⟩
end

/-- What runners of the description are made from is the same in both worlds,
and stays the same while it is read. -/
def SameSourcesFor (ctx : Context) (s : RunnerSpec) (w v : World) : Prop :=
  ∃ S, KeptFor ctx S s ∧ S w v

/-- Worlds with the same sources have the same ones for every description. -/
theorem SameSources.sameFor {ctx : Context} {w v : World}
    (h : SameSources ctx w v) (s : RunnerSpec) :
    SameSourcesFor ctx s w v := by
  obtain ⟨S, hS, hstate⟩ := h
  exact ⟨S, hS.keptFor s, hstate⟩

/-- The computation under an identifier, and nothing else that the
catalog knows of it. -/
def World.known (w : World) (identifier : String) :
    Option Computation := (w.catalog.get? identifier).map (·.computation)

namespace Catalog

variable {ctx : Context} {S : World → World → Prop}
  (hjournal : ∀ {w v : World}, S w v →
    ∀ entry entry', S { w with journal := entry } { v with journal := entry' })

include hjournal

/-- Where the same answer is given to the question for requirements, the same
variables are required. -/
theorem both_required {w v : World} {c : Computation}
    (h : Both Eq S ((requirements ctx c).run w) ((requirements ctx c).run v))
    (identifier : String) :
    Both Eq S ((required ctx identifier c).run w)
      ((required ctx identifier c).run v) := by
  refine h.bind fun answer answer' w v hanswer hstate => ?_
  subst hanswer
  cases answer with
  | none => exact .ok rfl (hjournal hstate _ _)
  | some tokens => exact .ok rfl hstate

/-- A computation that is part of the program is found and asked without
anything else being read. -/
theorem both_asked_of_native {w v : World} {identifier : String}
    {requirements : Option (List String)} {body : Site → Args → Program}
    (hw : w.known identifier = some (.native requirements body))
    (hv : v.known identifier = some (.native requirements body)) (h : S w v) :
    Both Eq S ((asked ctx identifier).run w) ((asked ctx identifier).run v) := by
  obtain ⟨found, hfound, hnative⟩ := Option.map_eq_some_iff.mp hw
  obtain ⟨found', hfound', hnative'⟩ := Option.map_eq_some_iff.mp hv
  have hload : (load identifier).run w = (.ok found, w) := by
    unfold load
    dsimp only [ExceptT.run]
    rw [hfound]
  have hload' : (load identifier).run v = (.ok found', v) := by
    unfold load
    dsimp only [ExceptT.run]
    rw [hfound']
  unfold asked
  rw [run_bind_of_ok hload, run_bind_of_ok hload', hnative, hnative']
  refine (both_required hjournal (.ok rfl h) identifier).bind
    fun _ _ _ _ hresult hstate => ?_
  exact .ok (congrArg _ hresult) hstate

end Catalog

/-- A module runner is made from nothing but its computation, if that is
part of the program. -/
theorem sameSourcesFor_native (ctx : Context) {w v : World}
    {identifier : String} {requirements : Option (List String)}
    {body : Site → Args → Program}
    (hw : w.known identifier = some (.native requirements body))
    (hv : v.known identifier = some (.native requirements body)) (name : String)
    (workdir : Option String) :
    SameSourcesFor ctx (.module name identifier workdir) w v := by
  let S : World → World → Prop := fun w' v' =>
    w'.known identifier = some (.native requirements body) ∧
    v'.known identifier = some (.native requirements body)
  refine ⟨S, ?_, hw, hv⟩
  intro w' v' h
  exact Catalog.both_asked_of_native (S := S) (fun h _ _ => h) h.1 h.2 h

/-- A script runner is made from nothing but its prototype. -/
theorem sameSourcesFor_script (ctx : Context) {w v : World} {path : String}
    (h : Prototype.load path w.disk = Prototype.load path v.disk)
    (name shell : String) (parallel : Bool) (workdir : Option String) :
    SameSourcesFor ctx (.script name path shell parallel workdir) w v :=
  ⟨fun w' v' => Prototype.load path w'.disk = Prototype.load path v'.disk,
    fun h => h, h⟩

/-- Two worlds have the same sources if in both the same computations of the
program are known, no other identifier is the path of a file, and the prototypes
are the same. Nothing else about the disks matters. -/
theorem sameSources_of_native (ctx : Context) {w v : World}
    (hcatalog : ∀ identifier, (∃ requirements body,
      w.known identifier = some (.native requirements body) ∧
        v.known identifier = some (.native requirements body)) ∨
      w.known identifier = none ∧ v.known identifier = none ∧
        w.disk.isFile identifier = false ∧
        v.disk.isFile identifier = false)
    (hprototypes : ∀ path, Prototype.load path w.disk =
      Prototype.load path v.disk) : SameSources ctx w v := by
  let S : World → World → Prop := fun w' v' =>
    (w'.disk, w'.catalog) = (w.disk, w.catalog) ∧
    (v'.disk, v'.catalog) = (v.disk, v.catalog)
  refine ⟨S, ⟨fun {w' v'} h identifier => ?_, fun {w' v'} h path => ?_⟩, rfl, rfl⟩
  · obtain ⟨hw, hv⟩ := h
    obtain ⟨hwdisk, hwcatalog⟩ := Prod.mk.inj hw
    obtain ⟨hvdisk, hvcatalog⟩ := Prod.mk.inj hv
    have hwknown : w'.known identifier = w.known identifier := by
      unfold World.known
      rw [hwcatalog]
    have hvknown : v'.known identifier = v.known identifier := by
      unfold World.known
      rw [hvcatalog]
    rcases hcatalog identifier with ⟨requirements, body, hwn, hvn⟩ |
      ⟨hwn, hvn, hwfile, hvfile⟩
    · exact Catalog.both_asked_of_native (S := S) (fun h _ _ => h)
        (hwknown.trans hwn) (hvknown.trans hvn) ⟨hw, hv⟩
    · -- nothing is found in either world
      have hnone : ∀ u : World, u.known identifier = none →
          u.disk.isFile identifier = false →
          (Catalog.load identifier).run u =
          (.error (Cause.configuration identifier .noComputation), u) := by
        intro u hknown hfile
        unfold Catalog.load
        dsimp only [ExceptT.run]
        rw [Option.map_eq_none_iff.mp hknown]
        dsimp only
        rw [hfile]
        rfl
      unfold Catalog.asked
      rw [run_bind_of_error (hnone w' (hwknown.trans hwn) (hwdisk ▸ hwfile)),
        run_bind_of_error (hnone v' (hvknown.trans hvn) (hvdisk ▸ hvfile))]
      exact .error
  · obtain ⟨hw, hv⟩ := h
    rw [(Prod.mk.inj hw).1, (Prod.mk.inj hv).1, hprototypes]

/-- The worlds have one disk, and the catalogs know the same computations,
whether programs or not. -/
structure SameReading (w v : World) : Prop where
  disk : w.disk = v.disk
  jobs : w.jobs = v.jobs
  known : ∀ identifier, w.known identifier = v.known identifier

theorem SameReading.load {w v : World} (h : SameReading w v) (identifier : String) :
    Both (fun found found' => found.computation = found'.computation)
      SameReading ((Catalog.load identifier).run w)
        ((Catalog.load identifier).run v) := by
  have hknown := h.known identifier
  unfold World.known at hknown
  unfold Catalog.load
  dsimp only [ExceptT.run]
  cases hw : w.catalog.get? identifier with
  | some found =>
    cases hv : v.catalog.get? identifier with
    | some found' =>
      rw [hw, hv] at hknown
      exact .ok (Option.some.inj hknown) h
    | none =>
      rw [hw, hv] at hknown
      cases hknown
  | none =>
    cases hv : v.catalog.get? identifier with
    | some found' =>
      rw [hw, hv] at hknown
      cases hknown
    | none =>
      dsimp only
      rw [h.disk]
      split
      · refine .ok rfl ⟨h.disk, h.jobs, fun other => ?_⟩
        unfold World.known World.register
        dsimp only
        rw [Dict.get?_insert, Dict.get?_insert]
        split
        · rfl
        · exact h.known other
      · exact .error

/-- What a program is asked, it is asked on the same disk and as the same job. -/
theorem SameReading.requirements {w v : World} (h : SameReading w v)
    (ctx : Context) (c : Computation) :
    Both Eq SameReading ((Catalog.requirements ctx c).run w)
      ((Catalog.requirements ctx c).run v) := by
  cases c with
  | native requirements body => exact .ok rfl h
  | external program =>
    have hlaunch : Both Eq SameReading
        ((Act.launch ctx { program, arguments := ["requires"] }).run w)
          ((Act.launch ctx { program, arguments := ["requires"] }).run v) := by
      unfold Act.launch
      dsimp only [ExceptT.run]
      rw [h.disk, h.jobs]
      cases ctx.host.start v.jobs { program, arguments := ["requires"] } v.disk with
      | error kind => exact .ok rfl h
      | ok outcome => exact .ok rfl ⟨rfl, rfl, h.known⟩
    refine hlaunch.bind fun launched launched' w v hresult hstate => ?_
    subst hresult
    rcases launched with kind | ⟨job, outcome⟩
    · exact .ok rfl ⟨hstate.disk, hstate.jobs, hstate.known⟩
    · exact .ok rfl ⟨hstate.disk, hstate.jobs, hstate.known⟩

/-- Two worlds have the same sources if they have one disk, have started as many
jobs, and know the same computations. -/
theorem SameReading.sameSources {w v : World} (h : SameReading w v)
    (ctx : Context) : SameSources ctx w v := by
  refine ⟨SameReading, ⟨fun {w v} h identifier => ?_,
    fun {w v} h path => by rw [h.disk]⟩, h⟩
  refine (h.load identifier).bind fun found found' w v hfound hstate => ?_
  rw [hfound]
  refine (Catalog.both_required (fun h _ _ => ⟨h.disk, h.jobs, h.known⟩)
    (hstate.requirements ctx found'.computation) identifier).bind
      fun _ _ _ _ hresult hstate => ?_
  exact .ok (congrArg _ hresult) hstate

end Playbook
