import Playbook.Proofs.Congruence

/-!
# Playbook — what runners do besides their requests

A script is filled, written and waited for without any program being touched, and
the items among its arguments are asked for nothing but their exports: an aside
relation holds over all of this, if it holds over the exports. Starting programs and
registering computations, which building and running do besides, is what a quiet
relation holds over too. So a quiet relation holds over every build, and over every
run in which it holds over the answers to requests. That a single run moves along a
relation is a congruence that looks at one of two acts only.

Main results:

* `Noting.congruence`, `Quiet.running` — moving along a relation is a
  congruence, also over the parts of runs.
* `Aside.renderShared`, `Aside.writeScript`, `Aside.waitAll` — the parts of a
  script's run that touch no program.
* `Quiet.build` — a quiet relation holds over building a runner.
* `Quiet.run` — it holds over runs whose requests it holds over.
-/

namespace Playbook

open Effect

/-! ## Parts of runs that only take notes -/

theorem Logging.composing {R : World → World → Prop} (hR : Logging R) :
    Composing fun {_} x _ => Along R x where
  pure := hR.pure
  throw := hR.throw
  bind := Along.bind_gives hR.toChains
  attempt h := h
  within _ _ _ h := h
  warn := hR.warn

theorem Logging.validate {R : World → World → Prop} (hR : Logging R)
    (r : ScriptRunner) (args : Args) :
    Along R (r.validate args) := hR.composing.validate r args

theorem Noting.congruence {R : World → World → Prop} (hR : Noting R) :
    Congruence fun {_} x _ => Along R x where
  toComposing := hR.composing
  note := hR.note

theorem Noting.reap {R : World → World → Prop} (hR : Noting R)
    (r : ScriptRunner) (kill : Bool) (elements : List ScriptRunner.Element) :
    Along R (r.reap kill elements) := hR.congruence.reap r kill elements

/-! ## Parts of runs that touch no program -/

namespace Aside

variable {R : World → World → Prop} (hR : Aside R)

include hR

theorem nameFiles (dir : String) (bs : List Binding) (args : Args) :
    Along R (ScriptRunner.nameFiles dir bs args) := by
  induction bs generalizing args with
  | nil => exact hR.pure _
  | cons b bs ih => exact hR.bind (hR.uniquePath _ _ _) fun _ => ih _

theorem writeScript (r : ScriptRunner) (texts : Dict String) :
    Along R (r.writeScript texts) := by
  refine hR.bind (Calm.within _ (hR.onDisk _)) fun _ =>
    hR.bind (hR.uniquePath _ _ _) fun path => ?_
  exact hR.bind (Calm.within _ (hR.onDisk _)) fun _ =>
    hR.bind (hR.track _) fun _ => hR.pure _

theorem waitFrom (ctx : Context) (sentinels : List String) (left look : Nat) :
    Along R (Sentinel.waitFrom ctx sentinels left look) := by
  induction left generalizing look with
  | zero => exact hR.bind (Along.get hR.toChains) fun _ => hR.fail _
  | succ left ih =>
    refine hR.bind (fun w => hR.kept w ..) fun _ =>
      hR.bind (Along.get hR.toChains) fun w => ?_
    refine Along.ite (fun w => hR.kept w ..) (Along.ite ?_ (Along.ite ?_ (ih _)))
    · exact hR.bind (hR.warn _ _) fun _ => hR.fail _
    · exact hR.bind (hR.warn _ _) fun _ => hR.fail _

theorem waitAll (ctx : Context) (sentinels : List String) :
    Along R (Sentinel.waitAll ctx sentinels) :=
  hR.waitFrom ctx _ _ _

/-! ### Exporting items -/

section

variable {calls : Calls}
  (hexports : ∀ h format, Along R (calls h (.exportAs format)))

include hexports

theorem exportItem (h : Handle) (format : String) :
    Along R (calls.exportItem h format) :=
  hR.bind (hexports h _) fun _ => hR.bind (hR.track _) fun _ => hR.pure _

theorem renderValue (format : String) (v : Value) :
    Along R (ScriptRunner.renderValue calls format v) :=
  hR.composing.renderValue calls v fun h _ => hR.exportItem hexports h format

theorem renderShared (bindings : Dict Binding) (args : Args) :
    Along R (ScriptRunner.renderShared calls bindings args) :=
  hR.composing.renderShared calls fun b _ h _ =>
  hR.exportItem hexports h b.role.exportFormat

end

end Aside

namespace Quiet

variable {R : World → World → Prop} (hR : Quiet R) (ctx : Context)

include hR

/-! ## Building -/

theorem loadComputation (identifier : String) :
    Along R (Catalog.load identifier) := by
  intro w
  unfold Catalog.load
  dsimp only [ExceptT.run]
  cases w.catalog.get? identifier with
  | some found => exact hR.refl w
  | none =>
    dsimp only
    split
    · exact hR.registered w ..
    · exact hR.refl w

theorem requirements (c : Computation) : Along R (Catalog.requirements ctx c) := by
  cases c with
  | native requirements body => exact hR.pure _
  | external program =>
    refine hR.bind (hR.launch ctx _) fun launched => ?_
    rcases launched with kind | ⟨job, outcome⟩
    · exact hR.bind (hR.warn _ _) fun _ => hR.pure _
    · exact hR.bind (hR.note _ rfl rfl) fun _ => hR.pure _

theorem required (identifier : String) (c : Computation) :
    Along R (Catalog.required ctx identifier c) := by
  refine hR.bind (hR.requirements ctx c) fun answer => ?_
  cases answer with
  | none => exact hR.bind (hR.warn _ _) fun _ => hR.pure _
  | some tokens => exact hR.pure _

theorem loadModule (r : ModuleRunner) : Along R (r.load ctx) :=
  hR.bind (hR.loadComputation _) fun _ => hR.bind (hR.required ctx _ _)
    fun _ => hR.pure _

theorem loadScript (r : ScriptRunner) : Along R r.load :=
  hR.bind (hR.fromDisk _) fun _ => hR.pure _

mutual
theorem build : (s : RunnerSpec) → Along R (Runner.build ctx s)
  | .module _ _ _ => Along.map (Calm.within _ (hR.loadModule ctx _))
  | .script _ _ _ _ _ => Along.map (Calm.within _ (hR.loadScript _))
  | .sequence _ actions => Calm.within _ (Along.map (buildAll actions))

theorem buildAll : (ss : List RunnerSpec) → Along R (Runner.buildAll ctx ss)
  | [] => hR.pure _
  | s :: ss => hR.bind (build s) fun _ => hR.bind (buildAll ss) fun _ => hR.pure _
end

/-! ## Requests on the way -/

theorem running : Running ctx fun {_} x _ => Along R x where
  toCongruence := hR.congruence
  name := hR.uniquePath
  script := hR.writeScript
  launch := hR.launch ctx
  print := hR.print
  wait := hR.waitAll ctx
  track := hR.track
  cleaning := hR.cleaning

/-- A quiet relation holds over runs whose requests it holds over. -/
theorem run {calls : Calls} (hcalls : ∀ h request, Along R (calls h request))
    (r : Runner) (args : Args) :
    Along R (r.run (Leaf.run ctx calls) args) :=
  (hR.running ctx).runner calls hcalls r args

end Quiet

end Playbook
