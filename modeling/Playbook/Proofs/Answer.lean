import Playbook.Answer
import Playbook.Proofs.Database.Change
import Playbook.Proofs.Runner

/-!
# Playbook — what requests do to items

However it ends, a request leaves every item as it was, or as something that
follows from it: a database that changes lead to, or an algorithm of the same
description. Locks, the disk and the journal may change too, but no step is
begun. All of this is one fact about relations: what lasts over such
replacements lasts over every request.

Main results:

* `Runner.toSpec_of_build` — a runner that was built has the description
  that it was built from.
* `Algorithm.SameSpec.toSpec` — algorithms that follow one another
  have one description.
* `Algorithm.run_act_of_placed`, `Algorithm.run_reload` — how an algorithm
  carries out an action and a reload.
* `Item.Makes.follows` — what a request makes of an item follows from it.
* `Answering.answer` — what holds over the parts of an answer and over what the
  request makes of the item holds over it.
* `Lasting.within`, `Lasting.all` — a lasting relation holds over every request.
-/

namespace Playbook

open Effect

/-! ## Runners keep their descriptions -/

namespace Runner

theorem Leaf.toSpec_adopt (dir : String) (l : Leaf) :
    (l.adopt dir).toSpec = l.toSpec := by
  cases l with
  | module r =>
    show (if r.pinned.isSome then Leaf.module r
      else .module { r with workdir := dir }).toSpec = _
    split <;> rfl
  | script r =>
    show (if r.pinned.isSome then Leaf.script r
      else .script { r with workdir := dir }).toSpec = _
    split <;> rfl

theorem toSpec_placeLeaf (dir : String) (l : Leaf) (disk : Disk) :
    ((placeLeaf dir l).run disk).1.1.toSpec = l.toSpec := by
  unfold placeLeaf
  dsimp only [StateT.run]
  rcases disk.makeDirectories (l.adopt dir).workdir with ⟨kind | _, disk'⟩ <;>
    exact Leaf.toSpec_adopt dir l

section

-- the halves of a mutual block do not count as uses of what they share
set_option linter.unusedSectionVars false

variable {σ : Type} {change : Leaf → StateM σ (Leaf × Option Failure)}
  (hchange : ∀ l s, ((change l).run s).1.1.toSpec = l.toSpec)

include hchange

mutual
theorem toSpec_changeLeaves (gather : Bool) : (r : Runner) → (s : σ) →
    ((changeLeaves change gather r).run s).1.1.toSpec = r.toSpec
  | .leaf l, s => hchange l s
  | .sequence name actions _, s =>
    congrArg (RunnerSpec.sequence name) (toSpecs_changeAll gather actions s)

theorem toSpecs_changeAll (gather : Bool) : (rs : List Runner) → (s : σ) →
    toSpecs ((changeAll change gather rs).run s).1.1 = toSpecs rs
  | [], _ => rfl
  | r :: rs, s => by
    have hr := toSpec_changeLeaves gather r s
    have hrs := toSpecs_changeAll gather rs ((changeLeaves change gather r).run s).2
    rw [changeAll, StateT.run_bind]
    rcases hrun : (changeLeaves change gather r).run s with ⟨⟨r', _ | failure⟩, s'⟩
    · rw [hrun] at hr hrs
      exact congrArg₂ List.cons hr hrs
    · rw [hrun] at hr
      exact congrArg (· :: toSpecs rs) hr
end

end

theorem toSpec_setWorkdir (dir : String) (r : Runner) (disk : Disk) :
    ((r.setWorkdir dir).run disk).1.1.toSpec = r.toSpec :=
  toSpec_changeLeaves (toSpec_placeLeaf dir) false r disk

theorem toSpec_buildModule {ctx : Context} {name identifier : String}
    {pinned : Option String} {w w' : World} {r : ModuleRunner}
    (h : (ModuleRunner.build ctx name identifier pinned).run w = (.ok r, w')) :
    (Leaf.module r).toSpec = .module name identifier pinned := by
  obtain ⟨found, w₁, -, h⟩ := run_bind_ok (Act.run_within_ok h)
  obtain ⟨required, w₂, -, h⟩ := run_bind_ok h
  cases h
  rfl

theorem toSpec_buildScript {ctx : Context} {name path shell : String}
    {parallel : Bool} {pinned : Option String} {w w' : World} {r : ScriptRunner}
    (h : (ScriptRunner.build ctx name path shell parallel pinned).run w =
      (.ok r, w')) :
    (Leaf.script r).toSpec = .script name path shell parallel pinned := by
  obtain ⟨prototype, w₁, -, h⟩ := run_bind_ok (Act.run_within_ok h)
  cases h
  rfl

mutual
/-- A runner that was built has the description that it was built from. -/
theorem toSpec_of_build {ctx : Context} :
    (s : RunnerSpec) → {w w' : World} → {r : Runner} →
    (build ctx s).run w = (.ok r, w') → r.toSpec = s
  | .module .., _, _, _, h => by
    obtain ⟨m, hm, rfl⟩ := run_map_ok h
    exact toSpec_buildModule hm
  | .script .., _, _, _, h => by
    obtain ⟨m, hm, rfl⟩ := run_map_ok h
    exact toSpec_buildScript hm
  | .sequence name actions, _, _, _, h => by
    obtain ⟨rs, hrs, rfl⟩ := run_map_ok (Act.run_within_ok h)
    exact congrArg (RunnerSpec.sequence name) (toSpecs_of_buildAll actions hrs)

theorem toSpecs_of_buildAll {ctx : Context} :
    (ss : List RunnerSpec) → {w w' : World} → {rs : List Runner} →
    (buildAll ctx ss).run w = (.ok rs, w') → toSpecs rs = ss
  | [], _, _, _, h => by
    cases h
    rfl
  | s :: ss, _, _, _, h => by
    obtain ⟨r, w₁, hr, h⟩ := run_bind_ok h
    obtain ⟨rs, w₂, hrs, h⟩ := run_bind_ok h
    cases h
    exact congrArg₂ List.cons (toSpec_of_build s hr) (toSpecs_of_buildAll ss hrs)
end

end Runner

/-! ## Algorithms keep their descriptions -/

namespace Algorithm

/-- The algorithms agree in everything that is described of them; in the working
directory if it is their own. -/
structure SameSpec (a b : Algorithm) : Prop where
  name : b.name = a.name
  actions : b.actions.mapValues Runner.toSpec = a.actions.mapValues Runner.toSpec
  config : b.config = a.config
  pinned : b.pinned = a.pinned
  workdir : a.pinned = true → b.workdir = a.workdir

theorem SameSpec.refl (a : Algorithm) : SameSpec a a :=
  ⟨rfl, rfl, rfl, rfl, fun _ => rfl⟩

theorem SameSpec.trans {a b c : Algorithm} (h : SameSpec a b)
    (k : SameSpec b c) : SameSpec a c :=
  ⟨k.name.trans h.name, k.actions.trans h.actions, k.config.trans h.config,
    k.pinned.trans h.pinned,
    fun hp => (k.workdir (h.pinned.trans hp)).trans (h.workdir hp)⟩

/-- Algorithms that follow one another have one description. -/
theorem SameSpec.toSpec {a b : Algorithm} (h : SameSpec a b) :
    b.toSpec = a.toSpec := by
  have hactions : b.actions.values.map Runner.toSpec =
      a.actions.values.map Runner.toSpec := by
    rw [← Dict.values_mapValues, ← Dict.values_mapValues, h.actions]
  unfold Algorithm.toSpec
  rw [h.name, hactions, h.config, h.pinned]
  cases hp : a.pinned with
  | false => rfl
  | true => rw [h.workdir hp]

/-- Putting another runner of the same description in place of a runner. -/
theorem sameSpec_insert {a : Algorithm} {name : String}
    {runner runner' : Runner} (h : a.actions.get? name = some runner)
    (hspec : runner'.toSpec = runner.toSpec) :
    SameSpec a { a with actions := a.actions.insert name runner' } := by
  refine ⟨rfl, ?_, rfl, rfl, fun _ => rfl⟩
  rw [Dict.mapValues_insert, hspec]
  exact Dict.insert_of_get? (by rw [Dict.get?_mapValues, h]; rfl)

/-- A runner that cannot be rebuilt ends the rebuilding; it and the others
stay as they are. -/
theorem run_rebuild_error {ctx : Context} {name : String} {runner : Runner}
    {rest : Dict Runner} {w w₁ : World} {failure : Failure}
    (h : (Runner.build ctx runner.toSpec).run w = (.error failure, w₁)) :
    (rebuild ctx ((name, runner) :: rest)).run w =
    (((name, runner) :: rest, some failure), w₁) := by
  have h' : StateT.run (ExceptT.run (Runner.build ctx runner.toSpec)) w =
      (.error failure, w₁) := h
  rw [rebuild, StateT.run_bind, h']
  rfl

/-- A runner that was rebuilt takes the place of the one that it was built from. -/
theorem run_rebuild_ok {ctx : Context} {name : String} {runner runner' : Runner}
    {rest : Dict Runner} {w w₁ : World}
    (h : (Runner.build ctx runner.toSpec).run w = (.ok runner', w₁)) :
    (rebuild ctx ((name, runner) :: rest)).run w =
      (((name, runner') :: ((rebuild ctx rest).run w₁).1.1,
        ((rebuild ctx rest).run w₁).1.2),
        ((rebuild ctx rest).run w₁).2) := by
  have h' : StateT.run (ExceptT.run (Runner.build ctx runner.toSpec)) w =
      (.ok runner', w₁) := h
  rw [rebuild, StateT.run_bind, h']
  rfl

/-- Rebuilding runners keeps their descriptions, wherever it stops. -/
theorem toSpec_rebuild (ctx : Context) (actions : Dict Runner) (w : World) :
    Dict.mapValues Runner.toSpec ((rebuild ctx actions).run w).1.1 =
    actions.mapValues Runner.toSpec := by
  induction actions generalizing w with
  | nil => rfl
  | cons entry rest ih =>
    obtain ⟨name, runner⟩ := entry
    rcases hrun : (Runner.build ctx runner.toSpec).run w with
      ⟨failure | runner', w₁⟩
    · rw [run_rebuild_error hrun]
    · have hspec := Runner.toSpec_of_build _ hrun
      rw [run_rebuild_ok hrun]
      show (name, runner'.toSpec) :: Dict.mapValues Runner.toSpec
        ((rebuild ctx rest).run w₁).1.1 = _
      rw [hspec, ih w₁]
      rfl

end Algorithm

/-! ## Answers of algorithms -/

namespace Algorithm

section

variable {ctx : Context} {calls : Calls} {h : Handle} {a : Algorithm}
  {name : String} {args : Args} {w : World}

theorem run_act_of_unknown (hget : a.actions.get? name = none) :
    (a.act ctx calls h name args).run w =
    (.error (Cause.unknownAction a.name name), w) := by
  unfold act
  rw [hget]
  rfl

variable {runner placed : Runner} {disk : Disk}
  (hget : a.actions.get? name = some runner)

include hget

/-- The runner is put back as far as it was given the working
directory, and is not run. -/
theorem run_act_of_homeless {failure : Failure}
    (hplaced : (runner.setWorkdir a.workdir).run w.disk =
      ((placed, some failure), disk)) :
    (a.act ctx calls h name args).run w =
      (.error failure, { w with disk }.setItem h.slot
        (.algorithm { a with actions := a.actions.insert name placed })) := by
  unfold act
  rw [hget]
  dsimp only
  rw [run_bind_of_ok (Act.run_overDisk hplaced)]
  rfl

theorem run_act_of_placed
    (hplaced : (runner.setWorkdir a.workdir).run w.disk =
      ((placed, none), disk)) :
    (a.act ctx calls h name args).run w =
      (Act.within (.action name a.name)
        (placed.run (Leaf.run ctx calls) (a.arguments args))).run
          ({ w with disk }.setItem h.slot
            (.algorithm { a with actions := a.actions.insert name placed })) := by
  unfold act
  rw [hget]
  dsimp only
  rw [run_bind_of_ok (Act.run_overDisk hplaced)]
  rfl

end

/-- The algorithm is put back with the runners as far as they were rebuilt. -/
theorem run_reload {ctx : Context} {h : Handle} {a : Algorithm} {w v : World}
    {actions : Dict Runner} {failed : Option Failure}
    (hrebuild : (rebuild ctx a.actions).run w = ((actions, failed), v)) :
    (a.reload ctx h).run w = (Act.check failed).run
      (v.setItem h.slot (.algorithm { a with actions })) := by
  rw [reload, run_bind]
  dsimp only [ExceptT.run]
  rw [hrebuild]
  rfl

end Algorithm

/-! ## Items that follow one another -/

namespace Item

/-- What requests can make of an item. -/
inductive Follows : Item → Item → Prop
  | database {d e : Database} : d.Leads e → Follows (database d) (database e)
  | algorithm {a b : Algorithm} : a.SameSpec b → Follows (algorithm a) (algorithm b)
  | plain {p q : PlainItem} : q.name = p.name → Follows (plain p) (plain q)

theorem Follows.refl (i : Item) : Follows i i := by
  cases i with
  | database d => exact .database .refl
  | algorithm a => exact .algorithm (.refl a)
  | plain p => exact .plain rfl

theorem Follows.trans {i j k : Item} (h : Follows i j) (h' : Follows j k) :
    Follows i k := by
  cases h with
  | database h =>
    cases h' with
    | database h' => exact .database (h.trans h')
  | algorithm h =>
    cases h' with
    | algorithm h' => exact .algorithm (h.trans h')
  | plain h =>
    cases h' with
    | plain h' => exact .plain (h'.trans h)

theorem follows_adopt (dir : String) (i : Item) : Follows i (i.adopt dir) := by
  cases i with
  | database d => exact .database (Database.Leads.refl.after (.move dir))
  | algorithm a =>
    refine .algorithm ?_
    split
    · exact .refl a
    · next hp => exact ⟨rfl, rfl, rfl, rfl, fun h => absurd h hp⟩
  | plain p => exact .plain rfl

theorem run_setWorkdir (dir : String) (i : Item) (disk : Disk) :
    ((i.setWorkdir dir).run disk).1.1 = i.adopt dir := by
  cases i with
  | algorithm a =>
    unfold setWorkdir
    dsimp only [StateT.run, adopt]
    rcases disk.makeDirectories (if a.pinned then a
        else { a with workdir := dir }).workdir with
      ⟨kind | _, disk'⟩ <;> rfl
  | _ => rfl

end Item

/-! ## What requests make of items -/

namespace Item

/-- What a request can make of the item that it is made to. -/
inductive Makes (ctx : Context) : Request → Item → Item → Prop
  | changed {request : Request} {d e : Database} :
      d.Leads e → Makes ctx request (database d) (database e)
  /-- The runner of the action was given the working directory of its algorithm. -/
  | placed {name : String} {args : Args} {a : Algorithm} {runner : Runner}
      (disk : Disk) :
      a.actions.get? name = some runner →
        Makes ctx (.action name args) (algorithm a)
          (algorithm
            { a with
              actions := a.actions.insert name
                ((runner.setWorkdir a.workdir).run disk).1.1 })
  | rebuilt {a : Algorithm} (w : World) : Makes ctx .reload (algorithm a)
      (algorithm
        { a with actions := ((Algorithm.rebuild ctx a.actions).run w).1.1 })
  | moved (dir : String) (i : Item) : Makes ctx (.setWorkdir dir) i (i.adopt dir)

theorem Makes.follows {ctx : Context} {request : Request} {i j : Item}
    (h : Makes ctx request i j) : Follows i j := by
  cases h with
  | changed hleads => exact .database hleads
  | placed disk hrunner =>
    exact .algorithm (Algorithm.sameSpec_insert hrunner
      (Runner.toSpec_setWorkdir _ _ disk))
  | rebuilt w =>
    exact .algorithm ⟨rfl, Algorithm.toSpec_rebuild ctx _ w, rfl,
      rfl, fun _ => rfl⟩
  | moved dir => exact follows_adopt dir _

end Item

/-! ## Requests -/

theorem Quiet.rebuild {R : World → World → Prop} (hR : Quiet R) (ctx : Context)
    (actions : Dict Runner) (w : World) :
    R w ((Algorithm.rebuild ctx actions).run w).2 := by
  induction actions generalizing w with
  | nil => exact hR.refl w
  | cons entry rest ih =>
    obtain ⟨name, runner⟩ := entry
    have hbuild := hR.build ctx runner.toSpec w
    rcases hrun : (Runner.build ctx runner.toSpec).run w with
      ⟨failure | runner', w₁⟩
    · rw [hrun] at hbuild
      rw [Algorithm.run_rebuild_error hrun]
      exact hbuild
    · rw [hrun] at hbuild
      rw [Algorithm.run_rebuild_ok hrun]
      exact hR.trans hbuild (ih w₁)

theorem Quiet.buildAlgorithm {R : World → World → Prop} (hR : Quiet R)
    (ctx : Context) (spec : AlgorithmSpec) :
    Along R (Algorithm.build ctx spec) := by
  refine hR.bind (Along.foldlM hR.toChains _ _ fun actions action => ?_)
    fun _ => hR.pure _
  exact hR.bind (Calm.within _ (hR.build ctx action)) fun _ => hR.pure _

/-- The relation of leaving the items alone. -/
theorem quiet_slots : Quiet fun w w' : World => w'.slots = w.slots where
  refl _ := rfl
  trans h k := k.trans h
  event _ _ _ _ := rfl
  side _ _ _ _ _ _ _ := rfl
  launched _ _ _ _ := rfl
  registered _ _ _ _ := rfl

/-- Rebuilding leaves the items alone. -/
theorem itemAt_rebuild (ctx : Context) (actions : Dict Runner) (w : World)
    (slot : Nat) :
    ((Algorithm.rebuild ctx actions).run w).2.itemAt slot = w.itemAt slot := by
  have hslots := quiet_slots.rebuild ctx actions w
  unfold World.itemAt
  rw [hslots]

/-- Exporting an item writes to the disk and does nothing else. -/
theorem Calm.exportItemAs {R : World → World → Prop} (hR : Calm R) (i : Item)
    (format : String) :
    Along R (i.exportAs format) := by
  cases i with
  | database d =>
    refine Along.ite (hR.bind hR.token fun _ => hR.onDisk _)
      (Along.ite ?_ (hR.fail _))
    exact hR.bind (hR.uniquePath _ _ _) fun _ => hR.onDisk _
  | algorithm a => exact Along.ite (hR.onDisk _) (hR.fail _)
  | plain p => exact hR.fail _

/-- A request is answered as deep as there are items, and one deeper. -/
theorem Calls.run_all (ctx : Context) (h : Handle) (request : Request) (w : World) :
    (Calls.all ctx h request).run w =
    (Calls.within ctx (w.slots.length + 1) h request).run w := by
  unfold Calls.all
  rw [run_bind, run_get]

/-- What holds over what is done with an item locked holds over its export. -/
theorem Serving.exportWithin {R : World → World → Prop} (hR : Serving R)
    (ctx : Context) (depth : Nat) (h : Handle) (format : String) :
    Along R (Calls.within ctx depth h (.exportAs format)) := by
  cases depth with
  | zero => exact hR.fail _
  | succ depth =>
    have hbody : Along R (Act.item h >>= fun i =>
        i.answer ctx (Calls.within ctx depth) h (.exportAs format)) :=
      hR.bind (hR.item h) fun i => Along.map (hR.exportItemAs i format)
    exact fun w => hR.locking h (hbody _)

namespace Answering

variable {R : World → World → Prop} (hR : Answering R) {ctx : Context}
  {h : Handle} {request : Request}
  (hput : ∀ (w : World) old new, w.itemAt h.slot = some old →
    Item.Makes ctx request old new → R w (w.setItem h.slot new))

include hR hput

omit hR in
/-- A change of a database, whether or not it fails. -/
theorem editing {α : Type} {d : Database} {w : World}
    (hw : w.itemAt h.slot = some (.database d)) {e : Edit α}
    (he : d.Leads (e.run d).2) : R w ((Database.editing h d e).run w).2 :=
  hput w _ _ hw (.changed he)

theorem actDatabase {d : Database} {w : World}
    (hw : w.itemAt h.slot = some (.database d)) (name : String) (args : Args) :
    R w ((d.act h name args).run w).2 := by
  unfold Database.act
  split
  · exact hR.pure _ w
  · split
    · exact hR.throw _ w
    · exact Along.map (hR.liftM _) w
  · split
    · exact hR.throw _ w
    · next values _ =>
      rw [run_bind, run_liftM]
      cases hl : Database.listsOf d.name values with
      | error failure => exact hR.refl w
      | ok lists =>
        -- the database is the same after its fresh ids were drawn
        have hside := hR.tokenList (Database.rowCount lists) w
        dsimp only
        rw [run_bind]
        have hw' : ((Act.tokenList (Database.rowCount lists)).run w).2.itemAt
            h.slot = some (.database d) := hw
        refine hR.trans hside (Along.bind_at hR.toChains (editing hput hw' ?_)
          fun _ => hR.pure _)
        exact Database.leads_addEntries d _ lists
  · exact hR.fail _ w

theorem mergeWith {i : Item} {w : World} (hw : w.itemAt h.slot = some i)
    (other : Item) :
    R w ((Item.mergeWith h i other).run w).2 := by
  cases i with
  | database d =>
    unfold Item.mergeWith
    dsimp only
    split
    · next incoming _ =>
        exact hput w _ _ hw
          (.changed (Database.Leads.refl.after (.merge incoming)))
    · exact hR.throw _ w
  | algorithm a => exact hR.fail _ w
  | plain p => exact hR.fail _ w

omit hput in
theorem actAlgorithm {name : String} {args : Args}
      (hput : ∀ (w : World) old new, w.itemAt h.slot = some old →
      Item.Makes ctx (.action name args) old new → R w (w.setItem h.slot new))
    {calls : Calls} (hcalls : ∀ h request, Along R (calls h request))
    {a : Algorithm} {w : World}
    (hw : w.itemAt h.slot = some (.algorithm a)) :
    R w ((a.act ctx calls h name args).run w).2 := by
  unfold Algorithm.act
  split
  · exact hR.fail _ w
  · next runner hrunner =>
    rw [run_bind]
    refine hR.trans (hR.overDisk (runner.setWorkdir a.workdir) w) ?_
    refine Along.bind_at hR.toChains (hput _ _ _ hw (.placed w.disk hrunner))
      fun _ => ?_
    exact hR.bind (hR.check _) fun _ => Calm.within _ (hR.run ctx hcalls _ _)

omit hput in
theorem reload (hput : ∀ (w : World) old new, w.itemAt h.slot = some old →
      Item.Makes ctx .reload old new →
      R w (w.setItem h.slot new)) {a : Algorithm} {w : World} (hw :
      w.itemAt h.slot = some (.algorithm a)) :
    R w ((a.reload ctx h).run w).2 := by
  have hw' := (itemAt_rebuild ctx a.actions w h.slot).trans hw
  rw [Algorithm.reload, run_bind]
  refine hR.trans (hR.rebuild ctx a.actions w)
    (Along.bind_at hR.toChains ?_ fun _ => hR.check _)
  exact hput _ _ _ hw' (.rebuilt w)

/-- What holds over the parts of answers holds over what an item does, if it does
over what the item asks others and over what the request makes of the item. -/
theorem answer {calls : Calls} (hcalls : ∀ h request, Along R (calls h request))
    {i : Item} {w : World} (hw : w.itemAt h.slot = some i) :
    R w ((i.answer ctx calls h request).run w).2 := by
  cases request with
  | action name args =>
    cases i with
    | database d => exact hR.actDatabase hput hw name args
    | algorithm a => exact hR.actAlgorithm hput hcalls hw
    | plain p => exact hR.fail _ w
  | exportAs format => exact Along.map (hR.exportItemAs i format) w
  | serialize format path => exact Along.map (hR.onDisk _) w
  | updateEntries entries values =>
    cases i with
    | database d =>
      have hafter : d.Leads ((Database.updateEntries entries values).run d).2 :=
        Database.Leads.refl.after (.updateEntries entries values)
      exact Along.bind_at hR.toChains (editing hput hw hafter) fun _ => hR.pure _
    | algorithm a =>
      exact Along.bind_at hR.toChains (hR.fail _ w) fun _ => hR.pure _
    | plain p => exact Along.bind_at hR.toChains (hR.fail _ w) fun _ => hR.pure _
  | clear =>
    cases i with
    | database d =>
      have hafter : d.Leads d.clear := Database.Leads.refl.after .clear
      exact Along.bind_at hR.toChains (hput w _ _ hw (.changed hafter))
        fun _ => hR.pure _
    | algorithm a =>
      exact Along.bind_at hR.toChains (hR.fail _ w) fun _ => hR.pure _
    | plain p => exact Along.bind_at hR.toChains (hR.fail _ w) fun _ => hR.pure _
  | merge source =>
    -- both items are locked now; locking the other one leaves this one where it is
    refine Along.bind_at hR.toChains (hR.locking source ?_) fun _ => hR.pure _
    have hw' : (w.setLocked source.slot true).itemAt h.slot = some i :=
      (World.itemAt_setLocked ..).trans hw
    rw [run_bind]
    rcases hrun : (Act.item source).run (w.setLocked source.slot true) with
      ⟨failure | other, w'⟩
    · have hitem := hR.item source (w.setLocked source.slot true)
      rw [hrun] at hitem
      exact hitem
    · obtain ⟨rfl, -⟩ := Act.run_item_ok hrun
      exact hR.mergeWith hput hw' other
  | state => exact hR.pure _ w
  | reload =>
    cases i with
    | database d => exact hR.pure _ w
    | algorithm a =>
      exact Along.bind_at hR.toChains (hR.reload hput hw) fun _ => hR.pure _
    | plain p => exact hR.pure _ w
  | workdir => exact hR.pure _ w
  | setWorkdir path =>
    have hmakes : Item.Makes ctx (.setWorkdir path) i
        ((i.setWorkdir path).run w.disk).1.1 :=
      Item.run_setWorkdir path i w.disk ▸ .moved path i
    rw [Item.answer, run_bind]
    refine hR.trans (hR.overDisk (i.setWorkdir path) w) ?_
    refine Along.bind_at hR.toChains (hput _ _ _ hw hmakes) fun _ => ?_
    exact hR.bind (hR.check _) fun _ => hR.pure _
  | isDatabase => exact hR.pure _ w

end Answering

namespace Lasting

variable {R : World → World → Prop} (hR : Lasting Item.Follows R) (ctx : Context)

include hR

/-- What lasts over replacing items lasts over what an item does, if it does
over what the item asks others. -/
theorem answer {calls : Calls} (hcalls : ∀ h request, Along R (calls h request))
    {h : Handle} {i : Item} {w : World} (hw : w.itemAt h.slot = some i)
    (request : Request) : R w ((i.answer ctx calls h request).run w).2 :=
  hR.toAnswering.answer (fun w _ _ hold hmakes =>
    hR.put w h.slot _ _ hold hmakes.follows) hcalls hw

/-- What lasts over replacing items lasts over every request. -/
theorem within (depth : Nat) (h : Handle) (request : Request) :
    Along R (Calls.within ctx depth h request) := by
  -- by induction on how deep requests may nest: those that an item makes go
  -- one level less deep
  induction depth generalizing h request with
  | zero => exact hR.fail _
  | succ depth ih =>
    intro w
    refine hR.locking h ?_
    rw [run_bind]
    rcases hrun : (Act.item h).run (w.setLocked h.slot true) with ⟨failure | i, w'⟩
    · have hitem := hR.item h (w.setLocked h.slot true)
      rw [hrun] at hitem
      exact hitem
    · obtain ⟨rfl, hi⟩ := Act.run_item_ok hrun
      exact hR.answer ctx ih hi request

theorem all (h : Handle) (request : Request) : Along R (Calls.all ctx h request) :=
  hR.bind (Along.get hR.toChains) fun _ => hR.within ctx _ h request

end Lasting

end Playbook
