import Playbook.Runner.Run
import Playbook.Proofs.Dict
import Playbook.Proofs.World

/-!
# Playbook — comparing runs part by part

Runners do their work with the answers to their requests. To compare two runs of one
runner that get different answers, or to say something of every single run, it is
enough to do so for the parts: a `Congruence` is a relation between acts that a
sequence inherits from its parts (`Composing`, if nothing is noted but messages),
`Scripting` says that it holds over what a script's run does besides its exports,
and `Running` that it holds over what any run does besides its requests. From this
it is carried once through everything that runners do. What is known of the second
part of a sequence is that the first one gave the value it starts from.

Main results:

* `Composing.program`, `Composing.toJsonEntries` — computations whose requests
  are related are related.
* `Scripting.run` — so are the runs of a script whose exports are related.
* `Composing.run`, `Running.runner` — so are the runs of a runner whose leaves,
  or whose requests, are related.
-/

namespace Playbook

open Effect

/-! ## Items among values -/

namespace Value

mutual
/-- The items that occur in a value. -/
def handles : Value → List Handle
  | json _ => []
  | item h => [h]
  | list items => itemHandles items
  | map entries => entryHandles entries
termination_by structural v => v

def itemHandles : List Value → List Handle
  | [] => []
  | x :: xs => handles x ++ itemHandles xs
termination_by structural vs => vs

def entryHandles : List (String × Value) → List Handle
  | [] => []
  | (_, x) :: xs => handles x ++ entryHandles xs
termination_by structural vs => vs
end

theorem mem_itemHandles {h : Handle} {vs : List Value} :
    h ∈ itemHandles vs ↔ ∃ v ∈ vs, h ∈ v.handles := by
  induction vs with
  | nil => simp [itemHandles]
  | cons v vs ih => simp [itemHandles, ih]

theorem mem_entryHandles {h : Handle} {entries : Dict Value} :
    h ∈ entryHandles entries ↔ ∃ name v, (name, v) ∈ entries ∧ h ∈ v.handles := by
  induction entries with
  | nil => simp [entryHandles]
  | cons entry entries ih =>
    obtain ⟨name, v⟩ := entry
    rw [entryHandles, List.mem_append, ih]
    constructor
    · rintro (hv | ⟨key, x, hx, hh⟩)
      · exact ⟨name, v, List.mem_cons_self .., hv⟩
      · exact ⟨key, x, List.mem_cons_of_mem _ hx, hh⟩
    · rintro ⟨key, x, hx, hh⟩
      rcases List.mem_cons.mp hx with heq | hrest
      · cases heq
        exact Or.inl hh
      · exact Or.inr ⟨key, x, hrest, hh⟩

theorem mem_entryHandles_insert {args : Args} {name text : String} {h : Handle}
    (hh : h ∈ entryHandles (args.insert name (ofText text))) :
    h ∈ entryHandles args := by
  obtain ⟨key, v, hv, hmem⟩ := mem_entryHandles.mp hh
  rcases Dict.mem_insert hv with heq | hbefore
  · cases heq
    cases hmem
  · exact mem_entryHandles.mpr ⟨key, v, hbefore, hmem⟩

/-- The items in the parts of a list are items of the list. -/
theorem mem_handles_of_sequence? {v : Value} {items : List Value}
    (h : v.sequence? = some items) {x : Value} (hx : x ∈ items) {i : Handle}
    (hi : i ∈ x.handles) : i ∈ v.handles := by
  cases v with
  | item _ => cases h
  | map _ => cases h
  | list _ =>
    cases h
    exact mem_itemHandles.mpr ⟨x, hx, hi⟩
  | json j =>
    -- plain data has no items in it
    cases j with
    | arr parts =>
      cases h
      obtain ⟨part, -, rfl⟩ := List.mem_map.mp hx
      cases hi
    | _ => cases h

end Value

/-! ## Relations between acts -/

/-- A relation between acts that holds over messages, and over sequences,
attempts and frames if it holds over their parts. -/
structure Composing (K : ∀ {α : Type}, Act α → Act α → Prop) : Prop where
  pure : ∀ {α : Type} (a : α), K (Pure.pure a) (Pure.pure a)
  throw : ∀ {α : Type} (failure : Failure),
    K (throw failure : Act α) (throw failure)
  bind : ∀ {α β : Type} {x y : Act α} {f g : α → Act β}, K x y →
    (∀ a, Gives x a → K (f a) (g a)) →
    K (x >>= f) (y >>= g)
  attempt : ∀ {α : Type} {x y : Act α}, K x y → K (Act.attempt x) (Act.attempt y)
  within : ∀ {α : Type} (frame : Frame) {x y : Act α}, K x y →
    K (Act.within frame x) (Act.within frame y)
  warn : ∀ message fields, K (Act.warn message fields) (Act.warn message fields)

/-- A composing relation that also holds over other events that neither begin a
step nor start a program. -/
structure Congruence (K : ∀ {α : Type}, Act α → Act α → Prop) : Prop
    extends Composing @K where
  note : ∀ event : Event, event.step? = none → event.launch? = none →
    K (Act.note event) (Act.note event)
  warn _ _ := note _ rfl rfl

/-- A congruence that holds over the parts of a script's run. -/
structure Scripting (ctx : Context) (r : ScriptRunner)
    (K : ∀ {α : Type}, Act α → Act α → Prop) : Prop
    extends Congruence @K where
  name : ∀ dir stem extension, K (Act.uniquePath dir stem extension)
    (Act.uniquePath dir stem extension)
  script : ∀ texts, K (r.writeScript texts) (r.writeScript texts)
  launch : ∀ script,
    K (Act.launch ctx { program := r.launcher, arguments := [script] })
      (Act.launch ctx { program := r.launcher, arguments := [script] })
  print : ∀ text, K (Act.print text) (Act.print text)
  wait : ∀ sentinels, K (Sentinel.waitAll ctx sentinels)
    (Sentinel.waitAll ctx sentinels)

/-- A congruence that holds over all that runs do besides their requests. -/
structure Running (ctx : Context)
    (K : ∀ {α : Type}, Act α → Act α → Prop) : Prop extends Congruence @K where
  name : ∀ dir stem extension, K (Act.uniquePath dir stem extension)
    (Act.uniquePath dir stem extension)
  script : ∀ (r : ScriptRunner) texts, K (r.writeScript texts) (r.writeScript texts)
  launch : ∀ l, K (Act.launch ctx l) (Act.launch ctx l)
  print : ∀ text, K (Act.print text) (Act.print text)
  wait : ∀ sentinels, K (Sentinel.waitAll ctx sentinels)
    (Sentinel.waitAll ctx sentinels)
  track : ∀ path, K (Act.track path) (Act.track path)
  cleaning : ∀ {x y : Act Value}, K x y → K (Act.cleaning x) (Act.cleaning y)

namespace Composing

variable {K : ∀ {α : Type}, Act α → Act α → Prop} (hK : Composing @K) {α β : Type}

include hK

/-- A sequence whose second parts are related for whatever value they start from. -/
theorem andThen {x y : Act α} {f g : α → Act β} (h : K x y)
    (hf : ∀ a, K (f a) (g a)) : K (x >>= f) (y >>= g) :=
  hK.bind h fun a _ => hf a

theorem map {x y : Act α} (f : α → β) (h : K x y) : K (f <$> x) (f <$> y) := by
  rw [map_eq_pure_bind, map_eq_pure_bind]
  exact hK.andThen h fun _ => hK.pure _

theorem fail (cause : Cause) :
    K (Act.fail cause : Act α) (Act.fail cause) := hK.throw _

theorem liftM (result : Except Failure α) :
    K (liftM result : Act α) (liftM result) := by
  cases result with
  | error failure => exact hK.throw failure
  | ok a => exact hK.pure a

theorem check (failure : Option Failure) :
    K (Act.check failure) (Act.check failure) := by
  cases failure with
  | none => exact hK.pure ()
  | some failure => exact hK.throw failure

omit hK in
theorem ite {c : Prop} [Decidable c] {x y x' y' : Act α} (h : K x y)
    (h' : K x' y') :
    K (if c then x else x') (if c then y else y') := by
  split
  · exact h
  · exact h'

theorem forIn {γ : Type} (l : List γ) (init : β) {f : γ → β → Act (ForInStep β)}
    (hf : ∀ x b, K (f x b) (f x b)) :
    K (forIn l init f) (forIn l init f) := by
  induction l generalizing init with
  | nil => exact hK.pure init
  | cons x rest ih =>
    rw [List.forIn_cons]
    refine hK.andThen (hf x init) fun next => ?_
    cases next with
    | done b => exact hK.pure b
    | yield b => exact ih b

/-! ## Parts of runs without requests -/

theorem validate (r : ScriptRunner) (args : Args) :
    K (r.validate args) (r.validate args) := by
  unfold ScriptRunner.validate
  split
  · refine hK.andThen (hK.forIn _ _ fun name _ => ?_) fun _ => hK.pure _
    exact ite (hK.pure _) (hK.andThen (hK.warn _ _) fun _ => hK.pure _)
  · exact hK.fail _

theorem launchAll {launch launch' : Nat → Value → Act ScriptRunner.Element}
    {values : List Value}
    (hlaunch : ∀ i, ∀ v ∈ values, K (launch i v) (launch' i v)) (index : Nat) :
    K (ScriptRunner.launchAll launch index values)
      (ScriptRunner.launchAll launch' index values) := by
  induction values generalizing index with
  | nil => exact hK.pure _
  | cons v vs ih =>
    refine hK.andThen (hK.attempt (hlaunch index v (List.mem_cons_self ..)))
      fun launched => ?_
    cases launched with
    | error failure => exact hK.pure _
    | ok element =>
      exact hK.andThen (ih (fun i x hx =>
        hlaunch i x (List.mem_cons_of_mem _ hx)) _) fun _ => hK.pure _

/-! ## Requests -/

variable {calls : Calls} (calls' : Calls)

theorem program (hcalls : ∀ h request, K (calls h request) (calls' h request))
    (p : Program) :
    K (p.run calls) (p.run calls') := by
  induction p with
  | done value => exact hK.pure _
  | fail failure => exact hK.throw _
  | ask h request next ih =>
    exact hK.andThen (hK.attempt (hcalls h request)) fun answer => ih answer

mutual
theorem toJson : (v : Value) →
    (∀ h ∈ v.handles, K (calls.exportItem h "serialize")
      (calls'.exportItem h "serialize")) →
    K (calls.toJson v) (calls'.toJson v)
  | .json _, _ => hK.pure _
  | .item h, hexport => hK.map _ (hexport h (List.mem_singleton_self h))
  | .list items, hexport => hK.map _ (toJsonItems items hexport)
  | .map entries, hexport => hK.map _ (toJsonEntries entries hexport)

theorem toJsonItems : (vs : List Value) →
    (∀ h ∈ Value.itemHandles vs, K (calls.exportItem h "serialize")
      (calls'.exportItem h "serialize")) →
    K (calls.toJsonItems vs) (calls'.toJsonItems vs)
  | [], _ => hK.pure _
  | v :: vs, hexport =>
    hK.andThen (toJson v fun h hh => hexport h (List.mem_append_left _ hh)) fun _ =>
      hK.andThen (toJsonItems vs fun h hh =>
        hexport h (List.mem_append_right _ hh)) fun _ => hK.pure _

theorem toJsonEntries : (vs : List (String × Value)) →
    (∀ h ∈ Value.entryHandles vs, K (calls.exportItem h "serialize")
      (calls'.exportItem h "serialize")) →
    K (calls.toJsonEntries vs) (calls'.toJsonEntries vs)
  | [], _ => hK.pure _
  | (_, v) :: vs, hexport =>
    hK.andThen (toJson v fun h hh => hexport h (List.mem_append_left _ hh)) fun _ =>
      hK.andThen (toJsonEntries vs fun h hh =>
        hexport h (List.mem_append_right _ hh)) fun _ => hK.pure _
end

section

variable {format : String}

mutual
theorem renderValue : (v : Value) →
    (∀ h ∈ v.handles, K (calls.exportItem h format) (calls'.exportItem h format)) →
    K (ScriptRunner.renderValue calls format v)
      (ScriptRunner.renderValue calls' format v)
  | .json _, _ => hK.pure _
  | .item h, hexport => hexport h (List.mem_singleton_self h)
  | .list items, hexport => hK.map _ (renderValues items hexport)
  | .map _, _ => hK.pure _

theorem renderValues : (vs : List Value) →
    (∀ h ∈ Value.itemHandles vs, K (calls.exportItem h format)
      (calls'.exportItem h format)) →
    K (ScriptRunner.renderValues calls format vs)
      (ScriptRunner.renderValues calls' format vs)
  | [], _ => hK.pure _
  | v :: vs, hexport =>
    hK.andThen (renderValue v fun h hh =>
      hexport h (List.mem_append_left _ hh)) fun _ =>
      hK.andThen (renderValues vs fun h hh =>
        hexport h (List.mem_append_right _ hh)) fun _ => hK.pure _
end

end

theorem renderShared {bindings : Dict Binding} {args : Args}
    (hexport : ∀ b ∈ bindings.values, ∀ h ∈ Value.entryHandles args,
      K (calls.exportItem h b.role.exportFormat)
        (calls'.exportItem h b.role.exportFormat)) :
    K (ScriptRunner.renderShared calls bindings args)
      (ScriptRunner.renderShared calls' bindings args) := by
  induction args with
  | nil => exact hK.pure _
  | cons entry rest ih =>
    obtain ⟨name, value⟩ := entry
    have hrest := ih fun b hb h hh => hexport b hb h (List.mem_append_right _ hh)
    unfold ScriptRunner.renderShared
    split
    · exact hrest
    · next b hb =>
      have hvalue : K (ScriptRunner.renderValue calls b.role.exportFormat value)
          (ScriptRunner.renderValue calls' b.role.exportFormat value) :=
        hK.renderValue calls' value fun h hh =>
          hexport b (Dict.mem_values_of_get? hb) h (List.mem_append_left _ hh)
      exact ite hrest (hK.andThen hvalue fun _ =>
        hK.andThen hrest fun _ => hK.pure _)

/-! ## Runners -/

section

-- the halves of a mutual block do not count as uses of what they share
set_option linter.unusedSectionVars false

variable {leaf leaf' : Leaf → Args → Act Value}
  (hleaf : ∀ l args, K (leaf l args) (leaf' l args))

include hleaf

mutual
theorem run : (r : Runner) → (args : Args) →
    K (Runner.run leaf r args) (Runner.run leaf' r args)
  | .leaf l, args => hleaf l args
  | .sequence _ actions _, args => hK.map _ (runActions actions args)

theorem runActions : (rs : List Runner) → (pool : Args) →
    K (Runner.runActions leaf rs pool) (Runner.runActions leaf' rs pool)
  | [], _ => hK.pure _
  | r :: rs, _ => hK.andThen (run r _) fun _ => runActions rs _
end

end

theorem runModule {ctx : Context} {r : ModuleRunner} {args : Args}
    (hcomputation : ∀ site, K (r.computation.run ctx calls site args)
      (r.computation.run ctx calls' site args)) :
    K (r.run ctx calls args) (r.run ctx calls' args) := by
  unfold ModuleRunner.run
  split
  · refine hK.andThen (hK.forIn _ _ fun name _ => ?_) fun _ =>
      hK.within _ (hcomputation _)
    exact ite (hK.pure _) (hK.andThen (hK.warn _ _) fun _ => hK.pure _)
  · exact hK.fail _

end Composing

namespace Congruence

variable {K : ∀ {α : Type}, Act α → Act α → Prop} (hK : Congruence @K)
  {calls : Calls} (calls' : Calls)

include hK

theorem reap (r : ScriptRunner) (kill : Bool)
    (elements : List ScriptRunner.Element) :
    K (r.reap kill elements) (r.reap kill elements) := by
  induction elements with
  | nil => exact Composing.ite (hK.warn _ _) (hK.pure _)
  | cons element rest ih =>
    unfold ScriptRunner.reap
    cases kill with
    | false =>
      exact hK.andThen (hK.note _ rfl rfl) fun _ =>
        Composing.ite ih (hK.andThen (hK.warn _ _) fun _ => ih)
    | true =>
      exact hK.andThen (hK.note _ rfl rfl) fun _ =>
        hK.andThen (hK.note _ rfl rfl) fun _ => ih

/-- A batch whose launches and whose wait are related. -/
theorem runArray {ctx : Context} {r : ScriptRunner} {b : Binding} {args : Args}
    {shared : Dict String}
    (hlaunch : ∀ values, (args.get? b.name).bind Value.sequence? = some values →
      ∀ i, ∀ v ∈ values,
      K (r.launchElement ctx calls b args shared i v)
        (r.launchElement ctx calls' b args shared i v))
    (hwait : ∀ sentinels, K (Sentinel.waitAll ctx sentinels)
      (Sentinel.waitAll ctx sentinels)) :
    K (r.runArray ctx calls b args shared)
      (r.runArray ctx calls' b args shared) := by
  unfold ScriptRunner.runArray
  split
  · exact hK.fail _
  · next values hvalues =>
    refine hK.andThen (hK.launchAll (hlaunch values hvalues) 0) fun launched => ?_
    rcases launched with ⟨elements, _ | failure⟩
    · refine hK.andThen (hK.attempt (hwait _)) fun waited => ?_
      rcases waited with failure | -
      · exact hK.andThen (hK.reap r _ _) fun _ => hK.throw _
      · exact hK.andThen (hK.reap r _ _) fun _ => hK.pure _
    · exact hK.andThen (hK.reap r _ _) fun _ => hK.throw _

/-- A run of an external program, up to the removal of the files
that it was given. -/
theorem runExternal {C : Act Value → Act Value → Prop}
    (hclean : ∀ {x y}, K x y → C (Act.cleaning x) (Act.cleaning y))
    {ctx : Context} {program : String}
    (hlaunch : ∀ l : Launch, l.program = program →
      K (Act.launch ctx l) (Act.launch ctx l)) (site : Site) {args : Args}
      (hexport : ∀ h ∈ Value.entryHandles args,
        K (calls.exportItem h "serialize") (calls'.exportItem h "serialize")) :
    C (Computation.runExternal ctx calls program site args)
      (Computation.runExternal ctx calls' program site args) := by
  -- what follows the exports is told their paths, and makes no request of its own
  refine hclean (hK.andThen (hK.attempt (hK.toJsonEntries calls' args hexport))
    fun fields => ?_)
  cases fields with
  | error failure => exact hK.fail _
  | ok fields =>
    refine hK.andThen (hlaunch _ rfl) fun launched => ?_
    rcases launched with kind | ⟨job, outcome⟩
    · exact hK.throw _
    · refine hK.andThen (hK.check _) fun _ =>
        hK.andThen (hK.note _ rfl rfl) fun _ => ?_
      exact Composing.ite (hK.liftM _) (hK.fail _)

end Congruence

/-- Naming files puts no item into the arguments. -/
theorem ScriptRunner.entryHandles_of_nameFiles {dir : String}
    {bs : List Binding} {args named : Args}
    (hgives : Gives (nameFiles dir bs args) named) {h : Handle}
    (hh : h ∈ Value.entryHandles named) :
    h ∈ Value.entryHandles args := by
  obtain ⟨w, w', hrun⟩ := hgives
  induction bs generalizing args w with
  | nil =>
    cases hrun
    exact hh
  | cons b bs ih =>
    obtain ⟨path, w₁, -, hrest⟩ := run_bind_ok hrun
    exact Value.mem_entryHandles_insert (ih w₁ hrest)

namespace Scripting

variable {K : ∀ {α : Type}, Act α → Act α → Prop} {ctx : Context}
  {r : ScriptRunner} (hK : Scripting ctx r @K) {calls : Calls} (calls' : Calls)

include hK

theorem nameFiles (dir : String) (bs : List Binding) (args : Args) :
    K (ScriptRunner.nameFiles dir bs args)
      (ScriptRunner.nameFiles dir bs args) := by
  induction bs generalizing args with
  | nil => exact hK.pure _
  | cons b bs ih => exact hK.andThen (hK.name _ _ _) fun _ => ih _

theorem runSingle (args : Args) (texts : Dict String) (sentinel : String) :
    K (r.runSingle ctx args texts sentinel)
      (r.runSingle ctx args texts sentinel) := by
  refine hK.andThen (hK.script texts) fun script =>
    hK.andThen (hK.launch script) fun launched => ?_
  rcases launched with kind | ⟨job, outcome⟩
  · exact hK.andThen (hK.throw _) fun _ => hK.andThen (hK.wait _) fun _ => hK.pure _
  · refine hK.andThen (hK.print _) fun _ =>
      hK.andThen (hK.note _ rfl rfl) fun _ => Composing.ite ?_ ?_
    · exact hK.andThen (hK.wait _) fun _ => hK.pure _
    · exact hK.andThen (hK.warn _ _) fun _ =>
        hK.andThen (hK.wait _) fun _ => hK.pure _

theorem launchElement {b : Binding} {args : Args} {shared : Dict String}
    {element : Value}
    (hexport : ∀ h ∈ element.handles,
      K (calls.exportItem h b.role.exportFormat)
        (calls'.exportItem h b.role.exportFormat)) (index : Nat) :
    K (r.launchElement ctx calls b args shared index element)
      (r.launchElement ctx calls' b args shared index element) := by
  refine hK.andThen (hK.renderValue calls' element hexport) fun text =>
    hK.andThen (hK.script _) fun script => ?_
  refine hK.andThen (hK.launch script) fun launched => ?_
  rcases launched with kind | ⟨job, outcome⟩
  · exact hK.throw _
  · exact hK.andThen (hK.print _) fun _ => hK.pure _

theorem runArray {b : Binding} {args : Args} {shared : Dict String}
    (hexport : ∀ h ∈ Value.entryHandles args,
      K (calls.exportItem h b.role.exportFormat)
        (calls'.exportItem h b.role.exportFormat)) :
    K (r.runArray ctx calls b args shared)
      (r.runArray ctx calls' b args shared) := by
  refine hK.toCongruence.runArray calls' (fun values hvalues i v hv => ?_) hK.wait
  -- the items in an element are items of the list
  obtain ⟨value, hget, hsequence⟩ := Option.bind_eq_some_iff.mp hvalues
  refine hK.launchElement calls' (fun h hh => hexport h ?_) i
  have hmem := Value.mem_handles_of_sequence? hsequence hv hh
  exact Value.mem_entryHandles.mpr ⟨b.name, value, Dict.mem_of_get? hget, hmem⟩

/-- A script's run, up to the removal of the files that it marked. -/
theorem run {C : Act Value → Act Value → Prop}
    (hclean : ∀ {x y}, K x y → C (Act.cleaning x) (Act.cleaning y))
    {args : Args} (hexport : ∀ b ∈ r.prototype.bindings.values,
      ∀ h ∈ Value.entryHandles args,
      K (calls.exportItem h b.role.exportFormat)
        (calls'.exportItem h b.role.exportFormat)) :
    C (r.run ctx calls args) (r.run ctx calls' args) := by
  -- the items that are exported are those of the arguments after the files were
  -- named, and these are the same
  refine hclean (hK.andThen (hK.name _ _ _) fun sentinel =>
    hK.bind (hK.nameFiles _ _ _) fun named hnamed => ?_)
  have hexports : ∀ b ∈ r.prototype.bindings.values, ∀ h ∈ Value.entryHandles named,
      K (calls.exportItem h b.role.exportFormat)
        (calls'.exportItem h b.role.exportFormat) := fun b hb h hh =>
    hexport b hb h (Value.mem_entryHandles_insert
      (ScriptRunner.entryHandles_of_nameFiles hnamed hh))
  refine hK.andThen (hK.validate r named) fun _ =>
    hK.andThen (hK.renderShared calls' hexports) fun shared => ?_
  split
  · exact hK.runSingle named shared sentinel
  · next b hb =>
    obtain ⟨name, -, hget⟩ := Option.bind_eq_some_iff.mp hb
    exact hK.runArray calls' (hexports b (Dict.mem_values_of_get? hget))

end Scripting

namespace Running

variable {K : ∀ {α : Type}, Act α → Act α → Prop} {ctx : Context}
  (hK : Running ctx @K) {calls : Calls} (calls' : Calls)

include hK

theorem scripting (r : ScriptRunner) : Scripting ctx r @K where
  toCongruence := hK.toCongruence
  name := hK.name
  script := hK.script r
  launch _ := hK.launch _
  print := hK.print
  wait := hK.wait

variable (hcalls : ∀ h request, K (calls h request) (calls' h request))

include hcalls

theorem exportItem (h : Handle) (format : String) :
    K (calls.exportItem h format) (calls'.exportItem h format) :=
  hK.andThen (hcalls h _) fun _ => hK.andThen (hK.track _) fun _ => hK.pure _

theorem computation (site : Site) (args : Args) (c : Computation) :
    K (c.run ctx calls site args) (c.run ctx calls' site args) := by
  cases c with
  | native requirements body => exact hK.program calls' hcalls _
  | external program =>
    exact hK.runExternal calls' (C := K) hK.cleaning (fun l _ =>
      hK.launch l) site fun h _ => hK.exportItem calls' hcalls h _

/-- The runs of a leaf whose requests are related. -/
theorem leaf (l : Leaf) (args : Args) :
    K (l.run ctx calls args) (l.run ctx calls' args) := by
  cases l with
  | module r =>
    exact hK.runModule calls' fun site =>
      hK.computation calls' hcalls site args _
  | script r =>
    exact (hK.scripting r).run calls' (C := K) hK.cleaning fun _ _ h _ =>
      hK.exportItem calls' hcalls h _

/-- The runs of a runner whose requests are related. -/
theorem runner (r : Runner) (args : Args) :
    K (r.run (Leaf.run ctx calls) args) (r.run (Leaf.run ctx calls') args) :=
  hK.toCongruence.run (hK.leaf calls' hcalls) r args

end Running

end Playbook
