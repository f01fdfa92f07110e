import Playbook.Registry
import Playbook.Proofs.Item

/-!
# Playbook — registries and their items

A registry names items that are in the world. Whatever requests do, every item
stays where it is and only follows from what it was (`World.Carries`), so what a
registry says about its items stays true until an item is added to it; and an
item that is added has a place of its own and replaces nothing but a name.

Main results:

* `World.lasting_carries` — every request carries the items along.
* `Registry.run_add_ok` — what adding an item does.
* `Registry.Reached.sound` — in every registry that was made and changed, each
  name stands for a restorable item of that name.
-/

namespace Playbook

open Effect

/-! ## Items in the world -/

namespace World

/-- Every item is where it was, as itself or as something that follows from it. -/
def Carries (w w' : World) : Prop :=
  ∀ slot i, w.itemAt slot = some i → ∃ j, w'.itemAt slot = some j ∧ i.Follows j

theorem carries_of_itemAt {w w' : World}
    (h : ∀ slot i, w.itemAt slot = some i → w'.itemAt slot = some i) :
    Carries w w' := fun slot i hi => ⟨i, h slot i hi, .refl i⟩

theorem carries_of_prefix {w w' : World} (h : w.slots <+: w'.slots) :
    Carries w w' := by
  refine carries_of_itemAt fun slot i hi => ?_
  obtain ⟨more, hmore⟩ := h
  obtain ⟨s, hs, hitem⟩ := Option.map_eq_some_iff.mp hi
  obtain ⟨hlt, -⟩ := List.getElem?_eq_some_iff.mp hs
  unfold itemAt
  rw [← hmore, List.getElem?_append_left hlt, hs]
  exact congrArg some hitem

theorem carries_chains : Chains Carries where
  refl _ := carries_of_itemAt fun _ _ => id
  trans h k slot i hi := by
    obtain ⟨j, hj, hij⟩ := h slot i hi
    obtain ⟨l, hl, hjl⟩ := k slot j hj
    exact ⟨l, hl, hij.trans hjl⟩

/-- Every request carries the items along, and so does whatever else a run does. -/
theorem lasting_carries : Lasting Item.Follows Carries where
  toChains := carries_chains
  side _ _ _ _ _ _ _ := carries_of_itemAt fun _ _ => id
  event _ _ _ _ := carries_of_itemAt fun _ _ => id
  launched _ _ _ _ := carries_of_itemAt fun _ _ => id
  registered _ _ _ _ := carries_of_itemAt fun _ _ => id
  lock w w' slot _ h other i hi := by
    -- neither locking nor unlocking moves an item
    obtain ⟨j, hj, hij⟩ := h other i ((itemAt_setLocked w slot other true).trans hi)
    exact ⟨j, (itemAt_setLocked w' slot other false).trans hj, hij⟩
  put w slot old new hold hfollows := by
    -- the other items are where they were, and the one that was
    -- replaced is followed
    intro other i hi
    by_cases hslot : slot = other
    · subst hslot
      rw [hold] at hi
      cases hi
      exact ⟨new, itemAt_setItem_self hold, hfollows⟩
    · refine ⟨i, ?_, .refl i⟩
      rw [itemAt_setItem, if_neg hslot, hi]

end World

namespace Registry

/-! ## Adding items -/

/-- What adding an item does, if it succeeds: the item gets a place of its own
and stands under its name. -/
theorem run_add_ok {r r' : Registry} {i : Item} {handle : Handle} {w w' : World}
    (h : (r.add i).run w = (.ok (handle, r'), w')) :
    handle = ⟨i.name, w.slots.length⟩ ∧
      w'.slots = w.slots ++ [⟨i.adopt r.workdir, false⟩] ∧
      r' = { r with items := r.items.insert i.name handle } := by
  obtain ⟨⟨adopted, failure⟩, w₁, hadopt, h⟩ := run_bind_ok h
  obtain ⟨hitem, rfl⟩ := Act.run_overDisk_ok hadopt
  have hadopted : i.adopt r.workdir = adopted :=
    (Item.run_setWorkdir ..).symm.trans (congrArg Prod.fst hitem)
  obtain ⟨_, w₂, hcheck, h⟩ := run_bind_ok h
  have hslots : w₂.slots = w.slots := by
    cases failure with
    | none =>
      cases hcheck
      rfl
    | some failure => cases hcheck
  obtain ⟨added, w₃, hadd, h⟩ := run_bind_ok h
  cases hadd
  -- replacing an item of the name is worth a warning, and nothing else
  have hresult : w'.slots = (w₂.addItem adopted).2.slots ∧ (handle, r') =
      ((w₂.addItem adopted).1,
        { r with items := r.items.insert adopted.name (w₂.addItem adopted).1 }) := by
    split at h
    · obtain ⟨_, w₄, hwarn, h⟩ := run_bind_ok h
      cases hwarn
      cases h
      exact ⟨rfl, rfl⟩
    · cases h
      exact ⟨rfl, rfl⟩
  obtain ⟨hslots', hpair⟩ := hresult
  cases hpair
  have hname : adopted.name = i.name := hadopted ▸ Item.name_adopt ..
  rw [hslots']
  unfold World.addItem
  rw [hslots, hadopted, hname]
  exact ⟨rfl, rfl, rfl⟩

theorem carries_add {r r' : Registry} {i : Item} {handle : Handle} {w w' : World}
    (h : (r.add i).run w = (.ok (handle, r'), w')) : w.Carries w' :=
  World.carries_of_prefix ((run_add_ok h).2.1 ▸ List.prefix_append _ _)

/-! ## Sound registries -/

/-- Names are distinct, and each stands for a restorable item of that name. -/
structure Sound (r : Registry) (w : World) : Prop where
  distinct : r.items.Distinct
  items : ∀ name handle, (name, handle) ∈ r.items →
    ∃ i, w.itemAt handle.slot = some i ∧ i.name = name ∧ i.Restorable

theorem Sound.carried {r : Registry} {w w' : World} (h : r.Sound w)
    (hcarries : w.Carries w') : r.Sound w' := by
  refine ⟨h.distinct, fun name handle hmem => ?_⟩
  obtain ⟨i, hi, hname, hrestorable⟩ := h.items name handle hmem
  obtain ⟨j, hj, hfollows⟩ := hcarries _ _ hi
  exact ⟨j, hj, hfollows.name_eq.trans hname, hfollows.restorable hrestorable⟩

theorem Sound.add {r r' : Registry} {i : Item} {handle : Handle} {w w' : World}
    (hr : r.Sound w) (hi : i.Restorable)
    (h : (r.add i).run w = (.ok (handle, r'), w')) : r'.Sound w' := by
  have hold := hr.carried (carries_add h)
  obtain ⟨rfl, hslots, rfl⟩ := run_add_ok h
  refine ⟨hold.distinct.insert _ _, fun name found hmem => ?_⟩
  rcases Dict.mem_insert hmem with heq | hthere
  · cases heq
    refine ⟨i.adopt r.workdir, ?_, Item.name_adopt ..,
      (Item.follows_adopt _ _).restorable hi⟩
    unfold World.itemAt
    rw [hslots, List.getElem?_concat_length]
    rfl
  · exact hold.items name found hthere

/-- Making an empty registry leaves the items of the world alone. -/
theorem run_create_ok {dir : String} {r : Registry} {w w' : World}
    (h : (create dir).run w = (.ok r, w')) :
    r = { workdir := dir } ∧ w'.slots = w.slots := by
  obtain ⟨_, w₁, hmake, h⟩ := run_bind_ok h
  have hwithin := Act.run_within_ok hmake
  cases h
  rw [Act.run_onDisk] at hwithin
  obtain ⟨-, rfl⟩ := Prod.mk.inj hwithin
  exact ⟨rfl, rfl⟩

/-- Adding the algorithm of a description builds it first. -/
theorem run_addAlgorithm_ok {ctx : Context} {r r' : Registry}
    {spec : AlgorithmSpec} {handle : Handle} {w w' : World}
    (h : (r.addAlgorithm ctx spec).run w = (.ok (handle, r'), w')) :
    ∃ a w₁, (Algorithm.build ctx spec).run w = (.ok a, w₁) ∧ w₁.slots = w.slots ∧
      (r.add (.algorithm a)).run w₁ = (.ok (handle, r'), w') := by
  obtain ⟨a, w₁, hbuild, hadd⟩ := run_bind_ok h
  refine ⟨a, w₁, hbuild, ?_, hadd⟩
  have hslots := quiet_slots.buildAlgorithm ctx spec w
  rwa [hbuild] at hslots

/-- The two halves of making a registry: an empty one, and the items added to it
one after the other. -/
theorem run_ofProject_ok {ctx : Context} {spec : ProjectSpec} {r : Registry}
    {w w' : World} (h : (ofProject ctx spec).run w = (.ok r, w')) :
    ∃ filled w₁ w₂, w₁.slots = w.slots ∧
      (spec.datasets.foldlM (fun r d => Prod.snd <$> addDatabase ctx r d)
        { workdir := Path.expandHome ctx.home spec.workdir }).run w₁ =
          (.ok filled, w₂) ∧
      (spec.algorithms.foldlM (fun r a => Prod.snd <$> addAlgorithm ctx r a)
        filled).run w₂ = (.ok r, w') := by
  obtain ⟨start, w₁, hcreate, h⟩ := run_bind_ok h
  obtain ⟨filled, w₂, hdatasets, halgorithms⟩ := run_bind_ok h
  obtain ⟨rfl, hslots⟩ := run_create_ok hcreate
  exact ⟨filled, w₁, w₂, hslots, hdatasets, halgorithms⟩

/-- What is true of an empty registry, whatever the rest of the world does to
it, and stays true when an item is added that was made from a description, is
true of the registry of a project. -/
theorem ofProject_rule {ctx : Context} {spec : ProjectSpec}
    {P : Registry → World → Prop}
    (hempty : ∀ w, P { workdir := Path.expandHome ctx.home spec.workdir } w)
    (haside : ∀ {r w w'}, w'.slots = w.slots → P r w → P r w')
    (hadd : ∀ {r r' i handle w w'}, P r w → i.Made →
      (r.add i).run w = (.ok (handle, r'), w') → P r' w')
    {r : Registry} {w w' : World}
    (h : (ofProject ctx spec).run w = (.ok r, w')) : P r w' := by
  obtain ⟨filled, w₁, w₂, -, hdatasets, halgorithms⟩ := run_ofProject_ok h
  -- the property carries both folds
  have hfilled : P filled w₂ := by
    refine foldlM_ok (P := fun _ r w => P r w) ?_ (hempty w₁) hdatasets
    intro done d rest r w r' w' _ hr hrun
    obtain ⟨⟨handle, r''⟩, hone, rfl⟩ := run_map_ok hrun
    exact hadd hr (.database ctx.settings.exportDir d) hone
  refine foldlM_ok (P := fun _ r w => P r w) ?_ hfilled halgorithms
  intro done a rest r w r' w' _ hr hrun
  obtain ⟨⟨handle, r''⟩, hone, rfl⟩ := run_map_ok hrun
  obtain ⟨built, w₁, hbuild, hslots, hone⟩ := run_addAlgorithm_ok hone
  exact hadd (haside hslots hr) (.algorithm hbuild) hone

/-- The registry of a project is sound, and its working directory is the
expanded one of the project. -/
theorem sound_ofProject {ctx : Context} {spec : ProjectSpec} {r : Registry}
    {w w' : World} (h : (ofProject ctx spec).run w = (.ok r, w')) :
    r.Sound w' ∧ r.workdir = Path.expandHome ctx.home spec.workdir := by
  refine ofProject_rule (P := fun r w => r.Sound w ∧
    r.workdir = Path.expandHome ctx.home spec.workdir) ?_ ?_ ?_ h
  · intro w
    exact ⟨⟨List.nodup_nil, by simp⟩, rfl⟩
  · rintro r w w' hslots ⟨hr, hdir⟩
    exact ⟨hr.carried (World.carries_of_prefix (hslots ▸ List.prefix_refl _)), hdir⟩
  · rintro r r' i handle w w' ⟨hr, hdir⟩ hmade hadd
    refine ⟨hr.add hmade.restorable hadd, ?_⟩
    obtain ⟨-, -, rfl⟩ := run_add_ok hadd
    exact hdir

/-! ## Registries that were made and changed -/

/-- The registries that are made from projects and changed, with the worlds that
their items are in. What happens aside may add items to the world, but touches
none that is there; a failed request or addition leaves the registry. -/
inductive Reached (ctx : Context) : Registry → World → Prop
  | made {spec : ProjectSpec} {r : Registry} {w w' : World} :
      (ofProject ctx spec).run w = (.ok r, w') → Reached ctx r w'
  | added {r r' : Registry} {i : Item} {handle : Handle} {w w' : World} :
      Reached ctx r w → i.Made → (r.add i).run w = (.ok (handle, r'), w') →
      Reached ctx r' w'
  | asked {r : Registry} {w : World} (now : Context) (h : Handle)
      (request : Request) :
      Reached ctx r w → Reached ctx r ((Calls.all now h request).run w).2
  | edited {r : Registry} {w : World} {slot : Nat} {d : Database}
      (c : Database.Change) :
      Reached ctx r w → w.itemAt slot = some (.database d) →
      Reached ctx r (w.setItem slot (.database (c.after d)))
  | aside {r : Registry} {w w' : World} :
      Reached ctx r w → w.slots <+: w'.slots → Reached ctx r w'

/-- In every registry that was made and changed, each name stands for a
restorable item of that name. -/
theorem Reached.sound {ctx : Context} {r : Registry} {w : World}
    (h : r.Reached ctx w) : r.Sound w := by
  induction h with
  | made hrun => exact (sound_ofProject hrun).1
  | added _ hmade hadd ih => exact ih.add hmade.restorable hadd
  | asked now h request _ ih =>
    exact ih.carried (World.lasting_carries.all now h request _)
  | edited c _ hslot ih =>
    exact ih.carried (World.lasting_carries.put _ _ _ _ hslot
      (.database (Database.Leads.refl.after c)))
  | aside _ hslots ih => exact ih.carried (World.carries_of_prefix hslots)

/-- The working directory of a registry is the expanded one of the project that
it was made from. -/
theorem Reached.workdir {ctx : Context} {r : Registry} {w : World}
    (h : r.Reached ctx w) :
    ∃ path, r.workdir = Path.expandHome ctx.home path := by
  induction h with
  | made hrun => exact ⟨_, (sound_ofProject hrun).2⟩
  | added _ _ hadd ih =>
    obtain ⟨-, -, rfl⟩ := run_add_ok hadd
    exact ih
  | asked _ _ _ _ ih => exact ih
  | edited _ _ _ ih => exact ih
  | aside _ _ ih => exact ih

/-- A context in the home directory `home`, in which every program succeeds. -/
def quietContext (home : String) : Context :=
  { settings := {}, home
    host :=
      { start := fun _ _ disk => .ok { status := .exited 0, disk }
        elapsed := fun _ => 0
        horizon := 1 } }

end Registry

end Playbook
