import Playbook.Proofs.Answer
import Playbook.Proofs.Database.Restoring

/-!
# Playbook — items made anew from their descriptions

Saving keeps the description of an item, and resuming makes an item from it.
Nothing is lost if the item that is made has the same description again. That is
so of well-formed databases, and of algorithms whose runners stand under their
own names: building an algorithm puts them there, and requests leave them there.

Main results:

* `Algorithm.toSpecs_of_build` — what the runners of an algorithm are that was
  built from a description.
* `Item.Made.restorable` — every item that was made from a description and then
  changed is restorable.
* `Algorithm.Keyed.toSpec_of_build`, `Database.WellFormed.toSpec_ofSpec` —
  restorable items have the description that what is made from it has.
-/

namespace Playbook

open Effect

/-! ## Algorithms -/

namespace Algorithm

/-- The descriptions of runners under their names; a later one takes the place
of an earlier one. -/
def keyed (specs : List RunnerSpec) : Dict RunnerSpec :=
  Dict.ofList (specs.map fun s => (s.name, s))

/-- Building runners one after the other puts each under its name. -/
theorem toSpecs_foldlM {ctx : Context} {name : String} {specs : List RunnerSpec}
    {actions actions' : Dict Runner} {w w' : World}
    (h : (specs.foldlM (fun (actions : Dict Runner) action => do
      let runner ← Act.within (.loadAlgorithm name) (Runner.build ctx action)
      return actions.insert action.name runner) actions).run w =
        (.ok actions', w')) :
    actions'.mapValues Runner.toSpec =
      (actions.mapValues Runner.toSpec).extend
        (specs.map fun s => (s.name, s)) := by
  -- by induction on the descriptions, over whatever runners are there already
  induction specs generalizing actions w with
  | nil =>
    cases h
    rfl
  | cons spec specs ih =>
    rw [List.foldlM_cons] at h
    obtain ⟨_, w₁, hfirst, h⟩ := run_bind_ok h
    obtain ⟨runner, w₂, hbuild, hinsert⟩ := run_bind_ok hfirst
    cases hinsert
    have hspec := Runner.toSpec_of_build spec (Act.run_within_ok hbuild)
    rw [ih h, Dict.mapValues_insert, hspec]
    rfl

/-- What an algorithm is that was built from a description. -/
theorem toSpecs_of_build {ctx : Context} {spec : AlgorithmSpec} {a : Algorithm}
    {w w' : World} (h : (build ctx spec).run w = (.ok a, w')) :
    a.actions.mapValues Runner.toSpec = keyed spec.actions ∧
      a.name = spec.name ∧ a.config = spec.config ∧
      (if a.pinned then some a.workdir else none) = spec.workdir := by
  obtain ⟨actions, w₁, hactions, h⟩ := run_bind_ok h
  cases h
  refine ⟨toSpecs_foldlM hactions, rfl, rfl, ?_⟩
  cases hdir : spec.workdir with
  | none => rfl
  | some dir => rfl

/-- Every runner stands under the name of its description, and no two stand
under one name. -/
structure Keyed (a : Algorithm) : Prop where
  distinct : a.actions.Distinct
  names : ∀ entry ∈ a.actions.mapValues Runner.toSpec, entry.2.name = entry.1

theorem keyed_of_build {ctx : Context} {spec : AlgorithmSpec} {a : Algorithm}
    {w w' : World} (h : (build ctx spec).run w = (.ok a, w')) : a.Keyed := by
  obtain ⟨hactions, -⟩ := toSpecs_of_build h
  constructor
  · have hdistinct : Dict.Distinct (a.actions.mapValues Runner.toSpec) :=
      hactions ▸ Dict.distinct_ofList _
    exact Dict.distinct_mapValues.mp hdistinct
  · intro entry hentry
    rw [hactions] at hentry
    rcases Dict.mem_extend hentry with hnil | hmem
    · cases hnil
    · obtain ⟨s, -, rfl⟩ := List.mem_map.mp hmem
      rfl

theorem SameSpec.keyed {a b : Algorithm} (h : a.SameSpec b)
    (ha : a.Keyed) : b.Keyed := by
  constructor
  · have hdistinct : Dict.Distinct (b.actions.mapValues Runner.toSpec) := by
      rw [h.actions]
      exact Dict.distinct_mapValues.mpr ha.distinct
    exact Dict.distinct_mapValues.mp hdistinct
  · rw [h.actions]
    exact ha.names

/-- The runners of a description, keyed by their names, are those
of the algorithm. -/
theorem Keyed.keyed_toSpec {a : Algorithm} (ha : a.Keyed) :
    keyed a.toSpec.actions = a.actions.mapValues Runner.toSpec := by
  have hself : a.toSpec.actions.map (fun s => (s.name, s)) =
      a.actions.mapValues Runner.toSpec := by
    show (a.actions.values.map Runner.toSpec).map (fun s => (s.name, s)) = _
    rw [← Dict.values_mapValues]
    unfold Dict.values
    rw [List.map_map]
    refine (List.map_congr_left fun entry hentry => ?_).trans (List.map_id _)
    exact Prod.ext (ha.names entry hentry) rfl
  unfold keyed
  rw [hself]
  exact Dict.ofList_eq_self (Dict.distinct_mapValues.mpr ha.distinct)

/-- An algorithm that is built from the description of a keyed one has
that description. -/
theorem Keyed.toSpec_of_build {a b : Algorithm} (ha : a.Keyed) {ctx : Context}
    {w w' : World} (h : (build ctx a.toSpec).run w = (.ok b, w')) :
    b.toSpec = a.toSpec := by
  obtain ⟨hactions, hname, hconfig, hworkdir⟩ := toSpecs_of_build h
  have hvalues : b.actions.values.map Runner.toSpec =
      a.actions.values.map Runner.toSpec := by
    rw [← Dict.values_mapValues, hactions, ha.keyed_toSpec, Dict.values_mapValues]
  unfold Algorithm.toSpec at hworkdir ⊢
  rw [hname, hvalues, hconfig, hworkdir]
  rfl

end Algorithm

/-! ## Items -/

namespace Item

/-- The items that can be made anew from their descriptions. -/
def Restorable : Item → Prop
  | database d => d.WellFormed
  | algorithm a => a.Keyed
  | plain _ => False

/-- Databases and algorithms that were made from a description and then changed. -/
inductive Made : Item → Prop
  | database (exportDir : String) (spec : DatabaseSpec) :
      Made (database (Database.ofSpec exportDir spec))
  | algorithm {ctx : Context} {spec : AlgorithmSpec} {a : Algorithm}
      {w w' : World} :
      (Algorithm.build ctx spec).run w = (.ok a, w') → Made (algorithm a)
  | after {i j : Item} : Made i → i.Follows j → Made j

theorem Follows.restorable {i j : Item} (h : i.Follows j) (hi : i.Restorable) :
    j.Restorable := by
  cases h with
  | database h => exact h.wellFormed hi
  | algorithm h => exact h.keyed hi
  | plain _ => exact hi

/-- Every item that was made from a description and then changed is restorable. -/
theorem Made.restorable {i : Item} (h : i.Made) : i.Restorable := by
  induction h with
  | database exportDir spec => exact Database.wellFormed_ofSpec exportDir spec
  | algorithm hbuild => exact Algorithm.keyed_of_build hbuild
  | after _ hfollows ih => exact hfollows.restorable ih

theorem Follows.name_eq {i j : Item} (h : i.Follows j) : j.name = i.name := by
  cases h with
  | database h => exact h.sameFrame.name
  | algorithm h => exact h.name
  | plain h => exact h

theorem name_adopt (dir : String) (i : Item) :
    (i.adopt dir).name = i.name := (follows_adopt dir i).name_eq

/-- The working directory that a registry gives is not saved with the item. -/
theorem state_adopt (dir : String) {i : Item} (h : i.Restorable) :
    (i.adopt dir).state = i.state := by
  cases i with
  | database d => rfl
  | algorithm a =>
    have hfollows := follows_adopt dir (algorithm a)
    cases hfollows with
    | algorithm hsame => exact congrArg ItemState.algorithm hsame.toSpec
  | plain p => cases h

end Item

end Playbook
