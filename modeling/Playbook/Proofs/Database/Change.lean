import Playbook.Proofs.Database.Writing

/-!
# Playbook — changes of databases and their invariant

`Change` lists everything that can happen to a database after it was made from
its description; a change may fail half-way. What holds over every `set` of a
value holds over every change that writes values (`along_…`), so an invariant is
checked for `set`, for `clear` and for `merge` only.

Main results:

* `wellFormed_ofSpec`, `WellFormed.after` — columns and ids are distinct and the
  declared columns come first, in every database that changes can lead to.
* `Reachable.wellFormed` — the same, for reachable databases.
-/

namespace Playbook.Database

open Effect

/-! ## Changes -/

/-- What can be done to a database. -/
inductive Change where
  | addEntry (id : String) (values : Dict Json)
  | addEntries (ids : List String) (values : Dict (List Json))
  | updateEntry (id : String) (values : Dict Json)
  | updateEntries (entries : List String) (values : Args)
  | merge (other : Database)
  | clear
  | move (dir : String)

/-- Carries out a change. -/
def Change.edit : Change → Edit Unit
  | addEntry id values => Database.addEntry id values
  | addEntries ids values => (fun _ => ()) <$> Database.addEntries ids values
  | updateEntry id values => Database.updateEntry id values
  | updateEntries entries values => Database.updateEntries entries values
  | merge other => modify (·.merge other)
  | clear => modify Database.clear
  | move dir => modify fun d => { d with workdir := dir }

/-- The database that a change leaves, whether or not it fails. -/
def Change.after (c : Change) (d : Database) : Database := (c.edit.run d).2

/-- Changes, none or several, lead from one database to another. -/
inductive Leads (d : Database) : Database → Prop
  | refl : Leads d d
  | after {e : Database} (c : Change) : Leads d e → Leads d (c.after e)

theorem Leads.trans {a b c : Database} (h : Leads a b) (k : Leads b c) :
    Leads a c := by
  induction k with
  | refl => exact h
  | after c _ ih => exact ih.after c

theorem leads_addEntries (d : Database) (ids : List String)
    (values : Dict (List Json)) :
    Leads d ((addEntries ids values).run d).2 := by
  have h := Leads.refl.after (d := d) (.addEntries ids values)
  unfold Change.after Change.edit at h
  rw [run_map] at h
  rcases hrun : (addEntries ids values).run d with ⟨failure | ids', e⟩ <;>
    rw [hrun] at h <;> exact h

/-- The databases that a description and changes lead to. -/
def Reachable (d : Database) : Prop :=
  ∃ exportDir spec, Leads (ofSpec exportDir spec) d

/-! ## What holds over writing holds over changes -/

section Along

variable {R : Database → Database → Prop} (hR : Chains R)

include hR in
theorem along_refuse {α : Type} (f : DatabaseFault) :
    Along R (refuse f : Edit α) := fun d => hR.refl d

variable (hset : ∀ d id column value, R d (Database.set d id column value))

include hR hset

theorem along_addEntry (id : String) (values : Dict Json) :
    Along R (addEntry id values) := by
  induction values with
  | nil => exact Along.pure hR ()
  | cons entry rest ih =>
    refine Along.bind hR (fun d => ?_) fun _ => ih
    rw [run_writeCell]
    split
    · exact hset ..
    · exact hR.refl d

theorem along_updateEntry (id : String) (values : Dict Json) :
    Along R (updateEntry id values) := by
  refine Along.bind hR (Along.get hR) fun d => ?_
  split
  · exact along_refuse hR _
  · exact along_addEntry hR hset id values

theorem along_addRows (values : Dict (List Json)) (i : Nat) (ids : List String) :
    Along R (addRows values i ids) := by
  induction ids generalizing i with
  | nil => exact Along.pure hR ()
  | cons id rest ih =>
    exact Along.bind hR (along_addEntry hR hset _ _) fun _ => ih _

theorem along_addEntries (ids : List String) (values : Dict (List Json)) :
    Along R (addEntries ids values) := by
  have hrows : Along R (addRows values 0 ids >>= fun _ => pure ids) :=
    Along.bind hR (along_addRows hR hset _ _ _) fun _ => Along.pure hR ids
  exact Along.ite (Along.bind hR (along_refuse hR _) fun _ => hrows) hrows

theorem along_updateRows (values : Dict (List Json)) (i : Nat) (ids : List String) :
    Along R (updateRows values i ids) := by
  induction ids generalizing i with
  | nil => exact Along.pure hR ()
  | cons id rest ih =>
    exact Along.bind hR (along_updateEntry hR hset _ _) fun _ => ih _

theorem along_updateEntries (entries : List String) (args : Args) :
    Along R (updateEntries entries args) := by
  refine Along.bind hR (Along.get hR) fun d =>
    Along.bind hR (Along.liftM hR _) fun values => ?_
  split
  · exact along_refuse hR _
  · exact along_updateRows hR hset _ _ _

/-- A relation that holds over `set`, over clearing, over merging and over
moving holds over every change. -/
theorem along_edit (hclear : ∀ d, R d d.clear) (hmerge : ∀ d e, R d (d.merge e))
    (hmove : ∀ (d : Database) dir, R d { d with workdir := dir }) (c : Change) :
    Along R c.edit := by
  cases c with
  | addEntry id values => exact along_addEntry hR hset id values
  | addEntries ids values => exact Along.map (along_addEntries hR hset ids values)
  | updateEntry id values => exact along_updateEntry hR hset id values
  | updateEntries entries values => exact along_updateEntries hR hset entries values
  | merge other => exact Along.modify fun d => hmerge d other
  | clear => exact Along.modify hclear
  | move dir => exact Along.modify fun d => hmove d dir

end Along

/-! ## The shape of a database never changes -/

theorem sameFrame_chains : Chains SameFrame := ⟨SameFrame.refl, SameFrame.trans⟩

theorem sameFrame_clear (d : Database) : SameFrame d d.clear :=
  ⟨rfl, rfl, rfl, rfl, by simp [clear]⟩

theorem sameFrame_merge (d e : Database) : SameFrame d (d.merge e) := by
  refine ⟨rfl, rfl, rfl, rfl, ?_⟩
  simp [merge, Dict.keys, List.map_map, Function.comp_def]

theorem sameFrame_after (d : Database) (c : Change) : SameFrame d (c.after d) :=
  along_edit sameFrame_chains sameFrame_set sameFrame_clear sameFrame_merge
    (fun _ _ => ⟨rfl, rfl, rfl, rfl, rfl⟩) c d

theorem Leads.sameFrame {d e : Database} (h : Leads d e) : SameFrame d e := by
  induction h with
  | refl => exact .refl d
  | after c _ ih => exact ih.trans (sameFrame_after _ c)

/-! ## Well-formed databases -/

/-- Columns and the ids in each of them are distinct, and the columns that the
description declares come first. -/
structure WellFormed (d : Database) : Prop where
  columns : d.columns.Distinct
  ids : ∀ column values, (column, values) ∈ d.columns → Dict.Distinct values
  declared : (emptyColumns d.toSpec).keys <+: d.columns.keys

theorem SameFrame.emptyColumns {d e : Database} (h : SameFrame d e) :
    Database.emptyColumns e.toSpec = Database.emptyColumns d.toSpec := by
  unfold Database.emptyColumns toSpec DatabaseSpec.variableNames
  rw [h.variableSpecs, h.storages]

/-- Only the ids are left to check where the frame is kept. -/
theorem WellFormed.of_sameFrame {d e : Database} (hd : d.WellFormed)
    (h : SameFrame d e) (hids : ∀ column values, (column, values) ∈ e.columns →
      Dict.Distinct values) : e.WellFormed := by
  refine ⟨(Dict.distinct_congr h.keys).mpr hd.columns, hids, ?_⟩
  · rw [h.keys, h.emptyColumns]
    exact hd.declared

theorem WellFormed.set {d : Database} (hd : d.WellFormed) (id column : String)
    (value : Json) :
    (d.set id column value).WellFormed := by
  refine hd.of_sameFrame (sameFrame_set ..) ?_
  unfold Database.set
  split
  · next values hv =>
    intro c vals hmem
    rcases Dict.mem_insert hmem with heq | hold
    · cases heq
      exact (hd.ids _ _ (Dict.mem_of_get? hv)).insert id value
    · exact hd.ids c vals hold
  · exact hd.ids

theorem WellFormed.setRow {d : Database} (hd : d.WellFormed) (id : String)
    (values : Dict Json) :
    (d.setRow id values).WellFormed := by
  induction values generalizing d with
  | nil => exact hd
  | cons entry rest ih => exact ih (hd.set ..)

theorem WellFormed.setRows {d : Database} (hd : d.WellFormed)
    (values : Dict (List Json)) (i : Nat) (ids : List String) :
    (d.setRows values i ids).WellFormed := by
  induction ids generalizing d i with
  | nil => exact hd
  | cons id rest ih => exact ih (hd.setRow ..) (i + 1)

theorem WellFormed.clear {d : Database} (hd : d.WellFormed) :
    d.clear.WellFormed := by
  refine hd.of_sameFrame (sameFrame_clear d) fun c vals hmem => ?_
  obtain ⟨entry, -, heq⟩ := List.mem_map.mp hmem
  cases heq
  exact List.nodup_nil

theorem WellFormed.merge {d : Database} (hd : d.WellFormed) (e : Database) :
    (d.merge e).WellFormed := by
  refine hd.of_sameFrame (sameFrame_merge d e) fun c vals hmem => ?_
  obtain ⟨⟨column, values⟩, hold, heq⟩ := List.mem_map.mp hmem
  have hvalues := hd.ids column values hold
  cases heq
  split
  · exact hvalues.extend _
  · exact hvalues

theorem WellFormed.after {d : Database} (hd : d.WellFormed) (c : Change) :
    (c.after d).WellFormed :=
  -- being well-formed, read as a relation between the databases before and after
  along_edit (R := fun d e => d.WellFormed →
    e.WellFormed) ⟨fun _ => id, fun h k hd => k (h hd)⟩
    (fun _ id column value hd => hd.set id column value) (fun _ => WellFormed.clear)
      (fun _ e hd => hd.merge e) (fun _ _ hd =>
        ⟨hd.columns, hd.ids, hd.declared⟩) c d hd

/-! ## Databases made from descriptions -/

theorem values_of_mem_emptyColumns {spec : DatabaseSpec} {column : String}
    {values : Dict Json} (h : (column, values) ∈ emptyColumns spec) :
    values = [] := by
  rcases Dict.mem_extend h with hnil | hmem
  · cases hnil
  · obtain ⟨name, -, heq⟩ := List.mem_map.mp hmem
    cases heq
    rfl

theorem keys_prefix_fillColumn (columns : Dict (Dict Json))
    (entry : String × Dict Json) :
    columns.keys <+: (fillColumn columns entry).keys := Dict.keys_prefix_insert ..

/-- Filling in contents keeps columns and ids distinct and the
columns in their places. -/
theorem foldl_fillColumn (data : Dict (Dict Json)) {columns : Dict (Dict Json)}
    (hc : columns.Distinct)
    (hids : ∀ column values, (column, values) ∈ columns →
      Dict.Distinct values) :
    Dict.Distinct (data.foldl fillColumn columns) ∧
    (∀ column values, (column, values) ∈ data.foldl fillColumn columns →
      Dict.Distinct values) ∧
    columns.keys <+: Dict.keys (data.foldl fillColumn columns) := by
  -- by induction on the contents, over whatever columns have been filled so far
  induction data generalizing columns with
  | nil => exact ⟨hc, hids, List.prefix_refl _⟩
  | cons entry rest ih =>
    have hids' : ∀ column values, (column, values) ∈ fillColumn columns entry →
        Dict.Distinct values := by
      intro column values hmem
      rcases Dict.mem_insert hmem with heq | hold
      · cases heq
        refine Dict.Distinct.extend ?_ _
        cases hv : columns.get? entry.1 with
        | none => exact List.nodup_nil
        | some values => exact hids _ _ (Dict.mem_of_get? hv)
      · exact hids _ _ hold
    have hc' : Dict.Distinct (fillColumn columns entry) := hc.insert _ _
    obtain ⟨h₁, h₂, h₃⟩ := ih hc' hids'
    exact ⟨h₁, h₂, (keys_prefix_fillColumn columns entry).trans h₃⟩

theorem wellFormed_ofSpec (exportDir : String) (spec : DatabaseSpec) :
    (ofSpec exportDir spec).WellFormed := by
  have hids : ∀ column values, (column, values) ∈ emptyColumns spec →
      Dict.Distinct values := by
    intro column values hmem
    rw [values_of_mem_emptyColumns hmem]
    exact List.nodup_nil
  obtain ⟨h₁, h₂, h₃⟩ := foldl_fillColumn spec.data (Dict.distinct_ofList _) hids
  exact ⟨h₁, h₂, h₃⟩

theorem Leads.wellFormed {d e : Database} (h : Leads d e) (hd : d.WellFormed) :
    e.WellFormed := by
  induction h with
  | refl => exact hd
  | after c _ ih => exact ih.after c

theorem Reachable.wellFormed {d : Database} (h : d.Reachable) : d.WellFormed := by
  obtain ⟨exportDir, spec, hleads⟩ := h
  exact hleads.wellFormed (wellFormed_ofSpec exportDir spec)

/-- Declared columns exist, storages among them. -/
theorem WellFormed.laid {d : Database} (hd : d.WellFormed) : d.Laid := by
  intro column hcolumn
  refine hd.declared.subset (Dict.mem_keys_extend.mpr (Or.inr ?_))
  simp only [Dict.keys, List.map_map, Function.comp_def, List.map_id',
    List.mem_append]
  exact Or.inr hcolumn

end Playbook.Database
