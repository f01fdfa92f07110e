import Mathlib.Data.List.TakeWhile
import Playbook.Database
import Playbook.Proofs.Dict
import Playbook.Proofs.Effect

/-!
# Playbook — what writing does to a database

A write of values to an entry goes column by column and stops at the first
column that does not exist. `set` and `setRow` say what the written values make
of a database, apart from whether the write fails; the lemmas here say of each
way of writing when it fails and which values it has written by then.

Main results:

* `run_addEntry` — the values up to the first unknown column are written; with
  one, the write fails.
* `run_addRows` — rows fail at the first of them or not at all.
* `run_updateEntry`, `run_updateRows` — writes of storages, all of which are
  columns, fail before anything is written.
-/

namespace Playbook.Database

open Effect

/-! ## Cells -/

/-- The value of an entry in a column. -/
def cell (d : Database) (column id : String) :
    Option Json := (d.columns.get? column).bind (Dict.get? · id)

/-- The database with a value written; nothing changes without the column. -/
def set (d : Database) (id column : String) (value : Json) : Database :=
  match d.columns.get? column with
  | some values =>
    { d with columns := d.columns.insert column (values.insert id value) }
  | none => d

/-- The database with values of an entry written one after the other. -/
def setRow (d : Database) (id : String) (values : Dict Json) : Database :=
  values.foldl (fun d entry => d.set id entry.1 entry.2) d

@[simp] theorem setRow_nil (d : Database) (id : String) : d.setRow id [] = d := rfl

@[simp] theorem setRow_cons (d : Database) (id : String) (entry : String × Json)
    (rest : Dict Json) :
    d.setRow id (entry :: rest) = (d.set id entry.1 entry.2).setRow id rest := rfl

/-- Everything about a database but the contents of its columns. -/
structure SameFrame (d e : Database) : Prop where
  name : e.name = d.name
  variableSpecs : e.variableSpecs = d.variableSpecs
  storages : e.storages = d.storages
  exporters : e.exporters = d.exporters
  keys : e.columns.keys = d.columns.keys

theorem SameFrame.refl (d : Database) : SameFrame d d := ⟨rfl, rfl, rfl, rfl, rfl⟩

theorem SameFrame.trans {a b c : Database} (h : SameFrame a b)
    (k : SameFrame b c) : SameFrame a c :=
  ⟨k.name.trans h.name, k.variableSpecs.trans h.variableSpecs,
    k.storages.trans h.storages,
    k.exporters.trans h.exporters, k.keys.trans h.keys⟩

theorem sameFrame_set (d : Database) (id column : String) (value : Json) :
    SameFrame d (d.set id column value) := by
  unfold set
  split
  · next values hv =>
    refine ⟨rfl, rfl, rfl, rfl, ?_⟩
    rw [Dict.keys_insert, if_pos (Dict.mem_keys_of_get? hv)]
  · exact SameFrame.refl d

theorem sameFrame_setRow (d : Database) (id : String) (values : Dict Json) :
    SameFrame d (d.setRow id values) := by
  induction values generalizing d with
  | nil => exact SameFrame.refl d
  | cons entry rest ih => exact (sameFrame_set ..).trans (ih _)

theorem SameFrame.contains {d e : Database} (h : SameFrame d e) (column : String) :
    e.columns.contains column = d.columns.contains column := by
  rw [Bool.eq_iff_iff, Dict.contains_eq_true, Dict.contains_eq_true, h.keys]

/-- A written value is seen where it was written, if there is such a column, and
nowhere else. -/
theorem cell_set (d : Database) (id column : String) (value : Json)
    (column' id' : String) :
    (d.set id column value).cell column' id' =
      if column = column' ∧ id = id' ∧ column ∈ d.columns.keys then some value
          else d.cell column' id' := by
  unfold set
  split
  · next values hv =>
    have hkey := Dict.mem_keys_of_get? hv
    unfold cell
    rw [Dict.get?_insert]
    by_cases hc : column = column'
    · rw [if_pos hc, ← hc, hv]
      show Dict.get? (values.insert id value) id' = _
      rw [Dict.get?_insert]
      by_cases hi : id = id'
      · rw [if_pos hi, if_pos ⟨rfl, hi, hkey⟩]
      · rw [if_neg hi, if_neg fun h => hi h.2.1]
        rfl
    · rw [if_neg hc, if_neg fun h => hc h.1]
  · next hv => rw [if_neg fun h => Dict.get?_eq_none.mp hv h.2.2]

/-- Writing what is there changes nothing. -/
theorem set_of_cell {d : Database} {id column : String} {value : Json}
    (h : d.cell column id = some value) :
    d.set id column value = d := by
  unfold cell at h
  unfold set
  cases hv : d.columns.get? column with
  | none => rfl
  | some values =>
    rw [hv] at h
    have hvalues : Dict.insert values id value = values := Dict.insert_of_get? h
    show { d with columns := d.columns.insert column (values.insert id value) } = d
    rw [hvalues, Dict.insert_of_get? hv]

/-- Values in other columns leave a value as it is. -/
theorem cell_setRow_of_not_mem {values : Dict Json} {column : String}
    (h : column ∉ values.keys) (d : Database) (id : String) :
    (d.setRow id values).cell column id = d.cell column id := by
  induction values generalizing d with
  | nil => rfl
  | cons entry rest ih =>
    rw [Dict.keys_cons, List.mem_cons, not_or] at h
    rw [setRow_cons, ih h.2, cell_set, if_neg fun heq => h.1 heq.1.symm]

/-- Of values in distinct columns, each is seen where it was written. -/
theorem cell_setRow_of_mem {d : Database} {id : String} {values : Dict Json}
    (hd : values.Distinct) (hk : ∀ entry ∈ values, entry.1 ∈ d.columns.keys)
    {entry : String × Json} (hm : entry ∈ values) :
    (d.setRow id values).cell entry.1 id = some entry.2 := by
  induction values generalizing d with
  | nil => cases hm
  | cons head rest ih =>
    obtain ⟨hnew, hrest⟩ := List.nodup_cons.mp hd
    have hk' : ∀ e ∈ rest, e.1 ∈ (d.set id head.1 head.2).columns.keys := by
      intro e he
      rw [(sameFrame_set ..).keys]
      exact hk e (List.mem_cons_of_mem _ he)
    rcases List.mem_cons.mp hm with rfl | htail
    · rw [setRow_cons, cell_setRow_of_not_mem hnew, cell_set]
      exact if_pos ⟨rfl, rfl, hk entry (List.mem_cons_self ..)⟩
    · rw [setRow_cons]
      exact ih hrest hk' htail

/-! ## Adding an entry -/

theorem run_writeCell (d : Database) (id column : String) (value : Json) :
    (writeCell id column value).run d =
      if d.columns.contains column then (.ok (), d.set id column value)
      else (.error (fault d.name (.noColumn column)), d) := by
  unfold writeCell set Dict.contains
  dsimp only [ExceptT.run]
  cases d.columns.get? column with
  | none => rfl
  | some values => rfl

/-- The first of some values whose column does not exist. -/
def unknown? {α : Type} (d : Database) (values : Dict α) : Option String :=
  values.keys.find? fun column => !d.columns.contains column

theorem unknown?_eq_none_iff {α : Type} {d : Database} {values : Dict α} :
    d.unknown? values = none ↔ ∀ column ∈ values.keys, column ∈ d.columns.keys := by
  simp [unknown?, List.find?_eq_none, Dict.contains_eq_true]

/-- The values before the first whose column does not exist. -/
def known (d : Database) (values : Dict Json) :
    Dict Json := values.takeWhile fun entry => d.columns.contains entry.1

theorem SameFrame.unknown? {α : Type} {d e : Database} (h : SameFrame d e)
    (values : Dict α) :
    e.unknown? values = d.unknown? values := by
  unfold Database.unknown?
  simp only [h.contains]

theorem SameFrame.known {d e : Database} (h : SameFrame d e) (values : Dict Json) :
    e.known values = d.known values := by
  unfold Database.known
  simp only [h.contains]

/-- The values up to the first unknown column are written; with
one, the write fails. -/
theorem run_addEntry (d : Database) (id : String) (values : Dict Json) :
    (addEntry id values).run d =
      match d.unknown? values with
      | none => (.ok (), d.setRow id values)
      | some column => (.error (fault d.name (.noColumn column)),
          d.setRow id (d.known values)) := by
  induction values generalizing d with
  | nil => rfl
  | cons entry rest ih =>
    obtain ⟨column, value⟩ := entry
    rw [addEntry, run_bind, run_writeCell]
    by_cases hc : d.columns.contains column = true
    -- the value is written, which changes neither the columns that there are
    -- nor the name in a fault
    · have hframe := sameFrame_set d id column value
      rw [if_pos hc]
      show (addEntry id rest).run (d.set id column value) = _
      rw [ih, hframe.unknown?, hframe.known, hframe.name]
      have hu : d.unknown? ((column, value) :: rest) = d.unknown? rest := by
        simp [unknown?, hc]
      have hk : d.known ((column, value) :: rest) =
          (column, value) :: d.known rest := by
        simp [known, hc]
      rw [hu, hk]
      rfl
    · have hu : d.unknown? ((column, value) :: rest) = some column := by
        simp [unknown?, hc]
      have hk : d.known ((column, value) :: rest) = [] := by simp [known, hc]
      rw [if_neg hc, hu, hk]
      rfl

/-! ## Adding rows -/

@[simp] theorem keys_row (values : Dict (List Json)) (i : Nat) :
    (row values i).keys = values.keys := by simp [row]

theorem unknown?_row (d : Database) (values : Dict (List Json)) (i : Nat) :
    d.unknown? (row values i) = d.unknown? values := by
  unfold unknown?
  rw [keys_row]

/-- The database with a row written to each of some entries, from the
row at an index on. -/
def setRows (d : Database) (values : Dict (List Json)) :
    (i : Nat) → List String → Database
  | _, [] => d
  | i, id :: ids => (d.setRow id (row values i)).setRows values (i + 1) ids

/-- Rows fail at the first of them or not at all: they all have the same columns. -/
theorem run_addRows (d : Database) (values : Dict (List Json)) (i : Nat)
    (ids : List String) :
    (addRows values i ids).run d =
      match ids, d.unknown? values with
      | id :: _, some column =>
        (.error (fault d.name (.noColumn column)),
          d.setRow id (d.known (row values i)))
      | ids, _ => (.ok (), d.setRows values i ids) := by
  induction ids generalizing d i with
  | nil => rfl
  | cons id rest ih =>
    rw [addRows, run_bind, run_addEntry, unknown?_row]
    cases hu : d.unknown? values with
    | some column => rfl
    | none =>
      have hframe := sameFrame_setRow d id (row values i)
      show (addRows values (i + 1) rest).run (d.setRow id (row values i)) = _
      rw [ih, hframe.unknown?, hu]
      cases rest <;> rfl

/-- Whether some columns differ in length. -/
def uneven (values : Dict (List Json)) : Bool :=
  values.values.any fun items => items.length ≠ rowCount values

theorem run_addEntries (d : Database) (ids : List String)
    (values : Dict (List Json)) :
    (addEntries ids values).run d =
      if uneven values then (.error (fault d.name .unevenColumns), d)
      else match ids, d.unknown? values with
        | id :: _, some column =>
          (.error (fault d.name (.noColumn column)),
            d.setRow id (d.known (row values 0)))
        | ids, _ => (.ok ids, d.setRows values 0 ids) := by
  rw [addEntries]
  show (if uneven values = true then
      (refuse .unevenColumns : Edit Unit) >>= fun _ =>
        addRows values 0 ids >>= fun _ => pure ids
    else addRows values 0 ids >>= fun _ => pure ids).run d = _
  split
  · rfl
  · rw [run_bind, run_addRows]
    cases ids with
    | nil => rfl
    | cons id rest => cases d.unknown? values <;> rfl

/-! ## Columns of plain lists -/

theorem listsOf_cons (name column : String) (value : Value) (rest : Args) :
    listsOf name ((column, value) :: rest) = do
      let items ← listOf name column value
      let more ← listsOf name rest
      return (column, items) :: more := by
  unfold listsOf
  rw [List.mapM_cons]
  dsimp only
  cases listOf name column value <;> rfl

/-- The columns of a mapping can be read exactly if all of them are plain lists,
and then they are read as they are. -/
theorem listsOf_eq_ok {name : String} {args : Args} {lists : Dict (List Json)} :
    listsOf name args = .ok lists ↔ args = lists.mapValues fun items =>
  Value.json (.arr items) := by
  constructor
  · intro h
    induction args generalizing lists with
    | nil =>
      cases h
      rfl
    | cons entry rest ih =>
      obtain ⟨column, value⟩ := entry
      rw [listsOf_cons] at h
      cases hv : listOf name column value with
      | error failure =>
        rw [hv] at h
        cases h
      | ok items =>
        cases hr : listsOf name rest with
        | error failure =>
          rw [hv, hr] at h
          cases h
        | ok more =>
          rw [hv, hr] at h
          cases h
          -- only a plain list is read as a list
          have hvalue : value = .json (.arr items) := by
            unfold listOf at hv
            split at hv
            · cases hv
              rfl
            · cases hv
          rw [hvalue, ih hr]
          rfl
  · rintro rfl
    induction lists with
    | nil => rfl
    | cons entry rest ih =>
      have hmore : Dict.mapValues (fun items => Value.json (.arr items))
          (entry :: rest) =
          (entry.1, Value.json (.arr entry.2)) :: Dict.mapValues (fun items =>
            Value.json (.arr items)) rest := rfl
      rw [hmore, listsOf_cons, ih]
      rfl

theorem not_list_of_listsOf_error {name : String} {args : Args}
    {failure : Failure} (h : listsOf name args = .error failure) :
    ∃ column value, (column, value) ∈ args ∧
    ∀ items, value ≠ .json (.arr items) := by
  induction args generalizing failure with
  | nil => cases h
  | cons entry rest ih =>
    obtain ⟨column, value⟩ := entry
    by_cases hvalue : ∃ items, value = .json (.arr items)
    · -- this one can be read, so it is one of the others that cannot
      obtain ⟨items, rfl⟩ := hvalue
      rw [listsOf_cons] at h
      cases hrest : listsOf name rest with
      | error other =>
        obtain ⟨column', value', hmem, hvalue'⟩ := ih hrest
        exact ⟨column', value', List.mem_cons_of_mem _ hmem, hvalue'⟩
      | ok lists =>
        rw [hrest] at h
        cases h
    · exact ⟨column, value, List.mem_cons_self .., fun items heq =>
        hvalue ⟨items, heq⟩⟩

/-- The columns of lists are the columns of the mapping. -/
theorem keys_listsOf {name : String} {values : Args} {lists : Dict (List Json)}
    (h : listsOf name values = .ok lists) : lists.keys = values.keys := by
  rw [listsOf_eq_ok.mp h, Dict.keys_mapValues]

/-! ## Updating -/

/-- Every storage is a column. -/
def Laid (d : Database) : Prop := ∀ column ∈ d.storages, column ∈ d.columns.keys

theorem SameFrame.laid {d e : Database} (h : SameFrame d e)
    (hd : d.Laid) : e.Laid := by
  unfold Laid
  rw [h.storages, h.keys]
  exact hd

/-- The first of some values whose column is not a storage. -/
def foreign? {α : Type} (d : Database) (values : Dict α) : Option String :=
  values.keys.find? fun column => !d.storages.contains column

theorem foreign?_eq_some {α : Type} {d : Database} {values : Dict α}
    {column : String} (h : d.foreign? values = some column) :
    column ∈ values.keys ∧ column ∉ d.storages := by
  have hfound := List.find?_some h
  simp only [Bool.not_eq_true', List.contains_eq_mem,
    decide_eq_false_iff_not] at hfound
  exact ⟨List.mem_of_find?_eq_some h, hfound⟩

theorem foreign?_eq_none {α : Type} {d : Database} {values : Dict α}
    (h : d.foreign? values = none) :
    ∀ column ∈ values.keys, column ∈ d.storages := by
  intro column hcolumn
  simpa using List.find?_eq_none.mp h column hcolumn

theorem unknown?_eq_none_of_foreign? {α : Type} {d : Database} (hd : d.Laid)
    {values : Dict α} (h : d.foreign? values = none) :
    d.unknown? values = none := by
  refine unknown?_eq_none_iff.mpr ?_
  intro column hcolumn
  exact hd column (foreign?_eq_none h column hcolumn)

/-- A write of storages is refused before anything is written, or it succeeds. -/
theorem run_updateEntry {d : Database} (hd : d.Laid) (id : String)
    (values : Dict Json) :
    (updateEntry id values).run d =
      match d.foreign? values with
      | some column => (.error (fault d.name (.notAStorage column)), d)
      | none => (.ok (), d.setRow id values) := by
  rw [updateEntry, run_bind]
  show (match d.foreign? values with
    | some column => (refuse (.notAStorage column) : Edit Unit)
    | none => addEntry id values).run d = _
  cases hf : d.foreign? values with
  | some column => rfl
  | none =>
    show (addEntry id values).run d = _
    rw [run_addEntry, unknown?_eq_none_of_foreign? hd hf]

/-- Rows of storages are refused before the first is written, or all are written. -/
theorem run_updateRows {d : Database} (hd : d.Laid) (values : Dict (List Json))
    (i : Nat) (ids : List String) :
    (updateRows values i ids).run d =
      match ids, d.foreign? values with
      | _ :: _, some column => (.error (fault d.name (.notAStorage column)), d)
      | ids, _ => (.ok (), d.setRows values i ids) := by
  induction ids generalizing d i with
  | nil => rfl
  | cons id rest ih =>
    -- all rows have the columns of the lists, so what is refused of one is
    -- refused of the first
    have hrow : d.foreign? (row values i) = d.foreign? values := by
      unfold foreign?
      rw [keys_row]
    rw [updateRows, run_bind, run_updateEntry hd, hrow]
    cases hf : d.foreign? values with
    | some column => rfl
    | none =>
      have hframe := sameFrame_setRow d id (row values i)
      have hf' : (d.setRow id (row values i)).foreign? values = none := by
        unfold foreign?
        rw [hframe.storages]
        exact hf
      show (updateRows values (i + 1) rest).run (d.setRow id (row values i)) = _
      rw [ih (hframe.laid hd), hf']
      cases rest <;> rfl

/-- The first of some columns with fewer values than there are entries. -/
def short? (entries : List String) (values : Dict (List Json)) :
    Option (String × List Json) :=
  values.find? fun entry => entry.2.length < entries.length

theorem run_updateEntries {d : Database} (hd : d.Laid) (entries : List String)
    (args : Args) :
    (updateEntries entries args).run d =
      match listsOf d.name args with
      | .error failure => (.error failure, d)
      | .ok values =>
        match short? entries values with
        | some (column, items) =>
          (.error (fault d.name
            (.tooFewValues column items.length entries.length)), d)
        | none =>
          match entries, d.foreign? values with
          | _ :: _, some column => (.error (fault d.name (.notAStorage column)), d)
          | entries, _ => (.ok (), d.setRows values 0 entries) := by
  rw [updateEntries, run_bind, run_get]
  -- the loop over the lists stops at the first that is too short
  show ((liftM (listsOf d.name args) : Edit _) >>= fun values =>
    match short? entries values with
    | some (column, items) =>
      (refuse (.tooFewValues column items.length entries.length) : Edit Unit)
    | none => updateRows values 0 entries).run d = _
  rw [run_bind, run_liftM]
  cases listsOf d.name args with
  | error failure => rfl
  | ok values =>
    dsimp only
    cases hs : short? entries values with
    | some entry => rfl
    | none => exact run_updateRows hd values 0 entries

/-! ## What a write that succeeds has written -/

section Succeeding

variable {d e : Database}

theorem addEntry_ok {id : String} {values : Dict Json}
    (h : (addEntry id values).run d = (.ok (), e)) :
    e = d.setRow id values := by
  rw [run_addEntry] at h
  split at h
  · cases h
    rfl
  · cases h

theorem addEntries_ok {ids added : List String} {values : Dict (List Json)}
    (h : (addEntries ids values).run d = (.ok added, e)) :
    added = ids ∧ e = d.setRows values 0 ids := by
  rw [run_addEntries] at h
  split at h
  · cases h
  · split at h
    · cases h
    · cases h
      exact ⟨rfl, rfl⟩

theorem updateEntry_ok (hd : d.Laid) {id : String} {values : Dict Json}
    (h : (updateEntry id values).run d = (.ok (), e)) :
    e = d.setRow id values := by
  rw [run_updateEntry hd] at h
  split at h
  · cases h
  · cases h
    rfl

theorem updateEntries_ok (hd : d.Laid) {entries : List String} {args : Args}
    (h : (updateEntries entries args).run d = (.ok (), e)) :
    ∃ values, listsOf d.name args = .ok values ∧
    e = d.setRows values 0 entries := by
  rw [run_updateEntries hd] at h
  split at h
  · cases h
  · next values hlists =>
    refine ⟨values, hlists, ?_⟩
    split at h
    · cases h
    · split at h
      · cases h
      · cases h
        rfl

end Succeeding

end Playbook.Database
