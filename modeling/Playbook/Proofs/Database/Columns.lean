import Playbook.Proofs.Database.Entries

/-!
# Playbook — what writing makes of a column

Rows are written value by value, but what a column comes to is simple: it is
extended by the values that the rows have for it, one after the other, and stays
as it was if they have none. From this follows which ids a column gains and
which value an entry has in it afterwards.

Main results:

* `get?_setRow`, `get?_setRows` — a column after writing is the column with the
  values of the rows written over it.
* `idsIn_setRow`, `idsIn_setRows` — it gathers the ids of the rows if
  they have values for it.
* `cell_setRows`, `cell_setRows_of_not_mem` — the value at the last place of an
  id stays, and nothing else changes.
-/

namespace Playbook.Database

/-! ## Single values -/

theorem get?_set (d : Database) (id column : String) (value : Json)
    (other : String) :
    (d.set id column value).columns.get? other =
      (d.columns.get? other).map fun values =>
        if column = other then values.insert id value else values := by
  unfold set
  cases hv : d.columns.get? column with
  | none =>
    by_cases hc : column = other
    · subst hc
      simp [hv]
    · simp [hc]
  | some values =>
    show (d.columns.insert column (values.insert id value)).get? other = _
    rw [Dict.get?_insert]
    by_cases hc : column = other
    · subst hc
      simp [hv]
    · simp [hc]

/-! ## Rows -/

/-- What values of an entry write to a column. -/
def written (column id : String) (values : Dict Json) : Dict Json :=
  values.filterMap fun entry => if entry.1 = column then some (id, entry.2)
    else none

/-- What rows of columns write to a column, from the row at an index on. -/
def writtenRows (column : String) (values : Dict (List Json)) :
    (i : Nat) → List String → Dict Json
  | _, [] => []
  | i, id :: ids => written column id (row values i) ++ writtenRows column
    values (i + 1) ids

theorem written_cons (column id : String) (entry : String × Json)
    (values : Dict Json) :
    written column id (entry :: values) =
      if entry.1 = column then (id, entry.2) :: written column id values
          else written column id values := by
  by_cases h : entry.1 = column <;> simp [written, h]

/-- A column after writing an entry is the column with the values for
it written over it. -/
theorem get?_setRow (d : Database) (id : String) (values : Dict Json)
    (column : String) :
    (d.setRow id values).columns.get? column =
    (d.columns.get? column).map (·.extend (written column id values)) := by
  induction values generalizing d with
  | nil => simp [written]
  | cons entry values ih =>
    rw [setRow_cons, ih, get?_set, Option.map_map, written_cons]
    congr 1
    funext old
    by_cases h : entry.1 = column <;> simp [h]

theorem get?_setRows (d : Database) (values : Dict (List Json)) (i : Nat)
    (ids : List String) (column : String) :
    (d.setRows values i ids).columns.get? column =
      (d.columns.get? column).map (·.extend (writtenRows column values i ids)) := by
  induction ids generalizing d i with
  | nil => simp [setRows, writtenRows]
  | cons id ids ih =>
    rw [setRows, ih, get?_setRow, Option.map_map, writtenRows]
    congr 1
    funext old
    exact (Dict.extend_append old _ _).symm

theorem sameFrame_setRows (d : Database) (values : Dict (List Json)) (i : Nat)
    (ids : List String) :
    SameFrame d (d.setRows values i ids) := by
  induction ids generalizing d i with
  | nil => exact SameFrame.refl d
  | cons id ids ih => exact (sameFrame_setRow ..).trans (ih _ _)

/-! ## Merging and clearing -/

theorem get?_merge (d e : Database) (column : String) :
    (d.merge e).columns.get? column = (d.columns.get? column).map
      (·.extend ((e.columns.get? column).getD [])) := by
  unfold merge
  induction d.columns with
  | nil => rfl
  | cons entry rest ih =>
    obtain ⟨name, values⟩ := entry
    rw [List.map_cons, Dict.get?, Dict.get?]
    split
    · next hname =>
      subst hname
      cases e.columns.get? name <;> rfl
    · exact ih

theorem idsIn_clear (d : Database) (column : String) :
    d.clear.idsIn column = [] := by
  unfold idsIn clear
  rw [Dict.get?_mapValues]
  cases d.columns.get? column <;> rfl

/-! ## Ids -/

/-- Values of an entry write its id to a column, once or several times, or do
not touch the column. -/
theorem gather_written (ids : List String) (column id : String)
    (values : Dict Json) :
    gather ids (written column id values).keys =
    gather ids (if column ∈ values.keys then [id] else []) := by
  induction values generalizing ids with
  | nil => rfl
  | cons entry values ih =>
    simp only [written_cons, Dict.keys_cons, List.mem_cons]
    by_cases h : entry.1 = column
    · -- written again, the id is not gathered again
      have hagain : gather (gather ids [id]) [id] = gather ids [id] :=
        (gather_cons ..).trans
          (if_pos (mem_gather.mpr (Or.inr (List.mem_singleton_self id))))
      rw [if_pos h, if_pos (Or.inl h.symm),
        Dict.keys_cons, ← List.singleton_append, gather_append, ih]
      split
      · exact hagain
      · rfl
    · simp only [if_neg h, ih, Ne.symm h, false_or]

theorem gather_writtenRows (old : List String) (column : String)
    (values : Dict (List Json)) (i : Nat) (ids : List String) :
    gather old (writtenRows column values i ids).keys =
    gather old (if column ∈ values.keys then ids else []) := by
  induction ids generalizing old i with
  | nil => simp [writtenRows]
  | cons id ids ih =>
    rw [writtenRows, Dict.keys_append, gather_append, gather_written, ih,
      keys_row, ← gather_append]
    split <;> rfl

theorem idsIn_of_get? {d : Database} {column : String} {values : Dict Json}
    (h : d.columns.get? column = some values) :
    d.idsIn column = values.keys := by
  unfold idsIn
  rw [h]
  rfl

/-- Ids that are in a column keep their places when rows are written. -/
theorem idsIn_prefix_setRows (d : Database) (values : Dict (List Json))
    (i : Nat) (ids : List String) (column : String) :
    d.idsIn column <+: (d.setRows values i ids).idsIn column := by
  unfold idsIn
  rw [get?_setRows]
  cases d.columns.get? column with
  | none => exact List.prefix_refl _
  | some old => exact Dict.keys_prefix_extend old _

variable {d : Database} {column : String} (hcolumn : column ∈ d.columns.keys)

include hcolumn

/-- A column that is extended gathers ids. -/
theorem idsIn_of_extend {e : Database} {more : Dict Json}
    (h : e.columns.get? column = (d.columns.get? column).map (·.extend more)) :
    e.idsIn column = gather (d.idsIn column) more.keys := by
  obtain ⟨values, hvalues⟩ := Dict.exists_get?_of_mem_keys hcolumn
  rw [hvalues] at h
  rw [idsIn_of_get? hvalues, idsIn_of_get? h, keys_extend_eq_gather]

theorem idsIn_setRow (id : String) (values : Dict Json) :
    (d.setRow id values).idsIn column = gather
      (d.idsIn column) (if column ∈ values.keys then [id] else []) := by
  rw [idsIn_of_extend hcolumn (get?_setRow ..), gather_written]

theorem idsIn_setRows (values : Dict (List Json)) (i : Nat) (ids : List String) :
    (d.setRows values i ids).idsIn column =
    gather (d.idsIn column) (if column ∈ values.keys then ids else []) := by
  rw [idsIn_of_extend hcolumn (get?_setRows ..), gather_writtenRows]

omit hcolumn

/-! ## Values -/

theorem written_of_not_mem {values : Dict Json} (h : column ∉ values.keys)
    (id : String) :
    written column id values = [] := by
  refine List.filterMap_eq_nil_iff.mpr ?_
  intro entry hentry
  have hne : entry.1 ≠ column := fun heq => h (heq ▸ List.mem_map_of_mem hentry)
  simp [hne]

/-- An entry has one value for a column in distinct columns. -/
theorem written_of_get? {values : Dict Json} (hvalues : values.Distinct)
    (id : String) {value : Json} (h : values.get? column = some value) :
    written column id values = [(id, value)] := by
  induction values with
  | nil => cases h
  | cons entry values ih =>
    obtain ⟨name, other⟩ := entry
    obtain ⟨hnew, hrest⟩ := List.nodup_cons.mp hvalues
    rw [written_cons]
    by_cases hc : name = column
    · subst hc
      obtain rfl : other = value := by simpa [Dict.get?] using h
      simp [written_of_not_mem hnew]
    · rw [if_neg hc]
      exact ih hrest (by simpa [Dict.get?, hc] using h)

/-- Rows write the values of a column, one to each of the ids. -/
theorem writtenRows_of_get? {values : Dict (List Json)}
    (hvalues : values.Distinct) {items : List Json}
    (h : values.get? column = some items) {i : Nat} {ids : List String}
    (hlong : i + ids.length ≤ items.length) :
    writtenRows column values i ids = ids.zip (items.drop i) := by
  induction ids generalizing i with
  | nil => rfl
  | cons id ids ih =>
    rw [List.length_cons] at hlong
    have hi : i < items.length := by omega
    have hrow : (row values i).get? column = some items[i] := by
      unfold row
      rw [Dict.get?_mapValues, h]
      simp [hi]
    have hdistinct : (row values i).Distinct :=
      (Dict.distinct_congr (keys_row values i)).mpr hvalues
    rw [writtenRows, written_of_get? hdistinct id hrow, ih (by omega),
      List.drop_eq_getElem_cons hi]
    rfl

theorem writtenRows_of_not_mem {values : Dict (List Json)}
    (h : column ∉ values.keys) (i : Nat) (ids : List String) :
    writtenRows column values i ids = [] := by
  induction ids generalizing i with
  | nil => rfl
  | cons id ids ih =>
    rw [writtenRows, ih, written_of_not_mem (by rwa [keys_row])]; rfl

variable {values : Dict (List Json)} {ids : List String}

/-- Of the values that rows have for an id in a column, the one at the last
place of the id stays. -/
theorem cell_setRows (hcolumn : column ∈ d.columns.keys)
    (hvalues : values.Distinct) {items : List Json}
    (hitems : values.get? column = some items)
    (hlong : ids.length ≤ items.length) {i : Nat} {id : String}
    (hi : ids[i]? = some id) (hlast : ∀ j, i < j → ids[j]? ≠ some id) :
    (d.setRows values 0 ids).cell column id = items[i]? := by
  obtain ⟨old, hold⟩ := Dict.exists_get?_of_mem_keys hcolumn
  have hrows : writtenRows column values 0 ids = ids.zip items :=
    writtenRows_of_get? hvalues hitems (by omega)
  unfold cell
  rw [get?_setRows, hold, hrows]
  exact Dict.get?_extend_zip old hlong hi hlast

/-- An id that is not among those of the rows, and a column that they have no
values for, keep their values. -/
theorem cell_setRows_of_not_mem {id : String}
    (h : column ∉ values.keys ∨ id ∉ ids) :
    (d.setRows values 0 ids).cell column id = d.cell column id := by
  -- nothing is written to the column, or nothing under the id
  have hnot : id ∉ (writtenRows column values 0 ids).keys := by
    intro hmem
    have hgathered := mem_gather.mpr (Or.inr hmem : id ∈ ([] : List String) ∨ _)
    rw [gather_writtenRows, mem_gather] at hgathered
    rcases h with hcolumn | hid
    · simp [hcolumn] at hgathered
    · split at hgathered <;> simp [hid] at hgathered
  unfold cell
  rw [get?_setRows]
  cases d.columns.get? column with
  | none => rfl
  | some old => exact Dict.get?_extend_of_not_mem hnot

end Playbook.Database
