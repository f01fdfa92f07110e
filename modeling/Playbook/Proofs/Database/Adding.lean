import Mathlib.Data.List.Nodup
import Playbook.Proofs.Database.Columns
import Playbook.Proofs.Database.Failing

/-!
# Playbook — what additions of rows write

Rows are given column by column and added under fresh ids. The longest column
sets the number of rows, and all columns have to be as long. An id that is fresh
has no values yet, so the entry of a row is what the row has for it, and in each
column the new ids come after those that were there.

Main results:

* `uneven_eq_false_iff` — columns are even exactly if they have one length,
  which is the number of rows.
* `added_or_failed` — rows are added exactly if the columns are even and, with
  any rows, all there.
* `added_setRows` — what fresh rows leave in a database.
* `addFresh_exact` — when rows are added under the next names, and what they leave.
-/

namespace Playbook.Database

open Effect

/-- All columns have one length; that of no columns is nought. -/
structure OneLength (values : Dict (List Json)) (rows : Nat) : Prop where
  lengths : ∀ items ∈ values.values, items.length = rows
  empty : values = [] → rows = 0

/-- Rows can be added: there is an id for each of them, the columns are as long,
and with any rows they all exist. -/
structure Addable (d : Database) (values : Dict (List Json))
    (ids : List String) : Prop where
  rows : OneLength values ids.length
  columns : ids ≠ [] → ∀ column ∈ values.keys, column ∈ d.columns.keys

/-- What an addition of rows comes to: there is one new id for each row, its
entry has the values of the row, and these are all new entries. All old values
are as they were, and in their places. -/
structure Added (d : Database) (values : Dict (List Json)) (ids : List String)
    (e : Database) : Prop where
  rows : OneLength values ids.length
  distinct : ids.Nodup
  fresh : ∀ id ∈ ids, id ∉ d.entries
  entry : ∀ (i : Nat) id, ids[i]? = some id →
    ∀ column, Dict.get? (e.entry id) column = (values.get? column).bind
      fun items => items[i]?
  entries : ∀ id, id ∈ e.entries ↔ id ∈ d.entries ∨ id ∈ ids
  kept : ∀ id ∈ d.entries, ∀ column, e.cell column id = d.cell column id
  places : ∀ column old, d.columns.get? column = some old →
    ∃ new, e.columns.get? column = some (old ++ new)

/-! ## Columns of one length -/

theorem foldl_max_of_forall_eq {lengths : List Nat} {rows start : Nat}
    (hstart : start ≤ rows) (hne : lengths ≠ []) (h : ∀ n ∈ lengths, n = rows) :
    lengths.foldl max start = rows := by
  induction lengths generalizing start with
  | nil => exact absurd rfl hne
  | cons n rest ih =>
    obtain ⟨rfl, hrest⟩ := List.forall_mem_cons.mp h
    rw [List.foldl_cons, max_eq_right hstart]
    by_cases hnil : rest = []
    · rw [hnil]
      rfl
    · exact ih (Nat.le_refl n) hnil hrest

theorem OneLength.rowCount {values : Dict (List Json)} {rows : Nat}
    (h : OneLength values rows) : rowCount values = rows := by
  by_cases hnil : values = []
  · rw [h.empty hnil, hnil]
    rfl
  · refine foldl_max_of_forall_eq (Nat.zero_le rows)
      (by simpa [Dict.values] using hnil) ?_
    intro n hn
    obtain ⟨items, hitems, rfl⟩ := List.mem_map.mp hn
    exact h.lengths items hitems

/-- Columns are even exactly if they have one length, which is
the number of rows. -/
theorem uneven_eq_false_iff {values : Dict (List Json)} :
    uneven values = false ↔ OneLength values (rowCount values) := by
  have hlengths : uneven values = false ↔
      ∀ items ∈ values.values, items.length = rowCount values := by
    simp [uneven, List.any_eq_false]
  rw [hlengths]
  constructor
  · intro h
    refine ⟨h, ?_⟩
    rintro rfl
    rfl
  · exact fun h => h.lengths

section Rows

variable {d : Database} {values : Dict (List Json)} {ids : List String}

theorem addable_iff (hcount : ids.length = rowCount values) : Addable d values ids ↔
    ∃ rows, OneLength values rows ∧
    (0 < rows → ∀ column ∈ values.keys, column ∈ d.columns.keys) := by
  constructor
  · rintro ⟨hrows, hcolumns⟩
    exact ⟨ids.length, hrows, fun hpos => hcolumns (List.length_pos_iff.mp hpos)⟩
  · rintro ⟨rows, hrows, hcolumns⟩
    have hlength : ids.length = rows := hcount.trans hrows.rowCount
    rw [← hlength] at hrows hcolumns
    exact ⟨hrows, fun hne => hcolumns (List.length_pos_iff.mpr hne)⟩

/-- Rows that can be added are, and an addition of any others fails. -/
theorem added_or_failed (d : Database) (hcount : ids.length = rowCount values) :
    Addable d values ids ∧ (addEntries ids values).run d =
      (.ok ids, d.setRows values 0 ids) ∨
      ¬ Addable d values ids ∧ ∃ failure,
      ((addEntries ids values).run d).1 = .error failure := by
  rw [run_addEntries]
  cases huneven : uneven values with
  | true =>
    refine Or.inr ⟨?_, _, rfl⟩
    rintro ⟨hrows, -⟩
    rw [hcount, ← uneven_eq_false_iff, huneven] at hrows
    cases hrows
  | false =>
    have hrows : OneLength values ids.length :=
      hcount ▸ uneven_eq_false_iff.mp huneven
    cases ids with
    | nil => exact Or.inl ⟨⟨hrows, fun h => absurd rfl h⟩, rfl⟩
    | cons id rest =>
      cases hunknown : d.unknown? values with
      | none =>
        exact Or.inl ⟨⟨hrows, fun _ => unknown?_eq_none_iff.mp hunknown⟩, rfl⟩
      | some column =>
        refine Or.inr ⟨?_, _, rfl⟩
        rintro ⟨-, hcolumns⟩
        rw [unknown?_eq_none_iff.mpr (hcolumns (by simp))] at hunknown
        cases hunknown

/-! ## Fresh rows -/

variable (hd : d.WellFormed) (hvalues : values.Distinct)
  (hadd : Addable d values ids) (hids : ids.Nodup)
  (hnew : ∀ id ∈ ids, id ∉ d.entries)

include hvalues hadd

/-- Rows give a value to each of the ids in each of their columns. -/
theorem keys_writtenRows (column : String) :
    (writtenRows column values 0 ids).keys = if column ∈ values.keys then ids
    else [] := by
  split
  · next hcolumn =>
    obtain ⟨items, hitems⟩ := Dict.exists_get?_of_mem_keys hcolumn
    have hlen : items.length = ids.length :=
      hadd.rows.lengths items (Dict.mem_values_of_get? hitems)
    rw [writtenRows_of_get? hvalues hitems (by omega),
      Dict.keys_zip (by simp [hlen])]
  · next hcolumn =>
    rw [writtenRows_of_not_mem hcolumn]
    rfl

include hids

/-- Distinct ids have the values of their rows in the columns of the rows. -/
theorem cell_of_row {i : Nat} {id column : String} (hi : ids[i]? = some id)
    {items : List Json} (hitems : values.get? column = some items) :
    (d.setRows values 0 ids).cell column id = items[i]? := by
  have hne : ids ≠ [] := by
    rintro rfl
    cases hi
  have hlen : items.length = ids.length :=
    hadd.rows.lengths items (Dict.mem_values_of_get? hitems)
  refine cell_setRows (hadd.columns hne column (Dict.mem_keys_of_get? hitems))
    hvalues hitems (Nat.le_of_eq hlen.symm) hi ?_
  -- the ids are distinct, so each place is the last one
  intro j hij hj
  obtain ⟨hjlt, -⟩ := List.getElem?_eq_some_iff.mp hj
  exact List.nodup_iff_getElem?_ne_getElem?.mp hids i j hij hjlt (hi.trans hj.symm)

/-- The id of a row is an entry: where there are rows there is a column, in
which the row has a value. -/
theorem exists_cell_of_row {id : String} (hid : id ∈ ids) :
    ∃ column, ((d.setRows values 0 ids).cell column id).isSome := by
  obtain ⟨i, hi⟩ := List.getElem?_of_mem hid
  obtain ⟨hlt, -⟩ := List.getElem?_eq_some_iff.mp hi
  cases values with
  | nil =>
    have hzero := hadd.rows.empty rfl
    omega
  | cons first rest =>
    have hitems : Dict.get? (first :: rest) first.1 = some first.2 := by
      simp [Dict.get?]
    have hlen : first.2.length = ids.length :=
      hadd.rows.lengths _ (Dict.mem_values_of_get? hitems)
    refine ⟨first.1, ?_⟩
    rw [cell_of_row hvalues hadd hids hi hitems]
    simp [hlen, hlt]

include hd hnew

/-- In each column fresh ids come after those that were there. -/
theorem column_of_rows {column : String} {old : Dict Json}
    (hget : d.columns.get? column = some old) :
    (d.setRows values 0 ids).columns.get? column =
    some (old ++ writtenRows column values 0 ids) := by
  rw [get?_setRows, hget, Option.map_some]
  congr 1
  refine Dict.extend_eq_append ?_
  have hold : old.keys.Nodup := hd.ids column old (Dict.mem_of_get? hget)
  unfold Dict.Distinct
  rw [Dict.keys_append, keys_writtenRows hvalues hadd]
  split
  · refine List.nodup_append.mpr ⟨hold, hids, ?_⟩
    rintro id hmem other hother rfl
    -- what is in the column is an entry, which a fresh id is not
    rw [← idsIn_of_get? hget, mem_idsIn] at hmem
    exact hnew id hother ((mem_entries hd).mpr ⟨column, hmem⟩)
  · simpa using hold

/-- Fresh rows are new entries with the values of the rows, and
change nothing else. -/
theorem added_setRows : Added d values ids (d.setRows values 0 ids) := by
  have hwell : (d.setRows values 0 ids).WellFormed := hd.setRows values 0 ids
  have hold : ∀ id, id ∉ ids → ∀ column,
      (d.setRows values 0 ids).cell column id = d.cell column id :=
    fun id hid column => cell_setRows_of_not_mem (Or.inr hid)
  refine ⟨hadd.rows, hids, hnew, ?_, ?_, ?_, ?_⟩
  · intro i id hi column
    rw [get?_entry hwell]
    cases hitems : values.get? column with
    | some items => exact cell_of_row hvalues hadd hids hi hitems
    | none =>
      -- nothing was written to the column, and nothing was there
      rw [cell_setRows_of_not_mem (Or.inl (Dict.get?_eq_none.mp hitems))]
      have hnone : ¬ (d.cell column id).isSome := by
        intro hsome
        exact hnew id (List.mem_of_getElem? hi)
          ((mem_entries hd).mpr ⟨column, hsome⟩)
      simpa using hnone
  · intro id
    rw [mem_entries hwell, mem_entries hd]
    by_cases hid : id ∈ ids
    · exact iff_of_true (exists_cell_of_row hvalues hadd hids hid) (Or.inr hid)
    · simp [hold id hid, hid]
  · intro id hid column
    exact hold id (fun hmem => hnew id hmem hid) column
  · intro column old hget
    exact ⟨_, column_of_rows hd hvalues hadd hids hnew hget⟩

end Rows

/-! ## Fresh ids -/

/-- The names that are handed out next. -/
def nextTokens (w : World) (count : Nat) :
    List String := (List.range count).map fun i => Token.ofNat (w.tokens + i)

/-- Adds rows under fresh ids, as many as there are rows. -/
def addFresh (h : Handle) (d : Database) (values : Dict (List Json)) :
    Act (List String) := do
  let ids ← Act.tokenList (rowCount values)
  editing h d (addEntries ids values)

/-- The action that adds entries adds the rows of its lists. -/
theorem act_addEntries_of_lists {h : Handle} {d : Database} {args : Args}
    {values : Dict (List Json)}
    (hargs : (args.get? "values").bind Value.mapping? =
      some (values.mapValues fun items => .json (.arr items))) :
    d.act h "add-entries" args = (fun ids => Value.json (.ofStrings ids)) <$>
    addFresh h d values := by
  rw [act_addEntries, hargs]
  dsimp only
  rw [listsOf_eq_ok.mpr rfl]
  rfl

variable {d : Database} {values : Dict (List Json)} {h : Handle} {w : World}

theorem run_addFresh : (addFresh h d values).run w =
    (((addEntries (nextTokens w (rowCount values)) values).run d).1,
      World.setItem { w with tokens := w.tokens + rowCount values } h.slot
        (.database ((addEntries (nextTokens w (rowCount values)) values).run
          d).2)) := rfl

/-- **Additions of rows are exact.** Where the next names are new and distinct,
rows are added to a reachable database exactly if the columns have one length
and, if there are any rows, all of the columns exist; then there is one id for
each row, the entries of these ids are the rows, and nothing else has changed.
The action that adds entries adds them so. -/
theorem addFresh_exact (hd : d.Reachable) (hvalues : values.Distinct)
    (hw : w.itemAt h.slot = some (.database d))
    (hids : (nextTokens w (rowCount values)).Nodup)
    (hnew : ∀ id ∈ nextTokens w (rowCount values), id ∉ d.entries) :
    let after := (addFresh h d values).run w
    ((∃ ids, after.1 = .ok ids) ↔
        ∃ rows, OneLength values rows ∧
        (0 < rows → ∀ column ∈ values.keys, column ∈ d.columns.keys)) ∧
      (∀ ids, after.1 = .ok ids → ∃ e,
        after.2.itemAt h.slot = some (.database e) ∧ Added d values ids e) ∧
      ∀ args : Args, (args.get? "values").bind Value.mapping? =
        some (values.mapValues fun items => .json (.arr items)) →
        d.act h "add-entries" args =
        (fun ids => Value.json (.ofStrings ids)) <$> addFresh h d values := by
  intro after
  have hcount : (nextTokens w (rowCount values)).length = rowCount values := by
    simp [nextTokens]
  have hafter : after = (addFresh h d values).run w := rfl
  rw [run_addFresh] at hafter
  refine ⟨?_, ?_, fun args => act_addEntries_of_lists⟩
  all_goals rw [hafter]
  · rw [← addable_iff hcount]
    rcases added_or_failed d hcount with ⟨hadd, hrun⟩ | ⟨hnot, failure, hfail⟩
    · rw [hrun]
      exact iff_of_true ⟨_, rfl⟩ hadd
    · rw [hfail]
      refine iff_of_false ?_ hnot
      rintro ⟨ids, h⟩
      cases h
  · intro ids hok
    rcases added_or_failed d hcount with ⟨hadd, hrun⟩ | ⟨hnot, failure, hfail⟩
    · rw [hrun] at hok ⊢
      cases hok
      have hw' : World.itemAt { w with tokens := w.tokens + rowCount values }
          h.slot = some (.database d) := hw
      exact ⟨_, World.itemAt_setItem_self hw',
        added_setRows hd.wellFormed hvalues hadd hids hnew⟩
    · rw [hfail] at hok
      cases hok

/-- Two rows are added after an old entry, with values in one of two columns. -/
theorem rows_after_an_entry :
    let d := ofSpec "tmp" {
      name := "doe", variableSpecs := [.obj [("name", .str "x")]], storages := ["y"]
      data := [("x", [("a", .ofInt 0)])] }
    let w : World := { disk := .empty, slots := [⟨.database d, false⟩] }
    let values : Dict (List Json) := [("x", [.ofInt 1, .ofInt 2])]
    let after := (addFresh ⟨"doe", 0⟩ d values).run w
    d.Reachable ∧ values.Distinct ∧ w.itemAt 0 = some (.database d) ∧
      (nextTokens w (rowCount values)).Nodup ∧
      (∀ id ∈ nextTokens w (rowCount values), id ∉ d.entries) ∧
      ∃ ids e, after.1 = .ok ids ∧ after.2.itemAt 0 = some (.database e) ∧
      ids.length = 2 ∧ e.cell "x" "a" = some (.ofInt 0) := by
  intro d w values after
  have hreachable : d.Reachable := ⟨_, _, .refl⟩
  have hvalues : values.Distinct := by decide
  have hids : (nextTokens w (rowCount values)).Nodup := by decide
  have hnew : ∀ id ∈ nextTokens w (rowCount values), id ∉ d.entries := by decide
  obtain ⟨hsucceeds, hadded, -⟩ :=
    addFresh_exact (h := ⟨"doe", 0⟩) hreachable hvalues (w := w) rfl hids hnew
  obtain ⟨ids, hok⟩ :=
    hsucceeds.mpr ⟨2, ⟨by decide, fun hnil => nomatch hnil⟩, by decide⟩
  obtain ⟨e, he, hadd⟩ := hadded ids hok
  have hcount : ids.length = 2 := by
    rw [← hadd.rows.rowCount]
    rfl
  exact ⟨hreachable, hvalues, rfl, hids, hnew, ids, e, hok, he, hcount,
    hadd.kept "a" (by decide) "x"⟩

end Playbook.Database
