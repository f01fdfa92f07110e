import Playbook.Proofs.Database.Columns

/-!
# Playbook — the order in which entries came

An entry has come when it first has a value in any of the columns. Entries
should be listed in the order in which they came since the database was last
cleared, but the database does not keep that order. Each column keeps its own:
its ids come in the order in which they first got a value there. On the way
through the columns, an entry that came later is met first wherever it has a
value in an earlier column.

Main results:

* `idsIn_of_history` — a column has its ids in the order in which they came in it.
* `mem_came` — an id has come if it has come in some column.
* `idxOf_flatMap_lt_iff` — which of two ids is met first on the way
  through the columns.
* `entries_of_history` — what the entries are after any history, and when they
  are in the order in which they came.
-/

namespace Playbook.Database

open Effect

/-! ## Histories -/

namespace Change

/-- The ids to which a change gives values in a column, one after the other. -/
def idsIn (column : String) : Change → List String
  | addEntry id values | updateEntry id values =>
    if column ∈ values.keys then [id] else []
  | addEntries ids values => if column ∈ values.keys then ids else []
  | updateEntries entries values => if column ∈ values.keys then entries else []
  | merge other => other.idsIn column
  | clear | move _ => []

/-- The ids that a change goes through. A merge goes through the entries of the
other database. -/
def order : Change → List String
  | addEntry id _ | updateEntry id _ => [id]
  | addEntries ids _ => ids
  | updateEntries entries _ => entries
  | merge other => other.entries
  | clear | move _ => []

/-- The ids to which a change gives values in some of the columns, in its order. -/
def ids (columns : List String) (c : Change) : List String :=
  c.order.filter fun id => columns.any fun column => decide (id ∈ c.idsIn column)

/-- The ids that are there after a change that brings some: clearing
forgets all of them. -/
def record (c : Change) (old new : List String) : List String :=
  match c with
  | clear => []
  | _ => gather old new

theorem record_cases (c : Change) : (∀ old new, c.record old new = []) ∨
    ∀ old new, c.record old new = gather old new := by
  cases c with
  | clear => exact Or.inl fun _ _ => rfl
  | _ => exact Or.inr fun _ _ => rfl

/-- Whatever gets a value in a column is among the ids that the
change goes through. -/
theorem mem_order_of_mem_idsIn {c : Change} {column id : String}
    (h : id ∈ c.idsIn column) : id ∈ c.order := by
  cases c with
  | merge other =>
    -- an id of a column is an entry, also where columns repeat
    obtain ⟨values, hvalues, hid⟩ : ∃ values,
        other.columns.get? column = some values ∧ id ∈ Dict.keys values := by
      change id ∈ other.idsIn column at h
      unfold Database.idsIn at h
      cases hget : other.columns.get? column with
      | none => simp [hget] at h
      | some values => exact ⟨values, rfl, by simpa [hget] using h⟩
    refine mem_gather.mpr (Or.inr (List.mem_flatMap.mpr ⟨values, ?_, hid⟩))
    exact Dict.mem_values_of_get? hvalues
  | clear => cases h
  | move dir => cases h
  | _ =>
    simp only [idsIn] at h
    split at h
    · exact h
    · cases h

theorem mem_ids {columns : List String} {c : Change} {id : String} :
    id ∈ c.ids columns ↔ ∃ column ∈ columns, id ∈ c.idsIn column := by
  simp only [ids, List.mem_filter, List.any_eq_true, decide_eq_true_eq]
  constructor
  · rintro ⟨-, h⟩
    exact h
  · rintro ⟨column, hcolumn, hid⟩
    exact ⟨mem_order_of_mem_idsIn hid, column, hcolumn, hid⟩

end Change

/-- The ids in the order in which they first got a value in a column, since the
last clearing. -/
def cameIn (history : List Change) (column : String) : List String :=
  history.foldl (fun ids c => c.record ids (c.idsIn column)) []

/-- The ids in the order in which they first got a value in any of the columns,
since the last clearing. -/
def came (history : List Change) (columns : List String) : List String :=
  history.foldl (fun ids c => c.record ids (c.ids columns)) []

/-- An id has come exactly if it has come in some column. -/
theorem mem_came {history : List Change} {columns : List String} {id : String} :
    id ∈ came history columns ↔ ∃ column ∈ columns, id ∈ cameIn history column := by
  -- along the history, from any ids on of which this is true
  suffices h : ∀ (old : List String) (oldIn : String → List String),
      (id ∈ old ↔ ∃ column ∈ columns, id ∈ oldIn column) →
      (id ∈ history.foldl (fun ids c => c.record ids (c.ids columns)) old ↔
        ∃ column ∈ columns, id ∈ history.foldl (fun ids c =>
          c.record ids (c.idsIn column)) (oldIn column)) by
    exact h [] (fun _ => []) (by simp)
  induction history with
  | nil => exact fun _ _ h => h
  | cons c history ih =>
    intro old oldIn hold
    refine ih (c.record old (c.ids columns)) (fun column =>
      c.record (oldIn column) (c.idsIn column)) ?_
    rcases c.record_cases with hrecord | hrecord
    · simp [hrecord]
    · simp only [hrecord, mem_gather, hold, Change.mem_ids]
      constructor
      · rintro (⟨column, hcolumn, hid⟩ | ⟨column, hcolumn, hid⟩)
        · exact ⟨column, hcolumn, Or.inl hid⟩
        · exact ⟨column, hcolumn, Or.inr hid⟩
      · rintro ⟨column, hcolumn, hid | hid⟩
        · exact Or.inl ⟨column, hcolumn, hid⟩
        · exact Or.inr ⟨column, hcolumn, hid⟩

theorem nodup_came (history : List Change) (columns : List String) :
    (came history columns).Nodup := by
  suffices h : ∀ old : List String, old.Nodup →
      (history.foldl (fun ids c => c.record ids (c.ids columns)) old).Nodup by
    exact h [] List.nodup_nil
  induction history with
  | nil => exact fun _ h => h
  | cons c history ih =>
    intro old hold
    refine ih (c.record old (c.ids columns)) ?_
    rcases c.record_cases with hrecord | hrecord
    · rw [hrecord]
      exact List.nodup_nil
    · rw [hrecord]
      exact nodup_gather hold _

/-! ## What a history leaves in the columns -/

/-- A successful change brings ids to a column after those that are there, or
forgets them. -/
theorem idsIn_of_edit {d e : Database} (hd : d.WellFormed) {c : Change}
    (h : c.edit.run d = (.ok (), e)) {column : String}
    (hcolumn : column ∈ d.columns.keys) :
    e.idsIn column = c.record (d.idsIn column) (c.idsIn column) := by
  cases c with
  | addEntry id values =>
    obtain rfl := addEntry_ok h
    exact idsIn_setRow hcolumn id values
  | addEntries ids values =>
    obtain ⟨added, hadded, -⟩ := run_map_ok h
    obtain ⟨-, rfl⟩ := addEntries_ok hadded
    exact idsIn_setRows hcolumn values 0 ids
  | updateEntry id values =>
    obtain rfl := updateEntry_ok hd.laid h
    exact idsIn_setRow hcolumn id values
  | updateEntries entries args =>
    obtain ⟨values, hvalues, rfl⟩ := updateEntries_ok hd.laid h
    rw [idsIn_setRows hcolumn, keys_listsOf hvalues]
    rfl
  | merge other =>
    cases h
    exact idsIn_of_extend hcolumn (get?_merge d other column)
  | clear =>
    cases h
    exact idsIn_clear d column
  | move dir =>
    cases h
    rfl

theorem leads_of_history {start d : Database} {history : List Change}
    (h : (history.forM Change.edit).run start = (.ok (), d)) : Leads start d := by
  induction history generalizing start with
  | nil =>
    cases h
    exact .refl
  | cons c history ih =>
    obtain ⟨_, e, hc, hrest⟩ := run_bind_ok h
    have he : c.after start = e := congrArg Prod.snd hc
    exact (Leads.refl.after c).trans (he ▸ ih hrest)

/-- A column has its ids in the order in which they came in it, after
those that were there. -/
theorem idsIn_of_history {start d : Database} (hstart : start.WellFormed)
    {history : List Change}
    (h : (history.forM Change.edit).run start = (.ok (), d)) {column : String}
    (hcolumn : column ∈ start.columns.keys) :
    d.idsIn column = history.foldl (fun ids c => c.record ids (c.idsIn column))
      (start.idsIn column) := by
  induction history generalizing start with
  | nil =>
    cases h
    rfl
  | cons c history ih =>
    obtain ⟨_, e, hc, hrest⟩ := run_bind_ok h
    have he : c.after start = e := congrArg Prod.snd hc
    have hthere : column ∈ e.columns.keys := by
      rw [← he, (sameFrame_after start c).keys]
      exact hcolumn
    rw [ih (he ▸ hstart.after c) hrest hthere, idsIn_of_edit hstart hc hcolumn]
    rfl

/-! ## On the way through the columns -/

/-- In the first of the columns to which one of two ids has come, the first one
came before the other. -/
def Ahead (cameIn : String → List String) (columns : List String)
    (a b : String) : Prop :=
  ∃ before column after, columns = before ++ column :: after ∧
    (∀ other ∈ before, a ∉ cameIn other ∧ b ∉ cameIn other) ∧
    (cameIn column).idxOf a < (cameIn column).idxOf b

theorem ahead_cons {cameIn : String → List String} {column : String}
    {columns : List String} {a b : String} :
    Ahead cameIn (column :: columns) a b ↔
      (cameIn column).idxOf a < (cameIn column).idxOf b ∨
      a ∉ cameIn column ∧ b ∉ cameIn column ∧ Ahead cameIn columns a b := by
  constructor
  · rintro ⟨before, leading, after, hcolumns, hbefore, hlt⟩
    cases before with
    | nil =>
      obtain ⟨rfl, rfl⟩ := List.cons.inj hcolumns
      exact Or.inl hlt
    | cons first before =>
      obtain ⟨rfl, rfl⟩ := List.cons.inj hcolumns
      obtain ⟨⟨ha, hb⟩, hrest⟩ := List.forall_mem_cons.mp hbefore
      exact Or.inr ⟨ha, hb, before, leading, after, rfl, hrest, hlt⟩
  · rintro (hlt | ⟨ha, hb, before, leading, after, rfl, hbefore, hlt⟩)
    · exact ⟨[], column, columns, rfl, by simp, hlt⟩
    · exact ⟨column :: before, leading, after, rfl,
        List.forall_mem_cons.mpr ⟨⟨ha, hb⟩, hbefore⟩, hlt⟩

/-- On the way through the columns, the first one of two ids is met first
exactly if it is ahead. -/
theorem idxOf_flatMap_lt_iff (cameIn : String → List String)
    (columns : List String) (a b : String) :
    (columns.flatMap cameIn).idxOf a < (columns.flatMap cameIn).idxOf b ↔
    Ahead cameIn columns a b := by
  induction columns with
  | nil =>
    refine iff_of_false (by simp) ?_
    rintro ⟨before, column, after, hcolumns, -⟩
    simp at hcolumns
  | cons column columns ih =>
    rw [ahead_cons, ← ih, List.flatMap_cons]
    have hmem : ∀ {id}, id ∈ cameIn column →
        (cameIn column).idxOf id < (cameIn column).length :=
      List.idxOf_lt_length_of_mem
    -- an id that is in the column is met there, any other one later
    by_cases ha : a ∈ cameIn column <;> by_cases hb : b ∈ cameIn column
    · rw [List.idxOf_append_of_mem ha, List.idxOf_append_of_mem hb]
      simp [ha]
    · rw [List.idxOf_append_of_mem ha, List.idxOf_append_of_notMem hb,
        List.idxOf_eq_length hb]
      have hlt := hmem ha
      simp only [ha, not_true_eq_false, false_and, or_false]
      omega
    · rw [List.idxOf_append_of_notMem ha, List.idxOf_append_of_mem hb,
        List.idxOf_eq_length ha]
      have hlt := hmem hb
      simp only [hb, not_true_eq_false, false_and, and_false, or_false]
      omega
    · rw [List.idxOf_append_of_notMem ha, List.idxOf_append_of_notMem hb,
        List.idxOf_eq_length ha, List.idxOf_eq_length hb]
      simp [ha, hb]

/-! ## Entries -/

/-- Nothing is in any column of an empty database. -/
theorem idsIn_of_isEmpty {d : Database} (h : d.isEmpty = true)
    (column : String) : d.idsIn column = [] := by
  unfold idsIn
  cases hget : d.columns.get? column with
  | none => rfl
  | some values =>
    have hnil := List.all_eq_true.mp h values (Dict.mem_values_of_get? hget)
    rw [List.isEmpty_iff.mp hnil]
    rfl

/-- **The order of entries.** After any history of successful changes of an empty
database, the entries are the ids that have come, each of them once, and each column
has its ids in the order in which they came in it. Of two entries that one comes
first that is ahead in the columns; so the entries are in the order in which they
came exactly if whatever came before another entry is ahead of it. -/
theorem entries_of_history {start d : Database} (hstart : start.Reachable)
    (hempty : start.isEmpty = true) {history : List Change}
    (h : (history.forM Change.edit).run start = (.ok (), d)) :
    let columns := start.columns.keys
    d.entries.Nodup ∧ (∀ id, id ∈ d.entries ↔ ∃ column, (d.cell column id).isSome) ∧
      (∀ column ∈ columns, d.idsIn column = cameIn history column) ∧
      (came history columns).Perm d.entries ∧
      d.entries.Pairwise (Ahead (cameIn history) columns) ∧
      (d.entries = came history columns ↔
        (came history columns).Pairwise (Ahead (cameIn history) columns)) := by
  intro columns
  have hwell : d.WellFormed := (leads_of_history h).wellFormed hstart.wellFormed
  have hkeys : d.columns.keys = columns := (leads_of_history h).sameFrame.keys
  have hcolumns : ∀ column ∈ columns, d.idsIn column = cameIn history column := by
    intro column hcolumn
    rw [idsIn_of_history hstart.wellFormed h hcolumn, idsIn_of_isEmpty hempty]
    rfl
  -- the entries are gathered on the way through the columns
  have hentries : d.entries = gather [] (columns.flatMap (cameIn history)) := by
    rw [entries_eq_gather hwell, hkeys]
    congr 1
    exact List.flatMap_congr hcolumns
  have hahead : d.entries.Pairwise (Ahead (cameIn history) columns) := by
    rw [hentries]
    exact (pairwise_gather _).imp fun hlt => (idxOf_flatMap_lt_iff ..).mp hlt
  have hperm : (came history columns).Perm d.entries := by
    refine (List.perm_ext_iff_of_nodup (nodup_came history columns)
      (nodup_entries d)).mpr ?_
    intro id
    rw [hentries, mem_came, mem_gather, List.mem_flatMap]
    simp
  refine ⟨nodup_entries d, fun id => mem_entries hwell, hcolumns, hperm, hahead, ?_⟩
  constructor
  · intro heq
    rw [← heq]
    exact hahead
  · intro hcame
    -- no id is ahead of one that is ahead of it, so there is one such order
    have hasymm : ∀ a b, Ahead (cameIn history) columns a b →
        Ahead (cameIn history) columns b a → a = b := by
      intro a b hab hba
      have hlt := (idxOf_flatMap_lt_iff ..).mpr hab
      have hgt := (idxOf_flatMap_lt_iff ..).mpr hba
      omega
    exact (hperm.eq_of_pairwise (fun a b _ _ => hasymm a b) hcame hahead).symm

/-- Entries that are added after a clearing, all with a value in the first
column, are in the order in which they came. -/
theorem entries_after_clearing :
    let start :=
      ofSpec "tmp"
        { name := "doe", variableSpecs := [.obj [("name", .str "x")]]
          storages := ["y"] }
    let history := [Change.addEntry "b" [("x", .ofInt 0)], .clear,
      .addEntry "a" [("x", .ofInt 1)], .addEntry "b" [("x", .ofInt 2)]]
    let d := ((history.forM Change.edit).run start).2
    start.Reachable ∧ start.isEmpty = true ∧
      (history.forM Change.edit).run start = (.ok (), d) ∧
      d.entries = came history start.columns.keys ∧
      came history start.columns.keys = ["a", "b"] := by
  intro start history d
  have hreachable : start.Reachable := ⟨_, _, .refl⟩
  have hrun : (history.forM Change.edit).run start = (.ok (), d) := rfl
  have hcame : came history start.columns.keys = ["a", "b"] := by decide
  obtain ⟨-, -, -, -, -, horder⟩ := entries_of_history hreachable rfl hrun
  -- both came to the first column, "a" before "b"
  have hahead : Ahead (cameIn history) start.columns.keys "a" "b" :=
    ⟨[], "x", ["y"], rfl, by simp, by decide⟩
  refine ⟨hreachable, rfl, hrun, horder.mpr ?_, hcame⟩
  rw [hcame]
  exact List.pairwise_pair.mpr hahead

/-- An entry that came later is first if it has a value in the first column and
the earlier one has none there. -/
theorem first_column_first :
    let start := ofSpec "tmp" {
      name := "doe"
      variableSpecs := [.obj [("name", .str "x")], .obj [("name", .str "y")]]
      storages := [] }
    let history :=
      [Change.addEntry "b" [("y", .ofInt 1)], .addEntry "a" [("x", .ofInt 2)]]
    let d := ((history.forM Change.edit).run start).2
    start.Reachable ∧ start.isEmpty = true ∧
      (history.forM Change.edit).run start = (.ok (), d) ∧
      came history start.columns.keys = ["b", "a"] ∧ d.entries = ["a", "b"] :=
  ⟨⟨_, _, .refl⟩, rfl, rfl, by decide, rfl⟩

end Playbook.Database
