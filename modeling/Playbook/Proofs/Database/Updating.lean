import Playbook.Proofs.Database.Columns

/-!
# Playbook — what updates of entries write

An update of entries gives a list of values for each of some columns, one value
for each entry. The entries are written one after the other, so what is wrong
with the lists has to be found before the first of them. The lists are looked at
first; and whether a column is a storage is asked anew for each entry, with the
same answer, as all entries are given values in the same columns. As every
storage is a column, nothing is left that could fail half-way.

Main results:

* `refused_or_written` — an update is refused and writes nothing, or all of its
  rows are written.
* `updateEntries_exact` — when an update is refused, and which
  values it leaves where.
-/

namespace Playbook.Database

open Effect

/-- The reasons to refuse an update of entries: a value that is no plain list, a
list with fewer values than there are entries, and for any entry a column that
is not a storage. -/
inductive Refused (d : Database) (entries : List String) (args : Args) : Prop
  | notAList {column : String} {value : Value} (hmem : (column, value) ∈ args)
      (hvalue : ∀ items, value ≠ .json (.arr items))
  | tooFew {column : String} {items : List Json}
      (hmem : (column, .json (.arr items)) ∈ args)
      (hfew : items.length < entries.length)
  | notAStorage {column : String} (hentries : entries ≠ [])
      (hmem : column ∈ args.keys) (hcolumn : column ∉ d.storages)

/-- What an update of entries comes to: of the values for an entry, each column
has the one at the last place of the entry. All other values are as they were,
and so are the columns and the places of the ids in them. -/
structure Updated (d : Database) (entries : List String) (args : Args)
    (e : Database) : Prop where
  frame : SameFrame d e
  written : ∀ column items, (column, .json (.arr items)) ∈ args →
    ∀ (i : Nat) id, entries[i]? = some id →
    (∀ j, i < j → entries[j]? ≠ some id) →
    ∃ value, items[i]? = some value ∧ e.cell column id = some value
  kept : ∀ column id, column ∉ args.keys ∨ id ∉ entries →
    e.cell column id = d.cell column id
  places : ∀ column, d.idsIn column <+: e.idsIn column

/-! ## When an update is refused -/

/-- Lists that can be written: they are long enough, and with any entries all of
them are for storages. -/
structure Writable (d : Database) (entries : List String)
    (values : Dict (List Json)) : Prop where
  long : ∀ entry ∈ values, entries.length ≤ entry.2.length
  storages : entries ≠ [] → ∀ column ∈ values.keys, column ∈ d.storages

variable {d : Database} {entries : List String} {values : Dict (List Json)}

theorem Writable.not_refused (h : Writable d entries values) :
    ¬ Refused d entries (values.mapValues fun items => .json (.arr items)) := by
  rintro (⟨hmem, hvalue⟩ | ⟨hmem, hfew⟩ | ⟨hentries, hmem, hcolumn⟩)
  · obtain ⟨entry, -, heq⟩ := List.mem_map.mp hmem
    exact hvalue entry.2 (congrArg Prod.snd heq).symm
  · obtain ⟨entry, hentry, heq⟩ := List.mem_map.mp hmem
    cases heq
    have hle := h.long entry hentry
    omega
  · rw [Dict.keys_mapValues] at hmem
    exact hcolumn (h.storages hentries _ hmem)

/-- An update is refused and writes nothing, or all of its rows are written. -/
theorem refused_or_written (hd : d.Laid) (entries : List String) (args : Args) :
    Refused d entries args ∧
    (∃ failure, (updateEntries entries args).run d = (.error failure, d)) ∨
    ∃ values, args = values.mapValues (fun items => Value.json (.arr items)) ∧
      Writable d entries values ∧
      (updateEntries entries args).run d =
      (.ok (), d.setRows values 0 entries) := by
  rw [run_updateEntries hd]
  cases hlists : listsOf d.name args with
  | error failure =>
    obtain ⟨column, value, hmem, hvalue⟩ := not_list_of_listsOf_error hlists
    exact Or.inl ⟨.notAList hmem hvalue, failure, rfl⟩
  | ok values =>
    obtain rfl := listsOf_eq_ok.mp hlists
    have hmem : ∀ entry ∈ values, (entry.1, Value.json (.arr entry.2)) ∈
        values.mapValues fun items => Value.json (.arr items) :=
          fun entry h => List.mem_map_of_mem h
    dsimp only
    cases hshort : short? entries values with
    | some entry =>
      have hfew : entry.2.length < entries.length := by
        simpa using List.find?_some hshort
      exact Or.inl
        ⟨.tooFew (hmem entry (List.mem_of_find?_eq_some hshort)) hfew, _, rfl⟩
    | none =>
      have hlong : ∀ entry ∈ values, entries.length ≤ entry.2.length := by
        intro entry hentry
        simpa using List.find?_eq_none.mp hshort entry hentry
      cases entries with
      | nil => exact Or.inr ⟨values, rfl, ⟨hlong, fun h => absurd rfl h⟩, rfl⟩
      | cons id rest =>
        cases hforeign : d.foreign? values with
        | some column =>
          obtain ⟨hcolumn, hstorage⟩ := foreign?_eq_some hforeign
          rw [← Dict.keys_mapValues] at hcolumn
          exact Or.inl ⟨.notAStorage (by simp) hcolumn hstorage, _, rfl⟩
        | none =>
          exact Or.inr ⟨values, rfl,
            ⟨hlong, fun _ => foreign?_eq_none hforeign⟩, rfl⟩

/-! ## What an update writes -/

theorem updated_setRows (hd : d.Laid) (hvalues : values.Distinct)
    (h : Writable d entries values) :
    Updated d entries (values.mapValues fun items => .json (.arr items))
      (d.setRows values 0 entries) := by
  refine ⟨sameFrame_setRows .., ?_, ?_, idsIn_prefix_setRows d values 0 entries⟩
  · intro column items hmem i id hi hlast
    obtain ⟨entry, hentry, heq⟩ := List.mem_map.mp hmem
    cases heq
    have hentries : entries ≠ [] := by
      rintro rfl
      cases hi
    -- there is an entry, so its columns are storages, and storages are columns
    have hcolumn := hd _ (h.storages hentries _ (Dict.mem_keys_of_mem hentry))
    obtain ⟨hbound, -⟩ := List.getElem?_eq_some_iff.mp hi
    have hlen := h.long entry hentry
    have hitem : entry.2[i]? = some entry.2[i] :=
      List.getElem?_eq_getElem (by omega)
    exact ⟨_, hitem, (cell_setRows hcolumn hvalues
      (Dict.get?_of_mem hvalues hentry) hlen hi hlast).trans hitem⟩
  · intro column id hother
    rw [Dict.keys_mapValues] at hother
    exact cell_setRows_of_not_mem hother

/-- **Updates of entries are exact.** An update of entries of a reachable
database fails exactly if there is a reason to refuse it, and then nothing has
changed. If it succeeds, each entry has its values in the columns that were
given, and nothing else has changed. -/
theorem updateEntries_exact (hd : d.Reachable) (entries : List String)
    {args : Args} (hargs : args.Distinct) :
    let after := (updateEntries entries args).run d
    ((∃ failure, after.1 = .error failure) ↔ Refused d entries args) ∧
      ((∃ failure, after.1 = .error failure) → after.2 = d) ∧
      (after.1 = .ok () → Updated d entries args after.2) := by
  intro after
  have hlaid := hd.wellFormed.laid
  rcases refused_or_written hlaid entries args with
    ⟨hrefused, failure, hrun⟩ | ⟨values, rfl, hwritable, hrun⟩
  · have hafter : after = (.error failure, d) := hrun
    rw [hafter]
    exact ⟨iff_of_true ⟨failure, rfl⟩ hrefused, fun _ => rfl, fun h => nomatch h⟩
  · have hafter : after = (.ok (), d.setRows values 0 entries) := hrun
    rw [hafter]
    refine ⟨iff_of_false ?_ hwritable.not_refused, ?_, fun _ => ?_⟩
    · rintro ⟨failure, h⟩
      cases h
    · rintro ⟨failure, h⟩
      cases h
    · exact updated_setRows hlaid (Dict.distinct_mapValues.mp hargs) hwritable

/-- Of two values for one entry the second one stays. -/
theorem second_value_stays :
    let d := ofSpec "tmp" {
      name := "doe", variableSpecs := [.obj [("name", .str "x")]], storages := ["y"]
      data := [("x", [("a", .ofInt 1), ("b", .ofInt 2)])] }
    let args : Args :=
      [("y", .json (.arr [.ofInt 10, .ofInt 20, .ofInt 30, .ofInt 40]))]
    let after := (updateEntries ["b", "a", "b"] args).run d
    d.Reachable ∧ args.Distinct ∧ after.1 = .ok () ∧
      after.2.cell "y" "b" = some (.ofInt 30) ∧
      after.2.cell "x" "b" = d.cell "x" "b" := by
  intro d args after
  have hreachable : d.Reachable := ⟨_, _, .refl⟩
  have hdistinct : args.Distinct := by decide
  have hok : after.1 = .ok () := rfl
  obtain ⟨-, -, hafter⟩ := updateEntries_exact hreachable ["b", "a", "b"] hdistinct
  have hupdated := hafter hok
  have hlast : ∀ j, 2 < j → ["b", "a", "b"][j]? ≠ some "b" := by
    intro j hj
    have hend : ["b", "a", "b"].length ≤ j := hj
    rw [List.getElem?_eq_none hend]
    simp
  obtain ⟨value, hvalue, hcell⟩ :=
    hupdated.written "y" _ (List.mem_cons_self ..) 2 "b" rfl hlast
  cases hvalue
  exact ⟨hreachable, hdistinct, hok, hcell,
    hupdated.kept "x" "b" (Or.inl (by decide))⟩

end Playbook.Database
