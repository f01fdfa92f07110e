import Playbook.Proofs.Database.Change

/-!
# Playbook — databases made from their own descriptions

The description of a database lists its columns with their values. Making a
database from it lays out the declared columns first and then fills in the
listed ones. In a well-formed database the declared columns come first anyway,
so every column is filled in where it stood.

Main results:

* `foldl_fillColumn_self` — filling in all columns, over empty columns for the
  first of them, gives the columns.
* `WellFormed.toSpec_ofSpec` — the database has the description
  that it was made from.
-/

namespace Playbook.Database

/-- Filling in a column that is empty or missing, after the ones that are
filled in already. -/
theorem fillColumn_next {filled : Dict (Dict Json)} {column : String}
    {values : Dict Json} (hnew : column ∉ filled.keys)
    (hids : Dict.Distinct values) (blank : List String) :
    fillColumn (filled ++ (column :: blank).map (·, [])) (column, values) =
      filled ++ [(column, values)] ++ blank.map (·, []) ∧
    fillColumn filled (column, values) = filled ++ [(column, values)] := by
  have hfill : Dict.extend [] values = values := Dict.ofList_eq_self hids
  have hnone : filled.get? column = none := Dict.get?_eq_none.mpr hnew
  constructor
  · have hget : (filled ++ (column, []) :: blank.map (·, [])).get? column =
        some ([] : Dict Json) := by
      rw [Dict.get?_append, hnone, Dict.get?, if_pos rfl]
      rfl
    unfold fillColumn
    rw [List.map_cons, hget, Option.getD_some, hfill, Dict.insert_append hnew,
      Dict.insert, if_pos rfl]
    simp
  · unfold fillColumn
    rw [hnone, Option.getD_none, hfill, Dict.insert_of_not_mem hnew]

/-- Filling in all columns, over empty columns for the first of them,
gives the columns. -/
theorem foldl_fillColumn_self {filled columns : Dict (Dict Json)}
    {blank : List String} (hdistinct : (filled ++ columns).Distinct)
    (hids : ∀ column values, (column, values) ∈ columns → Dict.Distinct values)
    (hblank : blank <+: columns.keys) :
    columns.foldl fillColumn (filled ++ blank.map (·, [])) = filled ++ columns := by
  induction columns generalizing filled blank with
  | nil =>
    rw [List.prefix_nil.mp hblank]
    rfl
  | cons entry columns ih =>
    obtain ⟨column, values⟩ := entry
    have hnew : column ∉ filled.keys := hdistinct.not_mem_of_append
    have hvalues := hids column values (List.mem_cons_self ..)
    have hrest : ∀ blank', blank' <+: Dict.keys columns →
        columns.foldl fillColumn
          (filled ++ [(column, values)] ++ blank'.map (·, [])) =
          filled ++ (column, values) :: columns := by
      intro blank' hblank'
      rw [ih (by simpa using hdistinct) (fun c vs hmem =>
        hids c vs (List.mem_cons_of_mem _ hmem)) hblank']
      simp
    rw [List.foldl_cons]
    -- the next column to be filled is the first of the empty ones, or there are
    -- none left and it is new
    cases blank with
    | nil =>
      rw [List.map_nil, List.append_nil, (fillColumn_next hnew hvalues []).2]
      have h := hrest [] List.nil_prefix
      rwa [List.map_nil, List.append_nil] at h
    | cons first blank =>
      obtain ⟨rfl, hprefix⟩ := List.cons_prefix_cons.mp hblank
      rw [(fillColumn_next hnew hvalues blank).1]
      exact hrest blank hprefix

theorem emptyColumns_eq_map (spec : DatabaseSpec) :
    emptyColumns spec = (emptyColumns spec).keys.map (·, []) := by
  unfold Dict.keys
  rw [List.map_map]
  have hself : ∀ entry ∈ emptyColumns spec,
      entry = (entry.1, ([] : Dict Json)) := fun entry hentry =>
    Prod.ext rfl (values_of_mem_emptyColumns hentry)
  exact ((List.map_congr_left fun entry hentry =>
    (hself entry hentry).symm).trans (List.map_id _)).symm

/-- A well-formed database has the description of the database that is made from
its description. -/
theorem WellFormed.toSpec_ofSpec {d : Database} (hd : d.WellFormed)
    (exportDir : String) :
    (ofSpec exportDir d.toSpec).toSpec = d.toSpec := by
  have hcolumns : d.columns.foldl fillColumn (emptyColumns d.toSpec) =
      d.columns := by
    rw [emptyColumns_eq_map]
    show d.columns.foldl fillColumn ([] ++ _) = [] ++ d.columns
    exact foldl_fillColumn_self hd.columns hd.ids hd.declared
  show { d.toSpec with
    data := d.columns.foldl fillColumn (emptyColumns d.toSpec) } = d.toSpec
  rw [hcolumns]
  rfl

end Playbook.Database
