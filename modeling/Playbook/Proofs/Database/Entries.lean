import Mathlib.Data.List.Induction
import Mathlib.Data.List.Basic
import Playbook.Proofs.Database.Change

/-!
# Playbook — the entries of a database

No list of entries is kept: the ids are gathered from the columns, one column
after the other, and an id that was there before is left out. So the entries are
the ids that have a value anywhere, each once, and of two of them the first one
is the one that is met first on the way through the columns.

Main results:

* `keys_extend_eq_gather` — writing to a column gathers its ids too.
* `entries_eq_gather` — the entries are gathered from the ids of the columns.
* `mem_entries` — an entry is an id with a value in some column.
* `pairwise_gather` — gathered ids come in the order in which they are met.
-/

namespace Playbook.Database

/-! ## Gathering ids -/

/-- Adds the ids that are not there yet, in the order in which they first occur. -/
def gather (ids more : List String) : List String :=
  more.foldl (fun ids id => if ids.contains id then ids else ids ++ [id]) ids

theorem gather_cons (ids : List String) (id : String) (more : List String) :
    gather ids (id :: more) = if id ∈ ids then gather ids more
    else gather (ids ++ [id]) more := by
  by_cases h : id ∈ ids
  · simp [gather, h]
  · simp [gather, h]

theorem gather_append (ids a b : List String) :
    gather ids (a ++ b) = gather (gather ids a) b := List.foldl_append ..

theorem nodup_gather {ids : List String} (h : ids.Nodup) (more : List String) :
    (gather ids more).Nodup := by
  induction more generalizing ids with
  | nil => exact h
  | cons id more ih =>
    rw [gather_cons]
    split
    · exact ih h
    · next hnew => exact ih (List.nodup_middle.mpr (by simpa using ⟨hnew, h⟩))

/-- Of distinct ids, the new ones are added as they come. -/
theorem gather_of_nodup (ids : List String) {more : List String} (h : more.Nodup) :
    gather ids more = ids ++ more.filter (· ∉ ids) := by
  induction more generalizing ids with
  | nil => simp [gather]
  | cons id more ih =>
    obtain ⟨hnew, hmore⟩ := List.nodup_cons.mp h
    rw [gather_cons]
    by_cases hold : id ∈ ids
    · rw [if_pos hold, ih ids hmore, List.filter_cons_of_neg (by simpa using hold)]
    · have hsame : more.filter (· ∉ ids ++ [id]) = more.filter (· ∉ ids) := by
        refine List.filter_congr fun other hother => ?_
        have hne : other ≠ id := fun heq => hnew (heq ▸ hother)
        simp [hne]
      rw [if_neg hold, ih _ hmore, hsame,
        List.filter_cons_of_pos (by simpa using hold), List.append_assoc]
      rfl

/-- Gathering more ids does not concern a choice among those that are there. -/
theorem filter_gather {ids : List String} {keep : String → Bool}
    (h : ∀ id, keep id = true → id ∈ ids) (more : List String) :
    (gather ids more).filter keep = ids.filter keep := by
  induction more generalizing ids with
  | nil => rfl
  | cons id more ih =>
    rw [gather_cons]
    split
    · exact ih h
    · next hnew =>
      have hdrop : keep id = false := by
        cases hk : keep id with
        | false => rfl
        | true => exact absurd (h id hk) hnew
      rw [ih fun other hother => List.mem_append_left _ (h other hother)]
      simp [hdrop]

theorem mem_gather {ids more : List String} {id : String} :
    id ∈ gather ids more ↔ id ∈ ids ∨ id ∈ more := by
  induction more generalizing ids with
  | nil => simp [gather]
  | cons other more ih =>
    rw [gather_cons, List.mem_cons]
    split
    · next hold =>
      rw [ih]
      constructor
      · rintro (h | h)
        · exact Or.inl h
        · exact Or.inr (Or.inr h)
      · rintro (h | rfl | h)
        · exact Or.inl h
        · exact Or.inl hold
        · exact Or.inr h
    · rw [ih, List.mem_append, List.mem_singleton, or_assoc]

/-- Gathered ids come in the order in which they are met. -/
theorem pairwise_gather (ids : List String) :
    (gather [] ids).Pairwise fun a b => ids.idxOf a < ids.idxOf b := by
  -- along the ids from the first one on: the next one is met later than
  -- all that are there
  induction ids using List.reverseRec with
  | nil => exact List.Pairwise.nil
  | append_singleton ids next ih =>
    have hmem : ∀ {id}, id ∈ gather [] ids → id ∈ ids :=
      fun h => by simpa using mem_gather.mp h
    have hold : (gather [] ids).Pairwise fun a b =>
      (ids ++ [next]).idxOf a < (ids ++ [next]).idxOf b := by
      refine ih.imp_of_mem ?_
      intro a b ha hb hlt
      rwa [List.idxOf_append_of_mem (hmem ha), List.idxOf_append_of_mem (hmem hb)]
    rw [gather_append, gather_cons]
    split
    · exact hold
    · next hnew =>
      have hnext : next ∉ ids := fun h => hnew (mem_gather.mpr (Or.inr h))
      refine List.pairwise_append.mpr ⟨hold, List.pairwise_singleton _ _, ?_⟩
      intro a ha b hb
      obtain rfl := List.mem_singleton.mp hb
      have hlt := List.idxOf_lt_length_of_mem (hmem ha)
      rw [List.idxOf_append_of_mem (hmem ha), List.idxOf_append_of_notMem hnext]
      omega

/-- Writing to a column gathers its ids. -/
theorem keys_extend_eq_gather (values more : Dict Json) :
    (values.extend more).keys = gather values.keys more.keys := by
  induction more generalizing values with
  | nil => rfl
  | cons entry more ih =>
    rw [Dict.extend_cons, ih, Dict.keys_cons, gather_cons, Dict.keys_insert]
    split <;> rfl

/-! ## The ids of columns -/

/-- The ids that have a value in a column, in their order there. -/
def idsIn (d : Database) (column : String) :
    List String := Dict.keys ((d.columns.get? column).getD [])

theorem mem_idsIn {d : Database} {column id : String} :
    id ∈ d.idsIn column ↔ (d.cell column id).isSome := by
  unfold idsIn cell
  cases d.columns.get? column with
  | none => simp
  | some values =>
    rw [← Dict.contains_iff_mem_keys]
    rfl

/-- The entries are gathered from the ids of the columns. -/
theorem entries_eq_gather {d : Database} (hd : d.WellFormed) :
    d.entries = gather [] (d.columns.keys.flatMap d.idsIn) := by
  have hflat : d.columns.keys.flatMap d.idsIn =
      d.columns.values.flatMap Dict.keys := by
    have hkeys := congrArg (List.flatMap fun values =>
        Dict.keys (Option.getD values [])) (Dict.map_get?_keys hd.columns)
    rw [List.flatMap_map, List.flatMap_map] at hkeys
    exact hkeys
  rw [hflat]
  rfl

theorem nodup_entries (d : Database) : d.entries.Nodup :=
  nodup_gather List.nodup_nil _

/-- An entry is an id with a value in some column. -/
theorem mem_entries {d : Database} (hd : d.WellFormed) {id : String} :
    id ∈ d.entries ↔ ∃ column, (d.cell column id).isSome := by
  rw [entries_eq_gather hd, mem_gather, List.mem_flatMap]
  constructor
  · rintro (hnil | ⟨column, -, hid⟩)
    · cases hnil
    · exact ⟨column, mem_idsIn.mp hid⟩
  · rintro ⟨column, hcell⟩
    -- a value is in a column that there is
    have hcolumn : column ∈ d.columns.keys := by
      obtain ⟨value, hvalue⟩ := Option.isSome_iff_exists.mp hcell
      obtain ⟨values, hvalues, -⟩ := Option.bind_eq_some_iff.mp hvalue
      exact Dict.mem_keys_of_get? hvalues
    exact Or.inr ⟨column, hcolumn, mem_idsIn.mpr hcell⟩

/-- A value of an entry is a value of a column. -/
theorem get?_entry {d : Database} (hd : d.WellFormed) (id column : String) :
    Dict.get? (d.entry id) column = d.cell column id := by
  have hcolumns := hd.columns
  unfold entry cell
  generalize d.columns = columns at hcolumns ⊢
  induction columns with
  | nil => rfl
  | cons first rest ih =>
    obtain ⟨name, old⟩ := first
    obtain ⟨hnew, hrest⟩ := List.nodup_cons.mp hcolumns
    rw [List.filterMap_cons]
    by_cases hname : name = column
    · subst hname
      have hnone : Dict.get? rest name = none := Dict.get?_eq_none.mpr hnew
      have htail := ih hrest
      rw [hnone] at htail
      cases hvalue : Dict.get? old id with
      | none => simpa [Dict.get?, hvalue] using htail
      | some value => simp [Dict.get?, hvalue]
    · have htail := ih hrest
      cases hvalue : Dict.get? old id with
      | none => simpa [Dict.get?, hvalue, hname] using htail
      | some value => simpa [Dict.get?, hvalue, hname] using htail

end Playbook.Database
