import Mathlib.Data.List.Basic
import Mathlib.Data.Option.Basic
import Playbook.Proofs.Database.Entries

/-!
# Playbook — the order of rows

Every column keeps the order in which its own values were written, and the
entries of a database are the ids in the order in which they first occur column
by column. So a column lists its values in the order of the entries exactly if
its ids come in turn (`InTurn`): those that earlier columns know as well come
first, in the order in which these know them. Whoever fills columns in another
order, as an update of storages may, gets rows that belong to other entries.

Main results:

* `followsOrder_iff` — ids come in turn exactly if they are arranged
  after the earlier ones.
* `filter_entries` — so are the entries of a column in the order of all entries.
* `inTurn_iff` — ids come in turn exactly if they come in the order of all entries.
* `rows_in_entry_order` — when columns and exports follow the order of the entries.
-/

namespace Playbook.Database

/-! ## Ids in turn -/

/-- The ids of the columns before a column. -/
def earlierIds (d : Database) (column : String) : List String :=
  gather [] ((Dict.values (d.columns.takeWhile (·.1 ≠ column))).flatMap Dict.keys)

/-- In a list of ids, those that come from earlier ones come first
and in their order. -/
def FollowsOrder (first ids : List String) : Prop :=
  ids.Pairwise fun a b => b ∈ first → first.idxOf a < first.idxOf b

instance (first ids : List String) : Decidable (FollowsOrder first ids) :=
  inferInstanceAs (Decidable (ids.Pairwise fun a b => b ∈ first →
    first.idxOf a < first.idxOf b))

/-- The ids of a column that earlier columns know as well come first in it, in
the order of the earlier columns. -/
def InTurn (d : Database) (column : String) : Prop :=
  FollowsOrder (d.earlierIds column) (Dict.keys ((d.columns.get? column).getD []))

instance (d : Database) (column : String) : Decidable (d.InTurn column) :=
  inferInstanceAs (Decidable (FollowsOrder _ _))

theorem pairwise_idxOf {ids : List String} (h : ids.Nodup) :
    ids.Pairwise fun a b => ids.idxOf a < ids.idxOf b := by
  rw [List.pairwise_iff_getElem]
  intro i j hi hj hlt
  rw [h.idxOf_getElem i hi, h.idxOf_getElem j hj]
  exact hlt

/-- Ids in the order in which a database takes them up: those that earlier ids
leave of them, then the new ones. -/
def arranged (first ids : List String) : List String :=
  first.filter (· ∈ ids) ++ ids.filter (· ∉ first)

/-- The order of arranged ids: known ids are compared by the earlier ids, new
ones by the list itself. -/
structure Before (first ids : List String) (a b : String) : Prop where
  known : b ∈ first → first.idxOf a < first.idxOf b
  new : a ∉ first → b ∉ first → ids.idxOf a < ids.idxOf b

theorem idxOf_lt_of_not_mem {first : List String} {a b : String}
    (ha : a ∉ first) (hb : b ∈ first) :
    first.idxOf b < first.idxOf a := by
  rw [List.idxOf_eq_length ha]
  exact List.idxOf_lt_length_of_mem hb

theorem Before.asymm {first ids : List String} {a b : String}
    (h : Before first ids a b) (k : Before first ids b a) :
    False := by
  by_cases ha : a ∈ first
  · have hlt := k.known ha
    by_cases hb : b ∈ first
    · have hgt := h.known hb
      omega
    · have hgt := idxOf_lt_of_not_mem hb ha
      omega
  · by_cases hb : b ∈ first
    · have hlt := h.known hb
      have hgt := idxOf_lt_of_not_mem ha hb
      omega
    · have hlt := h.new ha hb
      have hgt := k.new hb ha
      omega

theorem mem_first_of_mem_filter {first ids : List String} {id : String}
    (h : id ∈ first.filter (· ∈ ids)) :
    id ∈ first := (List.mem_filter.mp h).1

theorem not_mem_first_of_mem_filter {first ids : List String} {id : String}
    (h : id ∈ ids.filter (· ∉ first)) :
    id ∉ first := by simpa using (List.mem_filter.mp h).2

theorem pairwise_arranged {first ids : List String} (hfirst : first.Nodup)
    (hids : ids.Nodup) :
    (arranged first ids).Pairwise (Before first ids) := by
  have hold : (first.filter (· ∈ ids)).Pairwise fun a b =>
    first.idxOf a < first.idxOf b :=
    (pairwise_idxOf hfirst).sublist List.filter_sublist
  have hnew : (ids.filter (· ∉ first)).Pairwise fun a b =>
    ids.idxOf a < ids.idxOf b :=
    (pairwise_idxOf hids).sublist List.filter_sublist
  unfold arranged
  rw [List.pairwise_append]
  refine ⟨?_, ?_, ?_⟩
  · refine hold.imp_of_mem ?_
    intro a b ha _ hlt
    exact ⟨fun _ => hlt, fun hna => absurd (mem_first_of_mem_filter ha) hna⟩
  · refine hnew.imp_of_mem ?_
    intro a b _ hb hlt
    exact ⟨fun hb' => absurd hb' (not_mem_first_of_mem_filter hb), fun _ _ => hlt⟩
  · intro a ha b hb
    exact ⟨fun hb' => absurd hb' (not_mem_first_of_mem_filter hb),
      fun hna => absurd (mem_first_of_mem_filter ha) hna⟩

theorem perm_arranged {first ids : List String} (hfirst : first.Nodup)
    (hids : ids.Nodup) :
    ids.Perm (arranged first ids) := by
  have hdisjoint : ∀ a ∈ first.filter (· ∈ ids),
      ∀ b ∈ ids.filter (· ∉ first), a ≠ b := by
    rintro a ha b hb rfl
    exact not_mem_first_of_mem_filter hb (mem_first_of_mem_filter ha)
  have hnodup : (arranged first ids).Nodup :=
    List.nodup_append.mpr ⟨hfirst.filter _, hids.filter _, hdisjoint⟩
  refine (List.perm_ext_iff_of_nodup hids hnodup).mpr ?_
  intro id
  by_cases hid : id ∈ first <;> simp [arranged, hid]

/-- Ids come in turn exactly if they are arranged already. -/
theorem followsOrder_iff {first ids : List String} (hfirst : first.Nodup)
    (hids : ids.Nodup) :
    FollowsOrder first ids ↔ ids = arranged first ids := by
  have harranged := pairwise_arranged hfirst hids
  constructor
  · intro hturn
    have hbefore : ids.Pairwise (Before first ids) :=
      hturn.imp₂ (fun _ _ hknown hlt => ⟨hknown, fun _ _ => hlt⟩)
        (pairwise_idxOf hids)
    -- two arrangements of the same ids that are both in this order are the same
    exact (perm_arranged hfirst hids).eq_of_pairwise (fun _ _ _ _ h k =>
      (h.asymm k).elim) hbefore harranged
  · intro heq
    unfold FollowsOrder
    rw [heq]
    exact harranged.imp fun h => h.known

/-! ## Columns -/

/-- The values of a column, for the entries one after the other. -/
def walk (d : Database) (column : String) :
    List Json := d.entries.filterMap (d.cell column)

variable {d : Database} {column : String} {values : Dict Json}

theorem nodup_earlierIds (d : Database) (column : String) :
    (d.earlierIds column).Nodup :=
  nodup_gather List.nodup_nil _

/-- In the order of all entries, the entries of a column are arranged after
those of earlier columns. -/
theorem filter_entries (hd : d.WellFormed)
    (hv : d.columns.get? column = some values) :
    d.entries.filter (· ∈ values.keys) = arranged (d.earlierIds column)
      values.keys := by
  obtain ⟨rest, hsplit⟩ := Dict.split_of_get? hv
  have hids : Dict.Distinct values := hd.ids column values (Dict.mem_of_get? hv)
  -- the entries are gathered from the earlier columns, then from this one,
  -- then from the rest
  have hentries : d.entries =
      gather (d.earlierIds column ++ values.keys.filter (· ∉ d.earlierIds column))
        ((Dict.values rest).flatMap Dict.keys) := by
    rw [← gather_of_nodup _ hids]
    show gather [] (d.columns.values.flatMap Dict.keys) = _
    unfold earlierIds
    rw [← gather_append, ← gather_append]
    conv => lhs; rw [hsplit]
    simp [Dict.values, List.flatMap_append]
  have hkeep : ∀ id, decide (id ∈ values.keys) = true →
      id ∈ d.earlierIds column ++ values.keys.filter (· ∉ d.earlierIds column) := by
    intro id hid
    by_cases hearlier : id ∈ d.earlierIds column
    · exact List.mem_append_left _ hearlier
    · exact List.mem_append_right _
        (List.mem_filter.mpr ⟨of_decide_eq_true hid, by simpa using hearlier⟩)
  have hall : (values.keys.filter (· ∉ d.earlierIds column)).filter
      (· ∈ values.keys) =
      values.keys.filter (· ∉ d.earlierIds column) :=
    List.filter_eq_self.mpr fun id hid => decide_eq_true (List.mem_filter.mp hid).1
  rw [hentries, filter_gather hkeep, List.filter_append, hall]
  rfl

/-- The ids of a column come in turn exactly if they come in the
order of the entries. -/
theorem inTurn_iff (hd : d.WellFormed) (hv : d.columns.get? column = some values) :
    d.InTurn column ↔ values.keys = d.entries.filter (· ∈ values.keys) := by
  have hids : Dict.Distinct values := hd.ids column values (Dict.mem_of_get? hv)
  unfold InTurn
  rw [hv, filter_entries hd hv]
  exact followsOrder_iff (nodup_earlierIds d column) hids

theorem cell_eq_get? (hv : d.columns.get? column = some values) :
    d.cell column = values.get? := by
  funext id
  unfold cell
  rw [hv]
  rfl

/-- Walking over the entries passes over those that the column does not know. -/
theorem map_walk (hv : d.columns.get? column = some values) :
    (d.walk column).map some = (d.entries.filter (· ∈ values.keys)).map
      values.get? := by
  unfold walk
  rw [cell_eq_get? hv]
  induction d.entries with
  | nil => rfl
  | cons id rest ih =>
    cases hid : values.get? id with
    | none =>
      have hnot : id ∉ values.keys := Dict.get?_eq_none.mp hid
      rw [List.filterMap_cons_none hid,
        List.filter_cons_of_neg (by simpa using hnot), ih]
    | some value =>
      have hin : id ∈ values.keys := Dict.mem_keys_of_get? hid
      rw [List.filterMap_cons_some hid,
        List.filter_cons_of_pos (by simpa using hin),
        List.map_cons, List.map_cons, ih, hid]

/-- With its ids in turn, a column lists its values in the order of the entries. -/
theorem values_eq_walk (hd : d.WellFormed)
    (hv : d.columns.get? column = some values) (h : d.InTurn column) :
    values.values = d.walk column := by
  have hids : Dict.Distinct values := hd.ids column values (Dict.mem_of_get? hv)
  have hkeys := (inTurn_iff hd hv).mp h
  have hmap := Dict.map_get?_keys hids
  rw [hkeys, ← map_walk hv] at hmap
  exact (List.map_injective_iff.mpr (Option.some_injective _) hmap).symm

theorem eq_of_map_eq {α β : Type} {f : α → β} {as bs : List α}
    (h : as.map f = bs.map f) (hf : ∀ a ∈ as, ∀ b ∈ bs, f a = f b → a = b) :
    as = bs := by
  induction as generalizing bs with
  | nil => exact (List.map_eq_nil_iff.mp h.symm).symm
  | cons a as ih =>
    cases bs with
    | nil => cases h
    | cons b bs =>
      obtain ⟨hhead, htail⟩ := List.cons.inj h
      rw [hf a (List.mem_cons_self ..) b (List.mem_cons_self ..) hhead]
      rw [ih htail fun x hx y hy =>
        hf x (List.mem_cons_of_mem _ hx) y (List.mem_cons_of_mem _ hy)]

/-- If no two values of a column are equal, it lists them in the order of the
entries only with its ids in turn. -/
theorem inTurn_of_values_eq_walk (hd : d.WellFormed)
    (hv : d.columns.get? column = some values) (hdistinct : values.values.Nodup)
    (h : values.values = d.walk column) : d.InTurn column := by
  have hids : Dict.Distinct values := hd.ids column values (Dict.mem_of_get? hv)
  have hmap : values.keys.map values.get? =
      (d.entries.filter (· ∈ values.keys)).map values.get? := by
    rw [Dict.map_get?_keys hids, h, map_walk hv]
  -- with distinct values, the order of the values determines that of the ids
  have hinjective : ∀ a ∈ values.keys, ∀ b ∈ values.keys,
      values.get? a = values.get? b → a = b := by
    have hnodup : (values.keys.map values.get?).Nodup := by
      rw [Dict.map_get?_keys hids]
      exact hdistinct.map (Option.some_injective _)
    exact List.inj_on_of_nodup_map hnodup
  refine (inTurn_iff hd hv).mpr (eq_of_map_eq hmap fun a ha b hb =>
    hinjective a ha b ?_)
  exact of_decide_eq_true (List.mem_filter.mp hb).2

/-! ## Exports -/

/-- An array of an export holds the values of its column. -/
theorem column_of_mem_exportColumns {exporter : String}
    {arrays : List (String × Json)} {array : Json}
    (h : d.exportColumns exporter = .ok arrays)
    (hmem : (column, array) ∈ arrays) :
    ∃ values, d.columns.get? column = some values ∧ array = .arr values.values := by
  unfold exportColumns at h
  cases hx : d.exporters.get? exporter with
  | none =>
    rw [hx] at h
    cases h
  | some names =>
    rw [hx] at h
    obtain ⟨name, -, hname⟩ := Effect.exists_of_mem_mapM h hmem
    unfold Database.column at hname
    cases hv : d.columns.get? name with
    | none =>
      rw [hv] at hname
      cases hname
    | some values =>
      rw [hv] at hname
      cases hname
      exact ⟨values, hv, rfl⟩

/-- A column that has a value for every entry, with its ids in turn, has the
value of the entry in every row. -/
theorem getElem?_values (hd : d.WellFormed)
    (hv : d.columns.get? column = some values)
    (hall : ∀ id ∈ d.entries, (d.cell column id).isSome) (h : d.InTurn column)
    {i : Nat} {id : String} (hi : d.entries[i]? = some id) :
    values.values[i]? = d.cell column id := by
  -- the column knows every entry, so walking over the entries skips none
  have hkeys : d.entries.filter (· ∈ values.keys) = d.entries := by
    refine List.filter_eq_self.mpr fun id hid => decide_eq_true ?_
    have hsome := hall id hid
    rw [cell_eq_get? hv] at hsome
    obtain ⟨value, hvalue⟩ := Option.isSome_iff_exists.mp hsome
    exact Dict.mem_keys_of_get? hvalue
  have hmap := map_walk hv
  rw [hkeys, ← values_eq_walk hd hv h, ← cell_eq_get? hv] at hmap
  have hrow := congrArg (·[i]?) hmap
  simp only [List.getElem?_map, hi, Option.map_some] at hrow
  cases hvalue : values.values[i]? with
  | none =>
    rw [hvalue] at hrow
    cases hrow
  | some value =>
    rw [hvalue] at hrow
    exact Option.some.inj hrow

/-- **When rows are in the order of the entries.** In a reachable database, a
column lists the values of its entries in the order of all entries exactly if
its ids come in turn; the values alone can only hide that if two of them are
equal. Where the ids of a complete column of an export come in turn, each row
belongs to the entry of its place. -/
theorem rows_in_entry_order (hd : d.Reachable) :
    (∀ column values, d.columns.get? column = some values →
      (values.keys = d.entries.filter (· ∈ values.keys) ↔ d.InTurn column) ∧
      (d.InTurn column → d.column column = .ok (d.walk column)) ∧
      (values.values.Nodup → d.column column = .ok (d.walk column) →
        d.InTurn column)) ∧
    (∀ exporter arrays, d.exportColumns exporter = .ok arrays →
      ∀ column array, (column, array) ∈ arrays →
      (∀ id ∈ d.entries, (d.cell column id).isSome) → d.InTurn column →
      ∃ rows, array = .arr rows ∧ ∀ (i : Nat) id, d.entries[i]? = some id →
      rows[i]? = d.cell column id) := by
  have hwell := hd.wellFormed
  constructor
  · intro column values hv
    have hcolumn : d.column column = .ok values.values := by
      unfold Database.column
      rw [hv]
    refine ⟨(inTurn_iff hwell hv).symm, fun hturn => ?_, fun hdistinct heq => ?_⟩
    · rw [hcolumn, values_eq_walk hwell hv hturn]
    · rw [hcolumn] at heq
      exact inTurn_of_values_eq_walk hwell hv hdistinct (Except.ok.inj heq)
  · intro exporter arrays harrays column array hmem hall hturn
    obtain ⟨values, hv, rfl⟩ := column_of_mem_exportColumns harrays hmem
    exact ⟨values.values, rfl, fun i id hi =>
      getElem?_values hwell hv hall hturn hi⟩

/-- Storages that are filled in the order of the entries have their ids in turn. -/
theorem storages_filled_in_turn :
    let start := ofSpec "tmp" {
      name := "doe", variableSpecs := [.obj [("name", .str "x")]], storages := ["y"]
      exporters := [("npz.xy", ["x", "y"])] }
    let added := (Change.addEntry "b" [("x", .ofInt 2)]).after
        ((Change.addEntry "a" [("x", .ofInt 1)]).after start)
    let d :=
      (Change.updateEntries ["a", "b"]
        [("y", .json (.arr [.ofInt 10, .ofInt 20]))]).after added
    d.column "y" = .ok (d.walk "y") ∧
      ∃ rows, Json.arr [.ofInt 10, .ofInt 20] = .arr rows ∧
        ∀ (i : Nat) id, d.entries[i]? = some id → rows[i]? = d.cell "y" id := by
  intro start added d
  have hreachable : d.Reachable := ⟨_, _, ((Leads.refl.after _).after _).after _⟩
  have hturn : d.InTurn "y" := by decide
  obtain ⟨hcolumns, hexports⟩ := rows_in_entry_order hreachable
  exact ⟨(hcolumns "y" [("a", .ofInt 10), ("b", .ofInt 20)] rfl).2.1 hturn,
    hexports "npz.xy" _ rfl "y" _
      (List.mem_cons_of_mem _ (List.mem_cons_self ..)) (by decide) hturn⟩

/-- Storages that are filled in another order put rows next to other entries, in
a complete export too. -/
theorem rows_of_other_entries :
    let start := ofSpec "tmp" {
      name := "doe", variableSpecs := [.obj [("name", .str "x")]], storages := ["y"]
      exporters := [("npz.xy", ["x", "y"])] }
    let added := (Change.addEntry "b" [("x", .ofInt 2)]).after
        ((Change.addEntry "a" [("x", .ofInt 1)]).after start)
    let d :=
      (Change.updateEntries ["b", "a"]
        [("y", .json (.arr [.ofInt 20, .ofInt 10]))]).after added
    d.Reachable ∧ d.entries = ["a", "b"] ∧
      d.column "y" = .ok [.ofInt 20, .ofInt 10] ∧
      d.walk "y" = [.ofInt 10, .ofInt 20] ∧
      d.exportColumns "npz.xy" = .ok [("x", .arr [.ofInt 1, .ofInt 2]),
        ("y", .arr [.ofInt 20, .ofInt 10])] :=
  ⟨⟨_, _, ((Leads.refl.after _).after _).after _⟩, rfl, rfl, rfl, rfl⟩

end Playbook.Database
