import Playbook.Proofs.Database.Columns
import Playbook.Proofs.Registry.Free

/-!
# Playbook — what merging databases comes to

A merge writes the columns of one database over those of another, as far as the
other has them. So it is a union in which the second database wins: its values
take the place of old ones, its new ids follow the old ones, and everything else
is as it was. This says all there is to a merge; that it can be repeated and
that merges can be put together follow column by column.

Main results:

* `Merged.unique` — what a merge comes to determines the database that it leaves.
* `merge_merge` — merging one database after the other is merging the two,
  merged, if no column is lost between them.
* `Calls.run_merge` — a request to merge changes the target and no other item.
* `merge_exact` — all of this for databases that can come about.
-/

namespace Playbook

open Effect

namespace Database

/-! ## Columns of a merge -/

theorem WellFormed.distinct_getD {d : Database} (hd : d.WellFormed)
    (column : String) :
    Dict.Distinct ((d.columns.get? column).getD []) := by
  cases hv : d.columns.get? column with
  | none => exact List.nodup_nil
  | some values => exact hd.ids column values (Dict.mem_of_get? hv)

/-- Databases with the same columns in the same order are equal if they
agree in all else. -/
theorem eq_of_columns {d e : Database} (hd : d.WellFormed)
    (hframe : SameFrame d e) (hworkdir : e.workdir = d.workdir)
    (hexport : e.exportDir = d.exportDir)
    (h : ∀ column ∈ d.columns.keys, e.columns.get? column =
      d.columns.get? column) :
    e = d := by
  have hcolumns : e.columns = d.columns := Dict.eq_of_get? hd.columns hframe.keys h
  obtain ⟨name, variableSpecs, storages, exporters, -⟩ := hframe
  cases d
  cases e
  simp_all

variable {a b c e : Database}

/-- In the columns of the first database, values of the second
come before its own. -/
theorem cell_merge (hb : b.WellFormed) {column : String}
    (hcolumn : column ∈ a.columns.keys) (id : String) :
    (a.merge b).cell column id = (b.cell column id).or (a.cell column id) := by
  obtain ⟨old, hold⟩ := Dict.exists_get?_of_mem_keys hcolumn
  unfold cell
  rw [get?_merge, hold, Option.map_some, Option.bind_some, Option.bind_some,
    Dict.get?_extend_of_distinct (hb.distinct_getD column)]
  cases b.columns.get? column <;> rfl

/-- The ids of the first database stay in their places, and new ones of the
second follow. -/
theorem idsIn_merge (hb : b.WellFormed) {column : String}
    (hcolumn : column ∈ a.columns.keys) :
    (a.merge b).idsIn column = a.idsIn column ++
    (b.idsIn column).filter (· ∉ a.idsIn column) := by
  rw [idsIn_of_extend hcolumn (get?_merge a b column)]
  exact gather_of_nodup _ (hb.distinct_getD column)

/-- What the merge of a database into another comes to. -/
structure Merged (a b e : Database) : Prop where
  frame : SameFrame a e
  workdir : e.workdir = a.workdir
  exportDir : e.exportDir = a.exportDir
  cell : ∀ column ∈ a.columns.keys, ∀ id,
    e.cell column id = (b.cell column id).or (a.cell column id)
  ids : ∀ column ∈ a.columns.keys, e.idsIn column =
    a.idsIn column ++ (b.idsIn column).filter (· ∉ a.idsIn column)

theorem merged_merge (hb : b.WellFormed) : Merged a b (a.merge b) where
  frame := sameFrame_merge a b
  workdir := rfl
  exportDir := rfl
  cell _ hcolumn id := cell_merge hb hcolumn id
  ids _ hcolumn := idsIn_merge hb hcolumn

/-- What a merge comes to determines the database that it leaves. -/
theorem Merged.unique {e e' : Database} (he : e.WellFormed) (h : Merged a b e)
    (h' : Merged a b e') : e' = e := by
  have hkeys : e'.columns.keys = e.columns.keys :=
    h'.frame.keys.trans h.frame.keys.symm
  have hframe : SameFrame e e' :=
    ⟨h'.frame.name.trans h.frame.name.symm,
      h'.frame.variableSpecs.trans h.frame.variableSpecs.symm,
      h'.frame.storages.trans h.frame.storages.symm,
      h'.frame.exporters.trans h.frame.exporters.symm, hkeys⟩
  refine eq_of_columns he hframe (h'.workdir.trans h.workdir.symm)
    (h'.exportDir.trans h.exportDir.symm) ?_
  intro column hcolumn
  have ha : column ∈ a.columns.keys := h.frame.keys ▸ hcolumn
  obtain ⟨values, hvalues⟩ := Dict.exists_get?_of_mem_keys hcolumn
  obtain ⟨values', hvalues'⟩ := Dict.exists_get?_of_mem_keys (hkeys ▸ hcolumn)
  rw [hvalues, hvalues']
  -- a column is its ids and the values under them
  have hids : values'.keys = values.keys := by
    rw [← idsIn_of_get? hvalues, ← idsIn_of_get? hvalues', h.ids column ha,
      h'.ids column ha]
  refine congrArg some (Dict.eq_of_get?
    (he.ids column values (Dict.mem_of_get? hvalues)) hids fun id _ => ?_)
  have hcell := (h'.cell column ha id).trans (h.cell column ha id).symm
  unfold Database.cell at hcell
  rw [hvalues, hvalues'] at hcell
  exact hcell

/-! ## Repeated merges -/

/-- Merging a database once more changes nothing. -/
theorem merge_merge_self (ha : a.WellFormed) (hb : b.WellFormed) :
    (a.merge b).merge b = a.merge b := by
  refine eq_of_columns (ha.merge b) (sameFrame_merge _ _) rfl rfl fun column _ => ?_
  rw [get?_merge, get?_merge, Option.map_map]
  congr 1
  funext old
  exact Dict.extend_extend_self (hb.distinct_getD column) old

/-- Merging one database after the other is merging the two, merged, if the
first of them has the columns that the target gets from the second. -/
theorem merge_merge (ha : a.WellFormed) (hb : b.WellFormed)
    (h : ∀ column ∈ a.columns.keys, column ∈ c.columns.keys →
      column ∈ b.columns.keys) :
    (a.merge b).merge c = a.merge (b.merge c) := by
  have hframe : SameFrame (a.merge (b.merge c)) ((a.merge b).merge c) := by
    refine ⟨rfl, rfl, rfl, rfl, ?_⟩
    rw [(sameFrame_merge _ _).keys, (sameFrame_merge _ _).keys,
      (sameFrame_merge _ _).keys]
  refine eq_of_columns (ha.merge _) hframe rfl rfl fun column hcolumn => ?_
  rw [(sameFrame_merge _ _).keys] at hcolumn
  rw [get?_merge, get?_merge, get?_merge, get?_merge, Option.map_map]
  congr 1
  funext old
  cases hv : b.columns.get? column with
  | some values =>
    exact (Dict.extend_extend (hb.ids column values (Dict.mem_of_get? hv))
      _).symm
  | none =>
    -- the third database does not have the column either
    have hc : c.columns.get? column = none :=
      Dict.get?_eq_none.mpr fun hmem =>
        Dict.get?_eq_none.mp hv (h column hcolumn hmem)
    rw [hc]
    rfl

/-- The databases have the same set of columns. -/
def SameColumns (d e : Database) : Prop := ∀ column, column ∈ d.columns.keys ↔
    column ∈ e.columns.keys

end Database

/-! ## Requests to merge -/

/-- A request to merge a free database into another one changes the target and
nothing else. -/
theorem Calls.run_merge (ctx : Context) {h source : Handle} {a b : Database}
    {w : World} (hne : h.slot ≠ source.slot)
    (hh : w.slots[h.slot]? = some ⟨.database a, false⟩)
    (hsource : w.slots[source.slot]? = some ⟨.database b, false⟩) :
    (Calls.all ctx h (.merge source)).run w =
    (.ok .null, w.setItem h.slot (.database (a.merge b))) := by
  -- the source is locked within the request that has the target locked
  let w₁ := w.setLocked h.slot true
  have hfree₁ : w₁.isLocked source.slot = false := by
    rw [World.isLocked_setLocked, if_neg fun heq => hne heq.1]
    exact World.FreeAt.isLocked ⟨_, hsource⟩
  have hitem : (w₁.setLocked source.slot true).slots[source.slot]? =
      some ⟨.database b, true⟩ := by
    rw [World.getElem?_setLocked, if_pos rfl, World.getElem?_setLocked,
      if_neg hne, hsource]
    rfl
  have hbody : (do Item.mergeWith h (.database a) (← Act.item source) : Act
      Unit).run (w₁.setLocked source.slot true) =
      (.ok (), (w₁.setLocked source.slot true).setItem h.slot
        (.database (a.merge b))) := by
    rw [run_bind, Act.run_item, hitem]
    rfl
  have hlocking : (Act.locking
      source (do Item.mergeWith h (.database a) (← Act.item source))).run w₁ =
      (.ok (), w₁.setItem h.slot (.database (a.merge b))) := by
    rw [Act.run_locking, if_neg (Bool.eq_false_iff.mp hfree₁), hbody]
    exact congrArg (Prod.mk _) (World.setItem_locked hfree₁ ..)
  rw [Calls.run_all_of_free hh, Item.answer, run_bind_of_ok hlocking]
  exact congrArg (Prod.mk _)
    (World.setItem_locked (World.FreeAt.isLocked ⟨_, hh⟩) ..)

namespace Database

/-- **Merging is a union in which the second database wins.** Of reachable
databases, the merge of `b` into `a` has the columns of `a`; in each of them stand
the ids of `a` and then the new ids of `b`, with the values of `b` where it has any;
and it is the only such database. Merging `b` once more changes nothing, and if
three databases have the same set of columns, merging `b` and then `c` into `a` is
merging `b`, into which `c` was merged. A request to merge does this to its target
and leaves every other item, the source among them, as it was. -/
theorem merge_exact {a b : Database} (ha : a.Reachable) (hb : b.Reachable) :
    (∀ e : Database, Merged a b e ↔ e = a.merge b) ∧
      (a.merge b).merge b = a.merge b ∧
      (∀ c : Database, SameColumns a b → SameColumns a c →
        (a.merge b).merge c = a.merge (b.merge c)) ∧
      ∀ (ctx : Context) (h source : Handle) (w : World), h.slot ≠ source.slot →
        w.slots[h.slot]? = some ⟨.database a, false⟩ →
        w.slots[source.slot]? = some ⟨.database b, false⟩ →
        let after := (Calls.all ctx h (.merge source)).run w
        after.1 = .ok .null ∧ after.2.itemAt h.slot = some (.database (a.merge b)) ∧
          ∀ slot, slot ≠ h.slot → after.2.itemAt slot = w.itemAt slot := by
  have hawell := ha.wellFormed
  have hbwell := hb.wellFormed
  have hmerged : Merged a b (a.merge b) := merged_merge hbwell
  refine ⟨fun e => ⟨hmerged.unique (hawell.merge b), ?_⟩,
    merge_merge_self hawell hbwell, ?_, ?_⟩
  · rintro rfl
    exact hmerged
  · intro c hab _
    exact merge_merge hawell hbwell fun column hcolumn _ => (hab column).mp hcolumn
  · intro ctx h source w hne hh hsource
    rw [Calls.run_merge ctx hne hh hsource]
    have hold : w.itemAt h.slot = some (.database a) := by
      unfold World.itemAt
      rw [hh]
      rfl
    refine ⟨rfl, World.itemAt_setItem_self hold, fun slot hslot => ?_⟩
    exact (World.itemAt_setItem ..).trans (if_neg hslot.symm)

/-- Two databases with the same columns, declared in another order: an old value
gives way, and a new id comes last. -/
theorem values_of_second :
    let a := ofSpec "tmp" {
      name := "a", variableSpecs := [.obj [("name", .str "x")]], storages := ["y"]
      data := [("x", [("p", .ofInt 1), ("q", .ofInt 2)])] }
    let b := ofSpec "tmp" {
      name := "b", variableSpecs := [.obj [("name", .str "y")]], storages := ["x"]
      data := [("x", [("r", .ofInt 30), ("p", .ofInt 10)])] }
    let h : Handle := ⟨"a", 0⟩
    let source : Handle := ⟨"b", 1⟩
    let w : World :=
      { disk := .empty, slots := [⟨.database a, false⟩, ⟨.database b, false⟩] }
    let ctx : Context := {
      settings := {}
      host :=
        { start := fun _ _ disk => .ok { status := .exited 0, disk }
          elapsed := fun _ => 0
          horizon := 1 } }
    let after := (Calls.all ctx h (.merge source)).run w
    a.Reachable ∧ b.Reachable ∧ (a.merge b).idsIn "x" = ["p", "q", "r"] ∧
      (a.merge b).cell "x" "p" = some (.ofInt 10) ∧
      (a.merge b).cell "x" "q" = some (.ofInt 2) ∧ SameColumns a b ∧
      (a.merge b).merge a = a.merge (b.merge a) ∧
      after.2.itemAt 0 = some (.database (a.merge b)) ∧
      after.2.itemAt 1 = some (.database b) := by
  intro a b h source w ctx after
  have ha : a.Reachable := ⟨_, _, .refl⟩
  have hb : b.Reachable := ⟨_, _, .refl⟩
  obtain ⟨hmerge, -, hthree, hrequest⟩ := merge_exact ha hb
  obtain ⟨-, -, -, hcell, hids⟩ := (hmerge (a.merge b)).mpr rfl
  have hx : "x" ∈ a.columns.keys := by decide
  have hcolumns : SameColumns a b := by
    intro column
    have hkeys : a.columns.keys = ["x", "y"] ∧
        b.columns.keys = ["y", "x"] := ⟨rfl, rfl⟩
    simp [hkeys, or_comm]
  obtain ⟨-, htarget, hothers⟩ := hrequest ctx h source w (by decide) rfl rfl
  exact ⟨ha, hb, hids "x" hx, hcell "x" hx "p", hcell "x" hx "q", hcolumns,
    hthree a hcolumns fun _ => Iff.rfl, htarget,
    hothers 1 (by decide)⟩

end Database

end Playbook
