import Playbook.Answer
import Playbook.Proofs.Database.Change
import Playbook.Proofs.World

/-!
# Playbook — what a failing call leaves in a database

A call that fails should leave the database as it was. Updates of storages and
merges do: they look at all of their arguments before they write. Additions look for
a column only when its turn comes, so the values before the first unknown column are
written by the time the call fails. Rows are written one after the other, but as
they all have the same columns, the first is the only one that can fail.

Main results:

* `columns_setRow_known` — the values before an unknown column change nothing
  exactly if they were there already.
* `addEntries_fails` — what an addition of rows that fails has written.
* `columns_of_failing_call` — for each call, exactly when its failure leaves all
  columns as they were.
-/

namespace Playbook.Database

open Effect

/-! ## Rows that are written in part -/

/-- Every one of the values is there already. -/
def Holds (d : Database) (id : String) (values : Dict Json) : Prop :=
  ∀ entry ∈ values, d.cell entry.1 id = some entry.2

theorem setRow_of_holds {d : Database} {id : String} {values : Dict Json}
    (h : d.Holds id values) :
    d.setRow id values = d := by
  induction values with
  | nil => rfl
  | cons entry rest ih =>
    rw [setRow_cons, set_of_cell (h entry (List.mem_cons_self ..))]
    exact ih fun e he => h e (List.mem_cons_of_mem _ he)

theorem distinct_known (d : Database) {values : Dict Json}
    (h : values.Distinct) : (d.known values).Distinct :=
  h.sublist ((List.takeWhile_sublist _).map _)

theorem mem_keys_of_mem_known {d : Database} {values : Dict Json}
    {entry : String × Json} (h : entry ∈ d.known values) :
    entry.1 ∈ d.columns.keys :=
  Dict.contains_eq_true.mp
    (List.mem_takeWhile_imp (p := fun entry : String × Json =>
      d.columns.contains entry.1) h)

/-- The values before an unknown column change nothing exactly if they were
there already. -/
theorem columns_setRow_known (d : Database) (id : String) {values : Dict Json}
    (h : values.Distinct) :
    (d.setRow id (d.known values)).columns = d.columns ↔
    d.Holds id (d.known values) := by
  constructor
  · intro hcolumns entry hentry
    have hcell : (d.setRow id (d.known values)).cell entry.1 id = some entry.2 :=
      cell_setRow_of_mem (distinct_known d h) (fun e he =>
        mem_keys_of_mem_known he) hentry
    unfold cell at hcell ⊢
    rw [hcolumns] at hcell
    exact hcell
  · intro hholds
    rw [setRow_of_holds hholds]

/-- An addition of rows fails before it writes anything, or in the first of them. -/
theorem addEntries_fails {d d' : Database} {ids : List String}
    {values : Dict (List Json)} {failure : Failure}
    (h : (addEntries ids values).run d = (.error failure, d')) :
    uneven values = true ∧ d' = d ∨
      uneven values = false ∧ ∃ id rest, ids = id :: rest ∧
      d' = d.setRow id (d.known (row values 0)) := by
  -- `run_addEntries` lists the ways to end; those that are no failures are
  -- ruled out one by one
  rw [run_addEntries] at h
  cases hu : uneven values with
  | true =>
    rw [hu] at h
    cases h
    exact Or.inl ⟨rfl, rfl⟩
  | false =>
    rw [hu, if_neg Bool.false_ne_true] at h
    refine Or.inr ⟨rfl, ?_⟩
    cases ids with
    | nil => cases h
    | cons id rest =>
      cases hk : d.unknown? values with
      | none =>
        rw [hk] at h
        cases h
      | some column =>
        rw [hk] at h
        cases h
        exact ⟨id, rest, rfl, rfl⟩

theorem updateEntry_fails {d d' : Database} (hd : d.Laid) {id : String}
    {values : Dict Json} {failure : Failure}
    (h : (updateEntry id values).run d = (.error failure, d')) : d' = d := by
  rw [run_updateEntry hd] at h
  cases hf : d.foreign? values with
  | none =>
    rw [hf] at h
    cases h
  | some column =>
    rw [hf] at h
    cases h
    rfl

/-- An update that fails does so before it writes anything. -/
theorem updateEntries_fails {d d' : Database} (hd : d.Laid)
    {entries : List String} {args : Args} {failure : Failure}
    (h : (updateEntries entries args).run d = (.error failure, d')) :
    d' = d := by
  rw [run_updateEntries hd] at h
  cases hl : listsOf d.name args with
  | error failure' =>
    rw [hl] at h
    cases h
    rfl
  | ok values =>
    rw [hl] at h
    dsimp only at h
    cases hs : short? entries values with
    | some entry =>
      rw [hs] at h
      cases h
      rfl
    | none =>
      rw [hs] at h
      cases entries with
      | nil => cases h
      | cons id rest =>
        cases hf : d.foreign? values with
        | none =>
          rw [hf] at h
          cases h
        | some column =>
          rw [hf] at h
          cases h
          rfl

/-! ## Calls -/

/-- The calls that can fail. The columns that a call names are distinct. -/
inductive Call where
  | addEntry (id : String) (values : Dict Json) (distinct : values.Distinct)
  | addEntries (values : Dict (List Json)) (distinct : values.Distinct)
  | updateEntry (id : String) (values : Dict Json)
  | updateEntries (entries : List String) (values : Args)
  | merge (other : Item)
  /-- The action that adds entries. -/
  | addAction (args : Args)
      (distinct : ∀ values, (args.get? "values").bind Value.mapping? =
        some values → Dict.Distinct values)

namespace Call

/-- Carries out a call on the database behind a handle. -/
def run (h : Handle) (d : Database) : Call → Act Unit
  | addEntry id values _ => editing h d (Database.addEntry id values)
  | addEntries values _ => do
    let ids ← Act.tokenList (rowCount values)
    let _ ← editing h d (Database.addEntries ids values)
  | updateEntry id values => editing h d (Database.updateEntry id values)
  | updateEntries entries values =>
    editing h d (Database.updateEntries entries values)
  | merge other => Item.mergeWith h (.database d) other
  | addAction args _ => do
    let _ ← d.act h "add-entries" args

/-- The rows that a call adds under fresh ids. -/
def rows? (d : Database) : Call → Option (Dict (List Json))
  | addEntries values _ => some values
  | addAction args _ => ((args.get? "values").bind Value.mapping?).bind
    fun values => (listsOf d.name values).toOption
  | _ => none

/-- Whether a failure of a call leaves all columns as they were, the next fresh id
being given. Only what was written before an unknown column can change them. -/
def Harmless (d : Database) (fresh : String) (c : Call) : Prop :=
  match c with
  | addEntry id values _ => d.Holds id (d.known values)
  | updateEntry .. | updateEntries .. | merge _ => True
  | c => ∀ rows, c.rows? d = some rows →
    uneven rows = true ∨ d.Holds fresh (d.known (row rows 0))

end Call

/-! ## Calls that fail -/

theorem run_editing_error {α : Type} {h : Handle} {d : Database} {e : Edit α}
    {w w' : World} {failure : Failure}
    (hrun : (editing h d e).run w = (.error failure, w')) :
    ∃ d', e.run d = (.error failure, d') ∧
    w' = w.setItem h.slot (.database d') := by
  have hedit : (editing h d e).run w =
      ((e.run d).1, w.setItem h.slot (.database (e.run d).2)) := rfl
  rw [hedit] at hrun
  cases he : e.run d with
  | mk result d' =>
    rw [he] at hrun
    cases hrun
    exact ⟨d', rfl, rfl⟩

theorem act_addEntries (h : Handle) (d : Database) (args : Args) :
    d.act h "add-entries" args = match (args.get? "values").bind Value.mapping? with
      | none => throw (fault d.name .noValuesArgument)
      | some values => do
        let rows ← liftM (listsOf d.name values)
        let ids ← Act.tokenList (rowCount rows)
        let ids ← editing h d (addEntries ids rows)
        return .json (.ofStrings ids) := rfl

/-- A failing addition of rows under fresh ids. -/
theorem addFresh_fails {h : Handle} {d : Database} {rows : Dict (List Json)}
    (distinct : rows.Distinct) {w w' : World} {failure : Failure}
    (hw : w.itemAt h.slot = some (.database d)) {α : Type} {f : List String → α}
    (hrun : (Act.tokenList (rowCount rows) >>= fun ids =>
      f <$> editing h d (addEntries ids rows)).run w =
      (.error failure, w')) :
    ∃ d', w'.itemAt h.slot = some (.database d') ∧
      (d'.columns = d.columns ↔ uneven rows = true ∨
        d.Holds (Token.ofNat w.tokens) (d.known (row rows 0))) := by
  let ids := (List.range (rowCount rows)).map fun i => Token.ofNat (w.tokens + i)
  have htoken : (Act.tokenList (rowCount rows)).run w =
      (.ok ids, { w with tokens := w.tokens + rowCount rows }) := rfl
  rw [run_bind, htoken] at hrun
  have hedit := run_map_error hrun
  obtain ⟨d', hadd, rfl⟩ := run_editing_error hedit
  have hw' : World.itemAt { w with tokens := w.tokens + rowCount rows } h.slot =
      some (.database d) := hw
  refine ⟨d', World.itemAt_setItem_self hw', ?_⟩
  rcases addEntries_fails hadd with ⟨huneven, rfl⟩ | ⟨heven, id, rest, hids, rfl⟩
  · exact ⟨fun _ => Or.inl huneven, fun _ => rfl⟩
  -- only the first row can fail, and its id is the first of the fresh ones
  · have hid : id = Token.ofNat w.tokens := by
      cases hcount : rowCount rows with
      | zero =>
        rw [show ids = [] by simp [ids, hcount]] at hids
        cases hids
      | succ n =>
        have hfirst : ids.head? = some (Token.ofNat w.tokens) := by
          simp [ids, hcount, List.range_succ_eq_map]
        rw [hids] at hfirst
        exact Option.some.inj hfirst
    have hdistinct : Dict.Distinct (row rows 0) :=
      (Dict.distinct_congr (keys_row rows 0)).mpr distinct
    rw [hid, columns_setRow_known d _ hdistinct, heven]
    simp

/-- A failing action that adds entries: its rows are those of the call, if the
call has any. -/
theorem addAction_fails {h : Handle} {d : Database} {args : Args}
    (distinct : ∀ values, (args.get? "values").bind Value.mapping? =
      some values → Dict.Distinct values) {w w' : World}
      {failure : Failure} (hw : w.itemAt h.slot = some (.database d))
      (hrun : (d.act h "add-entries" args).run w = (.error failure, w')) :
    ∃ d', w'.itemAt h.slot = some (.database d') ∧
      (d'.columns = d.columns ↔
        (Call.addAction args distinct).Harmless d (Token.ofNat w.tokens)) := by
  rw [act_addEntries] at hrun
  cases hv : (args.get? "values").bind Value.mapping? with
  | none =>
    rw [hv] at hrun
    cases hrun
    refine ⟨d, hw, iff_of_true rfl ?_⟩
    simp [Call.Harmless, Call.rows?, hv]
  | some values =>
    rw [hv] at hrun
    dsimp only at hrun
    cases hl : listsOf d.name values with
    | error fault =>
      -- a value that is no list is found before any id is drawn
      rw [hl] at hrun
      cases hrun
      refine ⟨d, hw, iff_of_true rfl ?_⟩
      simp [Call.Harmless, Call.rows?, hv, hl, Except.toOption]
    | ok rows =>
      rw [hl] at hrun
      have hrows : rows.Distinct :=
        (Dict.distinct_congr (keys_listsOf hl)).mpr (distinct values hv)
      obtain ⟨d', hd', hiff⟩ := addFresh_fails
        hrows hw (f := fun ids => Value.json (.ofStrings ids)) hrun
      refine ⟨d', hd', hiff.trans ?_⟩
      simp [Call.Harmless, Call.rows?, hv, hl, Except.toOption]

/-- A merge fails only where the other item is no database, before
anything is written. -/
theorem mergeWith_fails {h : Handle} {d : Database} {other : Item}
    {w w' : World} {failure : Failure}
    (hrun : (Item.mergeWith h (.database d) other).run w =
      (.error failure, w')) : w' = w := by
  unfold Item.mergeWith at hrun
  cases ho : other.database? with
  | some incoming =>
    rw [ho] at hrun
    cases hrun
  | none =>
    rw [ho] at hrun
    cases hrun
    rfl

/-- **What a failing call leaves.** When a call on a reachable database fails,
its columns are as they were exactly if the call is harmless: if it is an update
or a merge, or has written nothing new before it came to an unknown column. -/
theorem columns_of_failing_call {h : Handle} {d : Database} (hd : d.Reachable)
    (c : Call) {w w' : World} {failure : Failure}
    (hw : w.itemAt h.slot = some (.database d))
    (hfail : (c.run h d).run w = (.error failure, w')) :
    ∃ d', w'.itemAt h.slot = some (.database d') ∧
      (d'.columns = d.columns ↔ c.Harmless d (Token.ofNat w.tokens)) := by
  -- updates are checked against the storages, which are columns of every
  -- reachable database
  have hlaid := hd.wellFormed.laid
  cases c with
  | addEntry id values distinct =>
    obtain ⟨d', hadd, rfl⟩ := run_editing_error (e := addEntry id values) hfail
    refine ⟨d', World.itemAt_setItem_self hw, ?_⟩
    rw [run_addEntry] at hadd
    cases hu : d.unknown? values with
    | none =>
      rw [hu] at hadd
      cases hadd
    | some column =>
      rw [hu] at hadd
      cases hadd
      exact columns_setRow_known d id distinct
  | addEntries values distinct =>
    obtain ⟨d', hd', hiff⟩ := addFresh_fails distinct hw (f := fun _ => ()) hfail
    refine ⟨d', hd', hiff.trans ?_⟩
    simp [Call.Harmless, Call.rows?]
  | updateEntry id values =>
    obtain ⟨d', hupdate, rfl⟩ :=
      run_editing_error (e := updateEntry id values) hfail
    refine ⟨d', World.itemAt_setItem_self hw, iff_of_true ?_ trivial⟩
    rw [updateEntry_fails hlaid hupdate]
  | updateEntries entries values =>
    obtain ⟨d', hupdate, rfl⟩ :=
      run_editing_error (e := updateEntries entries values) hfail
    refine ⟨d', World.itemAt_setItem_self hw, iff_of_true ?_ trivial⟩
    rw [updateEntries_fails hlaid hupdate]
  | merge other =>
    refine ⟨d, ?_, iff_of_true rfl trivial⟩
    rw [mergeWith_fails hfail]
    exact hw
  | addAction args distinct =>
    exact addAction_fails distinct hw
      (run_map_error (x := d.act h "add-entries" args) hfail)

/-- A call that comes to an unknown column first leaves the columns as they were. -/
theorem unknown_column_first :
    let d :=
      ofSpec
        "tmp" { name := "doe", variableSpecs := [.obj [("name", .str "x")]] }
    let w : World := { disk := .empty, slots := [⟨.database d, false⟩] }
    let c : Call := .addEntry "a" [("z", .ofInt 2), ("x", .ofInt 1)] (by decide)
    d.Reachable ∧ ∃ failure d', ((c.run ⟨"doe", 0⟩ d).run w).1 = .error failure ∧
      ((c.run ⟨"doe", 0⟩ d).run w).2.itemAt 0 = some (.database d') ∧
      d'.columns = d.columns := by
  intro d w c
  have hreachable : d.Reachable := ⟨_, _, .refl⟩
  obtain ⟨d', hd', hiff⟩ :=
    columns_of_failing_call (h := ⟨"doe", 0⟩) hreachable c (w := w) rfl rfl
  have hnothing : d.known [("z", .ofInt 2), ("x", .ofInt 1)] = [] := rfl
  refine ⟨hreachable, _, d', rfl, hd', hiff.mpr fun entry hentry => ?_⟩
  rw [hnothing] at hentry
  cases hentry

/-- A call that comes to an unknown column after a known one leaves half an
entry behind. -/
theorem half_an_entry :
    let d :=
      ofSpec
        "tmp" { name := "doe", variableSpecs := [.obj [("name", .str "x")]] }
    let w : World := { disk := .empty, slots := [⟨.database d, false⟩] }
    let c : Call := .addEntry "a" [("x", .ofInt 1), ("z", .ofInt 2)] (by decide)
    d.Reachable ∧ ∃ failure d', ((c.run ⟨"doe", 0⟩ d).run w).1 = .error failure ∧
      ((c.run ⟨"doe", 0⟩ d).run w).2.itemAt 0 = some (.database d') ∧
      d'.columns ≠ d.columns :=
  ⟨⟨_, _, .refl⟩, _, _, rfl, rfl, by decide⟩

end Playbook.Database
