import Playbook.Proofs.Definition.Codec
import Playbook.Proofs.Disk
import Playbook.Proofs.Path
import Playbook.Proofs.Registry

/-!
# Playbook — resuming a saved registry

A saved state lists the descriptions of the items of a registry, the databases
before the algorithms. Their names are distinct, so the registry that is
resumed from it has one new item for each of them, in that order; and since
every item is restorable, it has the description that was saved. Its state is
therefore the saved one.

Main results:

* `Registry.Shows.run_snapshot` — the state of a registry in terms of its items.
* `Registry.holds_ofProject` — a registry that is made from a saved state has an
  item for each saved description.
* `Registry.snapshot_of_resumed` — what is left of the state of a registry after
  saving and resuming it.
-/

namespace Playbook

open Effect

/-! ## Saved states -/

namespace ItemState

def database? : ItemState → Option DatabaseSpec
  | database spec => some spec
  | _ => none

def algorithm? : ItemState → Option AlgorithmSpec
  | algorithm spec => some spec
  | _ => none

end ItemState

namespace Snapshot

/-- Adds the state of an item to a saved state. -/
def take (s : Snapshot) : ItemState → Snapshot
  | .database spec => { s with datasets := s.datasets ++ [spec] }
  | .algorithm spec => { s with algorithms := s.algorithms ++ [spec] }
  | .custom _ => s

theorem foldl_take (s : Snapshot) (states : List ItemState) :
    states.foldl take s =
      { s with
        datasets := s.datasets ++ states.filterMap ItemState.database?
        algorithms := s.algorithms ++ states.filterMap ItemState.algorithm? } := by
  induction states generalizing s with
  | nil => simp
  | cons state states ih =>
    rw [List.foldl_cons, ih]
    cases state <;> simp [take, List.filterMap_cons, ItemState.database?,
      ItemState.algorithm?]

end Snapshot

/-! ## The state of an item -/

namespace Act

/-- The state of an item that is not locked. -/
theorem run_itemState {h : Handle} {i : Item} {w : World}
    (hslot : w.slots[h.slot]? = some ⟨i, false⟩) :
    (itemState h).run w = (.ok i.state, w) := by
  have hfree : w.isLocked h.slot = false := by
    unfold World.isLocked
    rw [hslot]
  have hlocked : (w.setLocked h.slot true).slots[h.slot]? = some ⟨i, true⟩ := by
    show (w.slots.modify h.slot _)[h.slot]? = _
    rw [List.getElem?_modify, hslot]
    exact congrArg some (if_pos rfl)
  have hitem : (item h).run (w.setLocked h.slot true) =
      (.ok i, w.setLocked h.slot true) := by
    rw [run_item, hlocked]
    rfl
  have hbody : (do return (← item h).state : Act ItemState).run
      (w.setLocked h.slot true) =
      (.ok i.state, w.setLocked h.slot true) := by
    rw [run_bind, hitem]
    rfl
  unfold itemState
  rw [run_locking, hfree, hbody, if_neg Bool.false_ne_true,
    World.setLocked_setLocked hslot]

/-- An item whose state was given was not locked. -/
theorem slot_of_run_itemState {h : Handle} {i : Item} {state : ItemState}
    {w w' : World} (hrun : (itemState h).run w = (.ok state, w'))
    (hi : w.itemAt h.slot = some i) :
    w.slots[h.slot]? = some ⟨i, false⟩ := by
  obtain ⟨⟨_, locked⟩, hs, rfl⟩ := Option.map_eq_some_iff.mp hi
  cases locked with
  | false => exact hs
  | true =>
    have hbusy : w.isLocked h.slot = true := by
      unfold World.isLocked
      rw [hs]
    have hfail : (itemState h).run w = (.error (Cause.itemBusy h.name), w) := by
      unfold itemState
      rw [run_locking, hbusy, if_pos rfl]
    rw [hfail] at hrun
    cases hrun

end Act

namespace Registry

/-- The handles of a registry lead to these items, none of which is locked. -/
def Shows (r : Registry) (w : World) (items : List Item) : Prop :=
  List.Forall₂ (fun h i => w.slots[h.slot]? = some ⟨i, false⟩ ∧ i.Restorable)
  r.items.values items

/-- The state that is saved of items. -/
def savedState (ctx : Context) (r : Registry) (items : List Item) : Snapshot :=
  (items.map Item.state).foldl Snapshot.take
  { workdir := r.workdir, savedAt := ctx.host.now }

theorem savedState_eq {items : List Item} {datasets : List DatabaseSpec}
    {algorithms : List AlgorithmSpec}
    (h : items.map Item.state = datasets.map .database ++ algorithms.map
      .algorithm) (ctx : Context) (r : Registry) :
    r.savedState ctx items =
    { workdir := r.workdir, savedAt := ctx.host.now, datasets, algorithms } := by
  have hdatasets : (datasets.map ItemState.database ++ algorithms.map
      ItemState.algorithm).filterMap
      ItemState.database? = datasets := by
    rw [List.filterMap_append, List.filterMap_map, List.filterMap_map]
    show datasets.filterMap some ++ algorithms.filterMap (fun _ => none) = datasets
    simp
  have halgorithms : (datasets.map ItemState.database ++ algorithms.map
      ItemState.algorithm).filterMap
      ItemState.algorithm? = algorithms := by
    rw [List.filterMap_append, List.filterMap_map, List.filterMap_map]
    show datasets.filterMap (fun _ => none) ++
      algorithms.filterMap some = algorithms
    simp
  unfold savedState
  rw [Snapshot.foldl_take, h, hdatasets, halgorithms]
  rfl

theorem run_record {snapshot : Snapshot} {h : Handle} {i : Item} {w : World}
    (hslot : w.slots[h.slot]? = some ⟨i, false⟩) (hi : i.Restorable) :
    (record snapshot h).run w = (.ok (snapshot.take i.state), w) := by
  unfold record
  rw [run_bind, Act.run_itemState hslot]
  cases i with
  | database d => rfl
  | algorithm a => rfl
  | plain p => cases hi

theorem run_record_all {handles : List Handle} {items : List Item} {w : World}
    (h : List.Forall₂ (fun h i => w.slots[h.slot]? = some ⟨i, false⟩ ∧
      i.Restorable) handles items) (snapshot : Snapshot) :
    (handles.foldlM record snapshot).run w =
    (.ok ((items.map Item.state).foldl Snapshot.take snapshot), w) := by
  induction h generalizing snapshot with
  | nil => rfl
  | cons hfirst _ ih =>
    rw [List.foldlM_cons, run_bind, run_record hfirst.1 hfirst.2]
    exact ih _

/-- The state of a registry in terms of its items. -/
theorem Shows.run_snapshot {r : Registry} {w : World} {items : List Item}
    (h : r.Shows w items) (ctx : Context) :
    (r.snapshot ctx).run w = (.ok (r.savedState ctx items), w) := run_record_all h _

/-- A sound registry whose state was given shows restorable
items under its names. -/
theorem Sound.shows {r : Registry} {w w' : World} (hr : r.Sound w)
    {ctx : Context} {s : Snapshot}
    (hrun : (r.snapshot ctx).run w = (.ok s, w')) :
    ∃ items, r.Shows w items ∧ items.map Item.name = r.items.keys := by
  -- by induction on the handles that are left to record, from whatever
  -- was recorded before
  have hfrom : ∀ (entries : Dict Handle) (start : Snapshot),
      (∀ entry ∈ entries, entry ∈ r.items) →
      (entries.values.foldlM record start).run w = (.ok s, w') →
      ∃ items, List.Forall₂ (fun h i => w.slots[h.slot]? = some ⟨i, false⟩ ∧
        i.Restorable) entries.values items ∧
        items.map Item.name = entries.keys := by
    intro entries
    induction entries with
    | nil => exact fun _ _ _ => ⟨[], .nil, rfl⟩
    | cons entry entries ih =>
      obtain ⟨name, h⟩ := entry
      intro start hmem hrun
      obtain ⟨i, hi, hname, hrestorable⟩ :=
        hr.items name h (hmem _ (List.mem_cons_self ..))
      have hsplit : (record start h >>= fun next =>
          (Dict.values entries).foldlM record next).run w = (.ok s, w') := by
        rw [← List.foldlM_cons]
        exact hrun
      obtain ⟨next, w₁, hrecord, hrest⟩ := run_bind_ok hsplit
      have hslot : w.slots[h.slot]? = some ⟨i, false⟩ := by
        unfold record at hrecord
        obtain ⟨state, w₂, hstate, -⟩ := run_bind_ok hrecord
        exact Act.slot_of_run_itemState hstate hi
      rw [run_record hslot hrestorable] at hrecord
      obtain ⟨-, rfl⟩ := Prod.mk.inj hrecord
      obtain ⟨items, hitems, hnames⟩ :=
        ih next (fun e he => hmem e (List.mem_cons_of_mem _ he)) hrest
      exact ⟨i :: items, .cons ⟨hslot, hrestorable⟩ hitems,
        congrArg₂ List.cons hname hnames⟩
  exact hfrom r.items _ (fun _ => id) hrun

/-- An item that is added under a new name is shown after the others. -/
theorem Shows.add {r r' : Registry} {i : Item} {handle : Handle} {w w' : World}
    {items : List Item} (h : r.Shows w items) (hi : i.Restorable)
    (hnew : i.name ∉ r.items.keys)
    (hadd : (r.add i).run w = (.ok (handle, r'), w')) :
    r'.Shows w' (items ++ [i.adopt r.workdir]) ∧
    r'.items.keys = r.items.keys ++ [i.name] := by
  obtain ⟨rfl, hslots, rfl⟩ := run_add_ok hadd
  have hinsert : r.items.insert i.name ⟨i.name, w.slots.length⟩ =
      r.items ++ [(i.name, ⟨i.name, w.slots.length⟩)] :=
    Dict.insert_of_not_mem hnew
  -- the new item is put behind all slots, so the handles that are there
  -- lead where they did
  have hold : List.Forall₂ (fun h i => w'.slots[h.slot]? = some ⟨i, false⟩ ∧
      i.Restorable) r.items.values items := by
    refine h.imp fun handle j hj => ⟨?_, hj.2⟩
    obtain ⟨hlt, -⟩ := List.getElem?_eq_some_iff.mp hj.1
    rw [hslots, List.getElem?_append_left hlt]
    exact hj.1
  have hlast : w'.slots[w.slots.length]? = some ⟨i.adopt r.workdir, false⟩ := by
    rw [hslots, List.getElem?_concat_length]
  constructor
  · unfold Shows
    rw [hinsert]
    show List.Forall₂ _ (List.map _ (r.items ++ _)) _
    rw [List.map_append]
    exact List.rel_append hold
      (.cons ⟨hlast, (Item.follows_adopt _ _).restorable hi⟩ .nil)
  · rw [hinsert, Dict.keys_append]
    rfl

end Registry

/-! ## States that can be resumed -/

/-- The saved descriptions are those of restorable items, and no
name occurs twice. -/
structure Snapshot.Restorable (s : Snapshot) : Prop where
  datasets : ∀ spec ∈ s.datasets, ∃ d : Database, d.WellFormed ∧ d.toSpec = spec
  algorithms : ∀ spec ∈ s.algorithms, ∃ a : Algorithm, a.Keyed ∧ a.toSpec = spec
  names : (s.datasets.map (·.name) ++ s.algorithms.map (·.name)).Nodup

/-- The names of the saved descriptions are those of the items. -/
theorem Item.perm_names {items : List Item} (h : ∀ i ∈ items, i.Restorable) :
    (((items.map state).filterMap ItemState.database?).map (·.name) ++
      ((items.map state).filterMap ItemState.algorithm?).map (·.name)).Perm
        (items.map name) := by
  induction items with
  | nil => exact .nil
  | cons i items ih =>
    have hrest := ih fun j hj => h j (List.mem_cons_of_mem _ hj)
    cases i with
    | database d => exact hrest.cons d.name
    | algorithm a => exact List.perm_middle.trans (hrest.cons a.name)
    | plain p => exact absurd (h _ (List.mem_cons_self ..)) id

theorem Item.exists_of_database? {items : List Item}
    (h : ∀ i ∈ items, i.Restorable) {spec : DatabaseSpec}
    (hspec : spec ∈ (items.map state).filterMap ItemState.database?) :
    ∃ d : Database, d.WellFormed ∧ d.toSpec = spec := by
  obtain ⟨state, hstate, hdatabase⟩ := List.mem_filterMap.mp hspec
  obtain ⟨i, hi, rfl⟩ := List.mem_map.mp hstate
  cases i with
  | database d => exact ⟨d, h _ hi, Option.some.inj hdatabase⟩
  | algorithm a => cases hdatabase
  | plain p => cases hdatabase

theorem Item.exists_of_algorithm? {items : List Item}
    (h : ∀ i ∈ items, i.Restorable) {spec : AlgorithmSpec}
    (hspec : spec ∈ (items.map state).filterMap ItemState.algorithm?) :
    ∃ a : Algorithm, a.Keyed ∧ a.toSpec = spec := by
  obtain ⟨state, hstate, halgorithm⟩ := List.mem_filterMap.mp hspec
  obtain ⟨i, hi, rfl⟩ := List.mem_map.mp hstate
  cases i with
  | database d => cases halgorithm
  | algorithm a => exact ⟨a, h _ hi, Option.some.inj halgorithm⟩
  | plain p => cases halgorithm

namespace Registry

theorem Shows.restorable {r : Registry} {w : World} {items : List Item}
    (h : r.Shows w items) :
    ∀ i ∈ items, i.Restorable := by
  intro i hi
  obtain ⟨n, hn, rfl⟩ := List.getElem_of_mem hi
  have hlength := List.Forall₂.length_eq h
  exact (h.get (by omega) hn).2

/-- The state of restorable items under distinct names can be resumed. -/
theorem restorable_savedState {r : Registry} {w : World} {items : List Item}
    (h : r.Shows w items) (hnames : (items.map Item.name).Nodup)
    (ctx : Context) : (r.savedState ctx items).Restorable := by
  unfold savedState
  rw [Snapshot.foldl_take]
  exact ⟨fun _ => Item.exists_of_database? h.restorable, fun _ =>
    Item.exists_of_algorithm? h.restorable,
    (Item.perm_names h.restorable).nodup_iff.mpr hnames⟩

/-- The registry shows items of these states under these names. -/
def Holds (r : Registry) (w : World) (states : List ItemState)
    (names : List String) : Prop :=
  ∃ items, r.Shows w items ∧ items.map Item.state = states ∧ r.items.keys = names

theorem Holds.add {r r' : Registry} {w w' : World} {states : List ItemState}
    {names : List String} {i : Item} {handle : Handle}
    (h : r.Holds w states names) (hi : i.Restorable) (hnew : i.name ∉ names)
    (hadd : (r.add i).run w = (.ok (handle, r'), w')) :
    r'.Holds w' (states ++ [i.state]) (names ++ [i.name]) := by
  obtain ⟨items, hitems, rfl, rfl⟩ := h
  obtain ⟨hitems', hkeys⟩ := hitems.add hi hnew hadd
  refine ⟨_, hitems', ?_, hkeys⟩
  rw [List.map_append, List.map_singleton, Item.state_adopt _ hi]

/-- Among distinct names, the next one is neither an earlier one nor among those
that were there before. -/
theorem not_mem_of_nodup {α : Type} {f : α → String} {names : List String}
    {all done rest : List α} {x : α} (h : (names ++ all.map f).Nodup)
    (hall : all = done ++ x :: rest) : f x ∉ names ++ done.map f := by
  intro hmem
  rw [hall, List.map_append, List.map_cons, ← List.append_assoc] at h
  have hmiddle := List.nodup_cons.mp (List.nodup_middle.mp h)
  exact hmiddle.1 (List.mem_append_left _ hmem)

theorem Holds.addDatabases {ctx : Context} {specs : List DatabaseSpec}
    {r r' : Registry} {w w' : World} {states : List ItemState}
    {names : List String} (h : r.Holds w states names)
    (hspecs : ∀ spec ∈ specs, ∃ d : Database, d.WellFormed ∧ d.toSpec = spec)
    (hnames : (names ++ specs.map (·.name)).Nodup)
    (hrun : (specs.foldlM (fun r d => Prod.snd <$> addDatabase ctx r d) r).run
      w = (.ok r', w')) :
    r'.Holds w' (states ++ specs.map .database) (names ++ specs.map (·.name)) := by
  -- after each description the registry holds those that were passed over, each
  -- under its own name
  refine foldlM_ok (P := fun (done : List DatabaseSpec) r w =>
    r.Holds w (states ++ done.map .database) (names ++ done.map (·.name))) ?_
      (by simpa using h) hrun
  intro done spec rest r w r' w' hall hr hrun
  obtain ⟨⟨handle, r''⟩, hadd, rfl⟩ := run_map_ok hrun
  obtain ⟨d, hd, rfl⟩ := hspecs spec (by simp [hall])
  have hnew : d.toSpec.name ∉ names ++ done.map (·.name) :=
    not_mem_of_nodup hnames hall
  have hmade := (Item.Made.database ctx.settings.exportDir d.toSpec).restorable
  have hr' := hr.add hmade hnew hadd
  have hstate :
      (Item.database (Database.ofSpec ctx.settings.exportDir d.toSpec)).state =
      .database d.toSpec :=
    congrArg ItemState.database (hd.toSpec_ofSpec _)
  rw [hstate, List.append_assoc, List.append_assoc] at hr'
  rw [List.map_append, List.map_append]
  exact hr'

theorem Holds.addAlgorithms {ctx : Context} {specs : List AlgorithmSpec}
    {r r' : Registry} {w w' : World} {states : List ItemState}
    {names : List String} (h : r.Holds w states names)
    (hspecs : ∀ spec ∈ specs, ∃ a : Algorithm, a.Keyed ∧ a.toSpec = spec)
    (hnames : (names ++ specs.map (·.name)).Nodup)
    (hrun : (specs.foldlM (fun r a => Prod.snd <$> addAlgorithm ctx r a) r).run
      w = (.ok r', w')) :
    r'.Holds w' (states ++ specs.map .algorithm) (names ++ specs.map (·.name)) := by
  refine foldlM_ok (P := fun (done : List AlgorithmSpec) r w =>
    r.Holds w (states ++ done.map .algorithm) (names ++ done.map (·.name))) ?_
      (by simpa using h) hrun
  intro done spec rest r w r' w' hall hr hrun
  obtain ⟨⟨handle, r''⟩, hadd, rfl⟩ := run_map_ok hrun
  obtain ⟨a, ha, rfl⟩ := hspecs spec (by simp [hall])
  obtain ⟨built, w₁, hbuild, hslots, hadd⟩ := run_addAlgorithm_ok hadd
  have hspec : built.toSpec = a.toSpec := ha.toSpec_of_build hbuild
  have hname : (Item.algorithm built).name = a.toSpec.name :=
    congrArg AlgorithmSpec.name hspec
  have hnew : (Item.algorithm built).name ∉ names ++ done.map (·.name) := by
    rw [hname]
    exact not_mem_of_nodup hnames hall
  -- building the runners of an algorithm leaves the items of the
  -- registry as they are
  have hr₁ : r.Holds w₁ (states ++ done.map .algorithm)
      (names ++ done.map (·.name)) := by
    unfold Holds Shows
    rw [hslots]
    exact hr
  have hr' := hr₁.add (Item.Made.algorithm hbuild).restorable hnew hadd
  have hstate : (Item.algorithm built).state = .algorithm a.toSpec :=
    congrArg ItemState.algorithm hspec
  rw [hstate, hname, List.append_assoc, List.append_assoc] at hr'
  rw [List.map_append, List.map_append]
  exact hr'

/-- The registry that is made from a saved state has one item for each
description, which is that of the item. -/
theorem holds_ofProject {ctx : Context} {s : Snapshot} {r : Registry}
    {w w' : World} (hs : s.Restorable)
    (h : (ofProject ctx s.toProject).run w = (.ok r, w')) :
    r.Holds w' (s.datasets.map .database ++ s.algorithms.map .algorithm)
      (s.datasets.map (·.name) ++ s.algorithms.map (·.name)) := by
  obtain ⟨filled, w₁, w₂, -, hdatasets, halgorithms⟩ := run_ofProject_ok h
  have hstart : Registry.Holds
      { workdir := Path.expandHome ctx.home s.toProject.workdir } w₁ [] [] :=
    ⟨[], .nil, rfl, rfl⟩
  have hfilled := hstart.addDatabases hs.datasets
      (List.nodup_append.mp hs.names).1 hdatasets
  exact hfilled.addAlgorithms hs.algorithms hs.names halgorithms

/-! ## Saving and resuming -/

/-- Saving gives the path of the document that holds the state. -/
theorem run_save_ok {ctx : Context} {r : Registry} {path written : String}
    {s : Snapshot} {w w' : World}
    (hsnapshot : (r.snapshot ctx).run w = (.ok s, w))
    (hrun : (r.save ctx path).run w = (.ok written, w')) :
    written = Path.json path ∧ w'.disk.readText written = .ok s.encode.pretty := by
  unfold save at hrun
  rw [run_bind, hsnapshot] at hrun
  dsimp only at hrun
  rw [Act.run_onDisk] at hrun
  obtain ⟨hresult, hworld⟩ := Prod.mk.inj hrun
  have hdisk : w'.disk = ((Document.write path s.encode).run w.disk).2 := by
    rw [← hworld]
  rw [hdisk]
  exact Document.readText_of_write (run_of_fst_eq hresult)

/-- Resuming makes the registry of the state that the document holds, if the
instant of saving can be read. -/
theorem run_resume {path : String} {s : Snapshot} {w : World}
    (hpath : Path.isJson path = true)
    (htext : w.disk.readText path = .ok s.encode.pretty)
    (hjson : s.encode.ReadsBack) (ctx : Context) :
    (resume ctx path).run w =
      if (Timestamp.parse? s.savedAt.text).isSome then (ofProject ctx
        s.toProject).run w
      else (.error (Cause.documentJson path .wrongShape), w) := by
  have hdecoded := Snapshot.decode_encode hjson.2
  have hread := hjson.1
  -- neither the text nor the instant in it need be computed
  generalize s.encode.pretty = text at htext hread
  generalize Timestamp.parse? s.savedAt.text = parsed at hdecoded ⊢
  have hdocument : Document.read Snapshot.decode path w.disk =
      parsed.elim (.error (Cause.documentJson path .wrongShape)) fun savedAt =>
        .ok { s with savedAt } := by
    unfold Document.read
    rw [htext]
    dsimp only
    unfold Document.decode
    rw [if_pos hpath, hread]
    dsimp only
    rw [hdecoded]
    cases parsed <;> rfl
  have hrun : (Act.fromDisk (Document.read Snapshot.decode path)).run w =
      (Document.read Snapshot.decode path w.disk, w) := rfl
  unfold resume
  rw [run_bind, hrun, hdocument]
  cases parsed <;> rfl

/-- **Saving a registry and resuming it loses nothing** but the instant of
saving and the blanks at the end of the working directory's text. The home
directory begins with neither a blank nor `~`, and the text of the state reads
back as the state. -/
theorem snapshot_of_resumed {ctx saving resuming : Context} {r r' : Registry}
    {w w₁ w₂ w₃ : World} {path written : String} {c : Char} {rest : List Char}
    (hr : r.Reached ctx w) (hhome : ctx.home.toList = c :: rest)
    (htilde : c ≠ '~') (hblank : Text.isBlank c = false)
    (hpath : Path.isJson path = true)
    (hsave : (r.save saving path).run w = (.ok written, w₁))
    (hjson : ∀ s, (r.snapshot saving).run w = (.ok s, w) → s.encode.ReadsBack)
    (hfile : w₂.disk.readText written = w₁.disk.readText written)
    (hresume : (resume resuming written).run w₂ = (.ok r', w₃)) :
    ∃ s, (r.snapshot saving).run w = (.ok s, w) ∧
      (r'.snapshot resuming).run w₃ =
        (.ok { s with
          workdir := Text.trim s.workdir
          savedAt := resuming.host.now }, w₃) ∧
      ((∀ d, s.workdir.toList.getLast? = some d → Text.isBlank d = false) →
        Text.trim s.workdir = s.workdir) := by
  obtain ⟨dir, hdir⟩ := hr.workdir
  obtain ⟨s, w₀, hsnapshot, -⟩ := run_bind_ok hsave
  obtain ⟨items, hitems, hnames⟩ := hr.sound.shows hsnapshot
  have hstate := hitems.run_snapshot saving
  have hworkdir : (r.savedState saving items).workdir =
      Path.expandHome ctx.home dir := by
    unfold savedState
    rw [Snapshot.foldl_take]
    exact hdir
  have hdistinct : (items.map Item.name).Nodup := hnames ▸ hr.sound.distinct
  refine ⟨r.savedState saving items, hstate, ?_, fun hlast => ?_⟩
  · obtain ⟨rfl, htext⟩ := run_save_ok hstate hsave
    have hjsonPath : Path.isJson (Path.json path) = true := by
      unfold Path.json
      rw [if_pos hpath]
      exact hpath
    have hmake : (ofProject resuming (r.savedState saving items).toProject).run
        w₂ = (.ok r', w₃) := by
      rw [run_resume hjsonPath (hfile.trans htext) (hjson _ hstate)] at hresume
      split at hresume
      · exact hresume
      · cases hresume
    obtain ⟨items', hitems', hstates, -⟩ :=
      holds_ofProject (restorable_savedState hitems hdistinct saving) hmake
    -- the saved text is expanded a second time: nothing is left to replace in
    -- it, but it is trimmed again
    have hworkdir' : r'.workdir = Text.trim
        (r.savedState saving items).workdir := by
      rw [hworkdir,
        ← Path.expandHome_expandHome hhome htilde hblank dir resuming.home,
        ← hworkdir]
      exact (sound_ofProject hmake).2
    rw [hitems'.run_snapshot, savedState_eq hstates, hworkdir']
  · rw [hworkdir] at hlast ⊢
    exact Text.trim_eq_self (fun _ =>
      Path.head_expandHome hhome htilde hblank dir) hlast

/-- Resuming right after saving makes the registry of the state that was saved. -/
theorem run_resume_of_save {ctx : Context} {r r' : Registry} {path : String}
    {s : Snapshot} {w w₁ : World} (hpath : Path.isJson path = true)
    (hs : (r.snapshot ctx).run w = (.ok s, w))
    (hsave : (r.save ctx path).run w = (.ok path, w₁))
    (hjson : s.encode.ReadsBack)
    (htime : (Timestamp.parse? s.savedAt.text).isSome = true)
    (hmake : ((ofProject ctx s.toProject).run w₁).1 = .ok r') :
    (resume ctx path).run w₁ =
    (.ok r', ((ofProject ctx s.toProject).run w₁).2) := by
  rw [run_resume hpath (run_save_ok hs hsave).2 hjson, if_pos htime]
  exact run_of_fst_eq hmake

/-- A database `d` with one storage column, in a directory below
the home directory. -/
def project : ProjectSpec :=
  { workdir := "~/a", datasets := [{ name := "d", storages := ["y"] }] }

/-- The state of `project` after a result was written for an entry. -/
def withResult : Snapshot :=
  { workdir := "/me/a", savedAt := default
    datasets :=
      [{ name := "d", storages := ["y"], data := [("y", [("e", .ofInt 4)])] }] }

theorem readsBack_withResult : withResult.encode.ReadsBack :=
  Json.readsBack_of_eq_true (by decide +kernel)

/-- A result that is written into a database is there after resuming. -/
theorem resumed_with_result :
    let ctx := quietContext "/me"
    let made := (ofProject ctx project).run { disk := .empty }
    let w :=
      ((Calls.all ctx ⟨"d", 0⟩
        (.updateEntries ["e"] [("y", .json (.arr [.ofInt 4]))])).run made.2).2
    ∃ (r r' : Registry) (w₁ w₃ : World), r.Reached ctx w ∧
      (r.save ctx "s.json").run w = (.ok "s.json", w₁) ∧
      (resume ctx "s.json").run w₁ = (.ok r', w₃) ∧
      (r'.snapshot ctx).run w₃ = (.ok withResult, w₃) := by
  intro ctx made w
  let r : Registry := { workdir := "/me/a", items := [("d", ⟨"d", 0⟩)] }
  let r' : Registry := { workdir := "/me/a", items := [("d", ⟨"d", 1⟩)] }
  have hmade : made = (.ok r, made.2) := run_of_fst_eq (by decide +kernel)
  have hr : r.Reached ctx w := .asked ctx _ _ (.made hmade)
  let saved := (r.save ctx "s.json").run w
  have hsave : saved = (.ok "s.json", saved.2) := run_of_fst_eq (by decide +kernel)
  -- that taking the state changes nothing is proved, and only the state
  -- itself is evaluated
  obtain ⟨s, w', hs, -⟩ := run_bind_ok hsave
  obtain ⟨items, hitems, -⟩ := hr.sound.shows hs
  have hstate := hitems.run_snapshot ctx
  have hcheck : ((r.snapshot ctx).run w).1.toOption.all (fun s =>
      s.workdir = withResult.workdir ∧
      s.savedAt = withResult.savedAt ∧ s.datasets = withResult.datasets ∧
      s.algorithms.isEmpty) := by
    decide +kernel
  have hsaved : r.savedState ctx items = withResult := by
    obtain ⟨hworkdir, hnow, hdatasets, halgorithms⟩ :=
      of_decide_eq_true (of_toOption_all hcheck (congrArg Prod.fst hstate))
    generalize r.savedState ctx items = s at hworkdir hnow hdatasets halgorithms
    obtain ⟨workdir, now, datasets, algorithms⟩ := s
    cases List.isEmpty_iff.mp halgorithms
    cases hworkdir
    cases hnow
    cases hdatasets
    rfl
  rw [hsaved] at hstate
  have hmake : ((ofProject ctx withResult.toProject).run saved.2).1 =
      .ok r' := by decide +kernel
  have hresume := run_resume_of_save (by decide) hstate hsave
      readsBack_withResult (by decide +kernel) hmake
  have hjson : ∀ s, (r.snapshot ctx).run w = (.ok s, w) → s.encode.ReadsBack := by
    intro s h
    rw [hstate] at h
    cases h
    exact readsBack_withResult
  have hhome : ctx.home.toList = '/' :: ['m', 'e'] := by decide
  obtain ⟨s, hs, hs', htrim⟩ :=
    snapshot_of_resumed hr hhome (by decide) (by decide) (by decide) hsave
    hjson rfl hresume
  rw [hstate] at hs
  cases hs
  exact ⟨r, r', _, _, hr, hsave, hresume, hs'⟩

/-- A blank at the end of the home directory is lost from a working directory
that is the home directory. -/
theorem blank_end_lost :
    let ctx := quietContext "me "
    let made := (ofProject ctx { workdir := "~" }).run { disk := .empty }
    ∃ (r r' : Registry) (w₁ w₃ : World) (s s' : Snapshot), r.Reached ctx made.2 ∧
      (r.snapshot ctx).run made.2 = (.ok s, made.2) ∧ s.encode.ReadsBack ∧
      (r.save ctx "s.json").run made.2 = (.ok "s.json", w₁) ∧
      (resume ctx "s.json").run w₁ = (.ok r', w₃) ∧
      (r'.snapshot ctx).run w₃ = (.ok s', w₃) ∧ s.workdir = "me " ∧
      s'.workdir = "me" := by
  intro ctx made
  let r : Registry := { workdir := "me " }
  let r' : Registry := { workdir := "me" }
  let s : Snapshot := { workdir := "me ", savedAt := default }
  have hjson : s.encode.ReadsBack := Json.readsBack_of_eq_true (by decide +kernel)
  have hmade : made = (.ok r, made.2) := run_of_fst_eq (by decide +kernel)
  have hstate : (r.snapshot ctx).run made.2 = (.ok s, made.2) := rfl
  let saved := (r.save ctx "s.json").run made.2
  have hsave : saved = (.ok "s.json", saved.2) := run_of_fst_eq (by decide +kernel)
  have hmake : ((ofProject ctx s.toProject).run saved.2).1 = .ok r' := by
    decide +kernel
  have hresume := run_resume_of_save (by decide) hstate hsave
      hjson (by decide +kernel) hmake
  exact ⟨r, r', _, _, s, _, .made hmade, hstate, hjson, hsave, hresume,
    rfl, rfl, rfl⟩

end Registry

end Playbook
