import Playbook.Proofs.Definition.Plan

/-!
# Playbook — definitions that survive

A project and a saved state are written as data and read again. Nothing is lost
as long as dictionaries have every key once and no field of a step takes the
place of its kind or its output; such definitions are called proper. Everything
that was read is proper, so that from the first reading on, writing and reading
again changes nothing.

The instant of saving is written as a text, and that this text is read as the
same instant is assumed.

Main results:

* `ProjectSpec.decode_encode`, `Snapshot.decode_encode_of_proper` — proper
  definitions read back.
* `ProjectSpec.proper_of_decode`, `Snapshot.proper_of_decode` —
  whatever was read is proper.
* `definitions_survive` — both, for projects and saved states.
-/

namespace Playbook

open Draft

/-! ## Runners -/

namespace RunnerSpec

mutual
theorem keysOnce_encode : (s : RunnerSpec) → (encode s).keysOnce = true
  | .module _ _ none | .module _ _ (some _) | .script _ _ _ _ none | .script _ _
    _ _ (some _) => rfl
  | .sequence name actions => by
    show (true &&
      (true && (true && (Json.itemsOnce (encodeList actions) && true)))) = true
    rw [itemsOnce_encodeList actions]
    rfl

theorem itemsOnce_encodeList : (specs : List RunnerSpec) →
    Json.itemsOnce (encodeList specs) = true
  | [] => rfl
  | s :: specs => by
    show ((encode s).keysOnce && Json.itemsOnce (encodeList specs)) = true
    rw [keysOnce_encode s, itemsOnce_encodeList specs]
    rfl
end

end RunnerSpec

/-! ## Databases -/

namespace DatabaseSpec

/-- A database whose dictionaries have every key once. -/
structure Proper (s : DatabaseSpec) : Prop where
  variableSpecs : ∀ v ∈ s.variableSpecs, v.keysOnce = true
  exporters : s.exporters.Distinct
  columns : s.data.Distinct
  values : ∀ column ∈ s.data, (Json.obj column.2).keysOnce = true

instance (s : DatabaseSpec) : Decidable s.Proper :=
  decidable_of_iff ((∀ v ∈ s.variableSpecs, v.keysOnce = true) ∧
    s.exporters.Distinct ∧ s.data.Distinct ∧
      ∀ column ∈ s.data, (Json.obj column.2).keysOnce = true)
    ⟨fun h => ⟨h.1, h.2.1, h.2.2.1, h.2.2.2⟩, fun h =>
      ⟨h.variableSpecs, h.exporters, h.columns, h.values⟩⟩

theorem keysOnce_encode {s : DatabaseSpec} (h : s.Proper) :
    s.encode.keysOnce = true := by
  have hvariables : (Json.arr s.variableSpecs).keysOnce = true :=
    Json.keysOnce_arr.mpr h.variableSpecs
  have hexporters : (Json.obj (s.exporters.mapValues Json.ofStrings)).keysOnce =
      true := by
    refine Json.keysOnce_obj.mpr ⟨Dict.distinct_mapValues.mpr h.exporters,
      fun entry hentry => ?_⟩
    obtain ⟨exporter, -, rfl⟩ := List.mem_map.mp hentry
    exact Json.keysOnce_ofStrings exporter.2
  have hdata : (Json.obj (s.data.mapValues Json.obj)).keysOnce = true := by
    refine Json.keysOnce_obj.mpr ⟨Dict.distinct_mapValues.mpr h.columns,
      fun entry hentry => ?_⟩
    obtain ⟨column, hcolumn, rfl⟩ := List.mem_map.mp hentry
    exact h.values column hcolumn
  have hname : (Json.str s.name).keysOnce = true := rfl
  have hstorages := Json.keysOnce_ofStrings s.storages
  -- without columns there is no field for their contents
  unfold encode
  split
  · refine Json.keysOnce_obj.mpr
      ⟨?_, by simp [hname, hvariables, hstorages, hexporters]⟩
    show ["name", "variables", "storages", "exporters"].Nodup
    decide
  · refine Json.keysOnce_obj.mpr
      ⟨?_, by simp [hname, hvariables, hstorages, hexporters, hdata]⟩
    show ["name", "variables", "storages", "exporters", "_data"].Nodup
    decide

theorem decode_encode_of_proper {s : DatabaseSpec} (h : s.Proper) :
    decode (ofJson s.encode) = .ok s :=
  decode_encode (Json.lossless_iff_keysOnce.mpr (keysOnce_encode h))

/-- A database that was read is proper. -/
theorem proper_of_decode {d : Draft} {s : DatabaseSpec} (h : decode d = .ok s) :
    s.Proper := by
  have hstart : Proper { name := "" } :=
    ⟨by simp, List.nodup_nil, List.nodup_nil, by simp⟩
  refine record_keeps hstart (fun s i value s' hs hwrite => ?_) h
  split at hwrite
  case h_1 =>
    obtain ⟨name, -, hmade⟩ := bind_ok hwrite
    cases hmade
    exact ⟨hs.variableSpecs, hs.exporters, hs.columns, hs.values⟩
  case h_2 =>
    obtain ⟨specs, hspecs, hmade⟩ := bind_ok hwrite
    cases hmade
    exact ⟨listOf_keeps (fun _ _ => Json.keysOnce_of_toJson) hspecs,
      hs.exporters, hs.columns, hs.values⟩
  case h_3 =>
    obtain ⟨storages, -, hmade⟩ := bind_ok hwrite
    cases hmade
    exact ⟨hs.variableSpecs, hs.exporters, hs.columns, hs.values⟩
  case h_4 =>
    obtain ⟨exporters, hexporters, hmade⟩ := bind_ok hwrite
    cases hmade
    have hdistinct :=
      (dictOf_keeps (P := fun _ => True) (fun _ _ _ => trivial) hexporters).1
    exact ⟨hs.variableSpecs, hdistinct, hs.columns, hs.values⟩
  case h_5 =>
    obtain ⟨data, hdata, hmade⟩ := bind_ok hwrite
    cases hmade
    have hcolumn : ∀ d column, dictOf toJson d = .ok column →
        (Json.obj column).keysOnce = true :=
      fun _ _ hread => Json.keysOnce_obj.mpr
        (dictOf_keeps (fun _ _ => Json.keysOnce_of_toJson) hread)
    obtain ⟨hdistinct, hvalues⟩ := dictOf_keeps hcolumn hdata
    exact ⟨hs.variableSpecs, hs.exporters, hdistinct, hvalues⟩

end DatabaseSpec

/-! ## Algorithms -/

namespace AlgorithmSpec

/-- An algorithm whose defaults have every key once. -/
def Proper (s : AlgorithmSpec) : Prop := (Json.obj s.config).keysOnce = true

instance (s : AlgorithmSpec) : Decidable s.Proper :=
  inferInstanceAs (Decidable ((Json.obj s.config).keysOnce = true))

theorem keysOnce_encode {s : AlgorithmSpec} (h : s.Proper) :
    s.encode.keysOnce = true := by
  have hconfig : (Json.obj s.config).keysOnce = true := h
  have hname : (Json.str s.name).keysOnce = true := rfl
  have hactions : (Json.arr (RunnerSpec.encodeList s.actions)).keysOnce = true :=
    RunnerSpec.itemsOnce_encodeList s.actions
  unfold encode
  cases s.workdir with
  | none =>
    refine Json.keysOnce_obj.mpr
      ⟨?_, by simp [RunnerSpec.workdirField, hname, hactions, hconfig]⟩
    show ["name", "actions", "config"].Nodup
    decide
  | some dir =>
    have hdir : (Json.str dir).keysOnce = true := rfl
    refine Json.keysOnce_obj.mpr
      ⟨?_, by simp [RunnerSpec.workdirField, hname, hactions, hconfig, hdir]⟩
    show ["name", "actions", "config", "workdir"].Nodup
    decide

theorem decode_encode_of_proper {s : AlgorithmSpec} (h : s.Proper) :
    decode (ofJson s.encode) = .ok s :=
  decode_encode (Json.lossless_iff_keysOnce.mpr (keysOnce_encode h))

/-- An algorithm that was read is proper. -/
theorem proper_of_decode {d : Draft} {s : AlgorithmSpec}
    (h : decode d = .ok s) : s.Proper := by
  have hstart : Proper { name := "" } := rfl
  refine record_keeps hstart (fun s i value s' hs hwrite => ?_) h
  split at hwrite
  case h_3 =>
    obtain ⟨config, hconfig, hmade⟩ := bind_ok hwrite
    cases hmade
    exact Json.keysOnce_obj.mpr
      (dictOf_keeps (fun _ _ => Json.keysOnce_of_toJson) hconfig)
  -- the other fields are not dictionaries
  all_goals
    obtain ⟨field, -, hmade⟩ := bind_ok hwrite
    cases hmade
    exact hs

end AlgorithmSpec

/-! ## Projects -/

namespace ProjectSpec

/-- A project of proper databases, algorithms and steps. -/
structure Proper (s : ProjectSpec) : Prop where
  datasets : ∀ dataset ∈ s.datasets, dataset.Proper
  algorithms : ∀ algorithm ∈ s.algorithms, algorithm.Proper
  plan : s.plan.Proper

/-- A proper project reads back. -/
theorem decode_encode {s : ProjectSpec} (h : s.Proper) :
    decode (ofJson s.encode) = .ok s := by
  have hdatasets : (ofJson (.arr (s.datasets.map DatabaseSpec.encode))).listOf
      DatabaseSpec.decode = .ok s.datasets :=
    listOf_ofJson fun dataset hdataset =>
      DatabaseSpec.decode_encode_of_proper (h.datasets dataset hdataset)
  have halgorithms :
      (ofJson (.arr (s.algorithms.map AlgorithmSpec.encode))).listOf
      AlgorithmSpec.decode =
      .ok s.algorithms :=
    listOf_ofJson fun algorithm halgorithm =>
      AlgorithmSpec.decode_encode_of_proper (h.algorithms algorithm halgorithm)
  have hplan := Plan.decode_encode h.plan
  show List.foldlM (recordStep _ _ _) (_, _) [(some 0, Draft.str s.workdir),
    (some 1, ofJson (.arr (s.datasets.map DatabaseSpec.encode))),
    (some 2, ofJson (.arr (s.algorithms.map AlgorithmSpec.encode))),
    (some 3, ofJson s.plan.encode)] >>= _ = _
  rw [foldlM_recordStep_cons rfl rfl,
    foldlM_recordStep_cons rfl (by dsimp only; rw [hdatasets]; rfl),
    foldlM_recordStep_cons rfl (by dsimp only; rw [halgorithms]; rfl),
    foldlM_recordStep_cons rfl (by dsimp only; rw [hplan]; rfl)]
  rfl

/-- A project that was read is proper. -/
theorem proper_of_decode {d : Draft} {s : ProjectSpec} (h : decode d = .ok s) :
    s.Proper := by
  refine record_keeps ⟨by simp, by simp, by simp, by simp⟩
    (fun s i value s' hs hwrite => ?_) h
  split at hwrite
  case h_1 =>
    obtain ⟨workdir, -, hmade⟩ := bind_ok hwrite
    cases hmade
    exact ⟨hs.datasets, hs.algorithms, hs.plan⟩
  case h_2 =>
    obtain ⟨datasets, hdatasets, hmade⟩ := bind_ok hwrite
    cases hmade
    exact ⟨listOf_keeps (fun _ _ => DatabaseSpec.proper_of_decode) hdatasets,
      hs.algorithms, hs.plan⟩
  case h_3 =>
    obtain ⟨algorithms, halgorithms, hmade⟩ := bind_ok hwrite
    cases hmade
    exact ⟨hs.datasets, listOf_keeps (fun _ _ => AlgorithmSpec.proper_of_decode)
      halgorithms, hs.plan⟩
  case h_4 =>
    obtain ⟨plan, hplan, hmade⟩ := bind_ok hwrite
    cases hmade
    exact ⟨hs.datasets, hs.algorithms, Plan.proper_of_decode hplan⟩

end ProjectSpec

/-! ## Saved states -/

/-- The text of an instant is read as the same instant. -/
def Timestamp.ReadsBack (t : Timestamp) : Prop := parse? t.text = some t

instance (t : Timestamp) : Decidable t.ReadsBack :=
  inferInstanceAs (Decidable (Timestamp.parse? t.text = some t))

namespace Snapshot

/-- A saved state of proper databases and algorithms. -/
structure Proper (s : Snapshot) : Prop where
  datasets : ∀ dataset ∈ s.datasets, dataset.Proper
  algorithms : ∀ algorithm ∈ s.algorithms, algorithm.Proper

theorem keysOnce_encode {s : Snapshot} (h : s.Proper) :
    s.encode.keysOnce = true := by
  have hdatasets : (Json.arr (s.datasets.map DatabaseSpec.encode)).keysOnce =
      true := by
    refine Json.keysOnce_arr.mpr fun j hj => ?_
    obtain ⟨dataset, hdataset, rfl⟩ := List.mem_map.mp hj
    exact DatabaseSpec.keysOnce_encode (h.datasets dataset hdataset)
  have halgorithms :
      (Json.arr (s.algorithms.map AlgorithmSpec.encode)).keysOnce = true := by
    refine Json.keysOnce_arr.mpr fun j hj => ?_
    obtain ⟨algorithm, halgorithm, rfl⟩ := List.mem_map.mp hj
    exact AlgorithmSpec.keysOnce_encode (h.algorithms algorithm halgorithm)
  have htexts : (Json.str s.workdir).keysOnce = true ∧
      (Json.str s.savedAt.text).keysOnce = true := ⟨rfl, rfl⟩
  refine Json.keysOnce_obj.mpr ⟨?_, by simp [htexts, hdatasets, halgorithms]⟩
  show ["workdir", "saved_at", "datasets", "algorithms"].Nodup
  decide

/-- A proper saved state reads back if its instant of saving does. -/
theorem decode_encode_of_proper {s : Snapshot} (h : s.Proper)
    (htime : s.savedAt.ReadsBack) :
    decode (ofJson s.encode) = .ok s := by
  have hparse : Timestamp.parse? s.savedAt.text = some s.savedAt := htime
  rw [decode_encode (Json.lossless_iff_keysOnce.mpr (keysOnce_encode h)), hparse]
  rfl

/-- A saved state that was read is proper. -/
theorem proper_of_decode {d : Draft} {s : Snapshot} (h : decode d = .ok s) :
    s.Proper := by
  refine record_keeps ⟨by simp, by simp⟩ (fun s i value s' hs hwrite => ?_) h
  split at hwrite
  case h_3 =>
    obtain ⟨datasets, hdatasets, hmade⟩ := bind_ok hwrite
    cases hmade
    exact ⟨listOf_keeps (fun _ _ => DatabaseSpec.proper_of_decode) hdatasets,
      hs.algorithms⟩
  case h_4 =>
    obtain ⟨algorithms, halgorithms, hmade⟩ := bind_ok hwrite
    cases hmade
    exact ⟨hs.datasets, listOf_keeps (fun _ _ =>
      AlgorithmSpec.proper_of_decode) halgorithms⟩
  -- neither the working directory nor the instant is made of dictionaries
  all_goals
    obtain ⟨field, -, hmade⟩ := bind_ok hwrite
    cases hmade
    exact ⟨hs.datasets, hs.algorithms⟩

end Snapshot

/-- **Persisted definitions survive a write and a read.** Every proper project
and every proper saved state is read from the data that it is written as; and
whatever was read, from data or from any other draft, is written and read once
more without a change. That the text of the instant of saving is read as the
same instant is assumed. -/
theorem definitions_survive :
    (∀ s : ProjectSpec, s.Proper → ProjectSpec.decode (ofJson s.encode) = .ok s) ∧
      (∀ s : Snapshot, s.Proper → s.savedAt.ReadsBack →
        Snapshot.decode (ofJson s.encode) = .ok s) ∧
      (∀ (d : Draft) (s : ProjectSpec), ProjectSpec.decode d = .ok s →
        ProjectSpec.decode (ofJson s.encode) = .ok s) ∧
      ∀ (d : Draft) (s : Snapshot), Snapshot.decode d = .ok s →
        s.savedAt.ReadsBack →
        Snapshot.decode (ofJson s.encode) = .ok s := by
  refine ⟨fun _ => ProjectSpec.decode_encode, fun _ =>
    Snapshot.decode_encode_of_proper, ?_, ?_⟩
  · intro d s hread
    exact ProjectSpec.decode_encode (ProjectSpec.proper_of_decode hread)
  · intro d s hread htime
    exact Snapshot.decode_encode_of_proper (Snapshot.proper_of_decode hread) htime

/-- A project with a column without entries, a database without columns, runners
in runners, outputs of every shape and an empty loop. -/
def everyShape : ProjectSpec :=
  { workdir := "wd"
    datasets := [
      { name := "doe"
        variableSpecs := [.obj [("name", .str "x"), ("size", .ofInt 2)]]
        storages := ["y"]
        exporters := [("npz.x", ["x"]), ("npz.none", [])]
        data := [("x", []), ("y", [("e", .ofInt 4), ("f", .null)])] },
      { name := "empty" }]
    algorithms := [
      { name := "fom", config := [("categ", .ofInt 0)], workdir := some "fom"
        actions :=
          [.sequence "both"
            [.module "first" "echo" none,
              .sequence "more"
                [.script "second" "second.proto.sh" "sh" true (some "jobs"),
                  .sequence "nothing" []]]] }]
    plan :=
      { init := [
          ⟨"action", some (.names []),
            [("item", .str "fom"), ("args", .obj [("x", .str "#x")])]⟩,
          ⟨"action", some (.copyDict true), []⟩,
          ⟨"action", some (.name "y"), []⟩, ⟨"log-info", none, []⟩]
        body := some [] } }

/-- The databases and algorithms of `everyShape`, saved a little before the end
of a leap day. -/
def everyShapeSaved : Snapshot :=
  { workdir := "/wd", savedAt := ⟨951868799, 500000000⟩, datasets := everyShape.datasets
    algorithms := everyShape.algorithms }

theorem every_shape_survives :
    everyShape.Proper ∧ everyShapeSaved.Proper ∧
      everyShapeSaved.savedAt.text = "2000-02-29T23:59:59.500Z" ∧
      ProjectSpec.decode (ofJson everyShape.encode) = .ok everyShape ∧
      Snapshot.decode (ofJson everyShapeSaved.encode) = .ok everyShapeSaved ∧
      ProjectSpec.decode (ofJson (ProjectSpec.encode {})) = .ok {} := by
  have hproject : everyShape.Proper :=
    ⟨by decide +kernel, by decide +kernel, ⟨by decide +kernel, by decide +kernel⟩⟩
  have hsaved : everyShapeSaved.Proper := ⟨hproject.datasets, hproject.algorithms⟩
  have htime : everyShapeSaved.savedAt.ReadsBack := by decide +kernel
  have hread := definitions_survive.2.1 everyShapeSaved hsaved htime
  exact ⟨hproject,
    hsaved, by decide +kernel, definitions_survive.1 everyShape hproject,
    definitions_survive.2.2.2 _ everyShapeSaved hread htime,
    definitions_survive.2.2.1 (.obj []) {} rfl⟩

end Playbook
