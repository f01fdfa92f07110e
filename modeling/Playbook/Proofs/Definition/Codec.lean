import Playbook.Definition.Project
import Playbook.Proofs.Json.Codec

/-!
# Playbook — definitions read back

A definition is read from the data that it is written as: records are read field
by field, and each field reads back. The data of columns and defaults is kept as
it is and reads back if it is lossless.

Main results:

* `RunnerSpec.decode_encode`, `AlgorithmSpec.decode_encode`,
  `DatabaseSpec.decode_encode` — each reads back.
* `Snapshot.decode_encode` — so does a saved state, with the instant that its
  time of saving is read as.
-/

namespace Playbook

open Draft

theorem Draft.listOf_ofStrings (texts : List String) :
    (ofJson (.ofStrings texts)).listOf text = .ok texts :=
  listOf_ofJson fun _ _ => rfl

/-! ## Runners -/

namespace RunnerSpec

theorem encodeList_eq_map (specs : List RunnerSpec) :
    encodeList specs = specs.map encode := by
  induction specs with
  | nil => rfl
  | cons s specs ih => exact congrArg (encode s :: ·) ih

theorem decodeWithin_module (depth : Nat) (name identifier : String)
    (workdir : Option String) :
    decodeWithin (depth + 1) (ofJson (encode (.module name identifier workdir))) =
      .ok (.module name identifier workdir) := by
  cases workdir <;> rfl

theorem decodeWithin_script (depth : Nat) (name path shell : String)
    (parallel : Bool) (workdir : Option String) :
    decodeWithin (depth + 1)
      (ofJson (encode (.script name path shell parallel workdir))) =
      .ok (.script name path shell parallel workdir) := by
  cases workdir <;> rfl

/-- A sequence is read by reading its runners. -/
theorem decodeWithin_sequence {depth : Nat} (name : String)
    {actions : List RunnerSpec}
    (hactions : (ofJsonItems (encodeList actions)).mapM (decodeWithin depth) =
      .ok actions) :
    decodeWithin (depth + 1) (ofJson (encode (.sequence name actions))) =
    .ok (.sequence name actions) := by
  have hsettle : (Draft.arr (ofJsonItems (encodeList actions))).settle =
      .ok (.arr (ofJsonItems (encodeList actions))) :=
        settle_ofJson (.arr (encodeList actions))
  have hfields : splitKind (some "sequence")
      [("actions", .arr (ofJsonItems (encodeList actions)))] =
      .ok (some "sequence",
        [("actions", .arr (ofJsonItems (encodeList actions)))]) := by
    show ((Draft.arr (ofJsonItems (encodeList actions))).settle >>= fun value =>
      splitKind (some "sequence") [] >>= fun r =>
        pure (r.1, ("actions", value) :: r.2)) = _
    rw [hsettle]
    rfl
  have hsplit : splitDraft (ofJson (encode (.sequence name actions))) =
      .ok ("sequence", .obj [("name", .str name),
        ("actions", .arr (ofJsonItems (encodeList actions)))]) := by
    show (splitKind (some "sequence")
        [("actions", .arr (ofJsonItems (encodeList actions)))] >>= fun r =>
      pure (r.1, ("name", Draft.str name) :: r.2)) >>= _ = _
    rw [hfields]
    rfl
  have hlist : (Draft.arr (ofJsonItems (encodeList actions))).listOf
      (decodeWithin depth) = .ok actions := hactions
  -- the kind is split off first; what is left is a record of a name and the runners
  unfold decodeWithin
  rw [hsplit]
  show (List.foldlM (recordStep _ _ _) (_, _)
    [(some 0, Draft.str name),
      (some 1, .arr (ofJsonItems (encodeList actions)))] >>= _) >>= _ = _
  rw [foldlM_recordStep_cons rfl rfl,
    foldlM_recordStep_cons rfl (by dsimp only; rw [hlist]; rfl)]
  rfl

mutual
/-- A description reads back wherever its nesting is allowed. -/
theorem decodeWithin_encode : (s : RunnerSpec) → {n : Nat} →
    (ofJson (encode s)).depth < n →
    decodeWithin n (ofJson (encode s)) = .ok s
  | .module name identifier workdir, n + 1, _ =>
    decodeWithin_module n name identifier workdir
  | .script name path shell parallel workdir, n + 1, _ =>
    decodeWithin_script n name path shell parallel workdir
  | .sequence name actions, n + 1, h => by
    have hdepth : (ofJson (encode (.sequence name actions))).depth =
        max 0 (max 0 (max (depthItems (ofJsonItems (encodeList actions)) + 1)
          0)) + 1 := rfl
    exact decodeWithin_sequence name (mapM_decodeWithin actions (by omega))

theorem mapM_decodeWithin : (ss : List RunnerSpec) → {n : Nat} →
    depthItems (ofJsonItems (encodeList ss)) < n →
    (ofJsonItems (encodeList ss)).mapM (decodeWithin n) = .ok ss
  | [], _, _ => rfl
  | s :: ss, n, h => by
    have hdepth : depthItems (ofJsonItems (encodeList (s :: ss))) =
        max (ofJson (encode s)).depth
          (depthItems (ofJsonItems (encodeList ss))) := rfl
    show (ofJson (encode s) :: ofJsonItems (encodeList ss)).mapM
      (decodeWithin n) = _
    rw [List.mapM_cons, decodeWithin_encode s (by omega),
      mapM_decodeWithin ss (by omega)]
    rfl
end

/-- A description reads back. -/
theorem decode_encode (s : RunnerSpec) : decode (ofJson (encode s)) = .ok s :=
  decodeWithin_encode s (Nat.lt_succ_self _)

end RunnerSpec

/-! ## Items -/

theorem AlgorithmSpec.decode_encode {s : AlgorithmSpec} (h : s.encode.Lossless) :
    decode (ofJson s.encode) = .ok s := by
  have hconfig : (ofJson (.obj s.config)).dictOf toJson = .ok s.config :=
    (h.fields.2 ("config", .obj s.config) (by simp)).dictOf
  have hactions : (ofJson (.arr (RunnerSpec.encodeList s.actions))).listOf
      RunnerSpec.decode = .ok s.actions := by
    rw [RunnerSpec.encodeList_eq_map]
    exact listOf_ofJson fun action _ => action.decode_encode
  -- a working directory that is not pinned is not written
  obtain ⟨name, actions, config, workdir⟩ := s
  cases workdir with
  | none =>
    show List.foldlM (recordStep _ _ _) (_, _) [(some 0, Draft.str name),
      (some 1, ofJson (.arr (RunnerSpec.encodeList actions))),
      (some 2, ofJson (.obj config))] >>= _ = _
    rw [foldlM_recordStep_cons rfl rfl,
      foldlM_recordStep_cons rfl (by dsimp only; rw [hactions]; rfl),
      foldlM_recordStep_cons rfl (by dsimp only; rw [hconfig]; rfl)]
    rfl
  | some dir =>
    show List.foldlM (recordStep _ _ _) (_, _) [(some 0, Draft.str name),
      (some 1, ofJson (.arr (RunnerSpec.encodeList actions))),
      (some 2, ofJson (.obj config)),
      (some 3, Draft.str dir)] >>= _ = _
    rw [foldlM_recordStep_cons rfl rfl,
      foldlM_recordStep_cons rfl (by dsimp only; rw [hactions]; rfl),
      foldlM_recordStep_cons rfl (by dsimp only; rw [hconfig]; rfl),
      foldlM_recordStep_cons rfl rfl]
    rfl

theorem DatabaseSpec.decode_encode {s : DatabaseSpec} (h : s.encode.Lossless) :
    decode (ofJson s.encode) = .ok s := by
  have hvariables : (ofJson (.arr s.variableSpecs)).listOf toJson =
      .ok s.variableSpecs :=
    (h.fields.2 ("variables", .arr s.variableSpecs) (by simp)).listOf
  have hstorages : (ofJson (.ofStrings s.storages)).listOf text =
      .ok s.storages := listOf_ofStrings s.storages
  have hexporters :
      (ofJson (.obj (s.exporters.mapValues Json.ofStrings))).dictOf
        (listOf text) = .ok s.exporters := by
    have hlossless :=
      (h.fields.2 ("exporters", .obj (s.exporters.mapValues Json.ofStrings))
        (by simp)).fields.1
    exact dictOf_ofJson (Dict.distinct_mapValues.mp hlossless) fun entry _ =>
      listOf_ofStrings entry.2
  -- a database without columns has no field for their contents
  obtain ⟨name, declared, storages, exporters, data⟩ := s
  cases data with
  | nil =>
    show List.foldlM (recordStep _ _ _) (_, _)
      [(some 0, Draft.str name), (some 1, ofJson (.arr declared)),
      (some 2, ofJson (.ofStrings storages)),
      (some 3, ofJson (.obj (exporters.mapValues Json.ofStrings)))] >>= _ = _
    rw [foldlM_recordStep_cons rfl rfl,
      foldlM_recordStep_cons rfl (by dsimp only; rw [hvariables]; rfl),
      foldlM_recordStep_cons rfl (by dsimp only; rw [hstorages]; rfl),
      foldlM_recordStep_cons rfl (by dsimp only; rw [hexporters]; rfl)]
    rfl
  | cons first rest =>
    have hcolumns :=
      h.fields.2 ("_data", .obj (Dict.mapValues Json.obj (first :: rest)))
        (by simp)
    have hdistinct : Dict.Distinct (first :: rest) :=
      Dict.distinct_mapValues.mp hcolumns.fields.1
    have hdata :
        (ofJson (.obj (Dict.mapValues Json.obj (first :: rest)))).dictOf
          (dictOf toJson) =
        .ok (first :: rest) :=
      dictOf_ofJson hdistinct fun entry hentry =>
        (hcolumns.fields.2 (entry.1, .obj entry.2)
          (List.mem_map_of_mem hentry)).dictOf
    show List.foldlM (recordStep _ _ _) (_, _)
      [(some 0, Draft.str name), (some 1, ofJson (.arr declared)),
      (some 2, ofJson (.ofStrings storages)),
      (some 3, ofJson (.obj (exporters.mapValues Json.ofStrings))),
      (some 4, ofJson (.obj (Dict.mapValues Json.obj (first :: rest))))] >>= _ = _
    rw [foldlM_recordStep_cons rfl rfl,
      foldlM_recordStep_cons rfl (by dsimp only; rw [hvariables]; rfl),
      foldlM_recordStep_cons rfl (by dsimp only; rw [hstorages]; rfl),
      foldlM_recordStep_cons rfl (by dsimp only; rw [hexporters]; rfl),
      foldlM_recordStep_cons rfl (by dsimp only; rw [hdata]; rfl)]
    rfl

/-! ## Saved states -/

/-- A saved state reads back, with the instant that its time of
saving is read as. -/
theorem Snapshot.decode_encode {s : Snapshot} (h : s.encode.Lossless) :
    decode (ofJson s.encode) =
      (Timestamp.parse? s.savedAt.text).elim (.error .wrongShape) fun savedAt =>
        .ok { s with savedAt } := by
  have hdatasets : (ofJson (.arr (s.datasets.map DatabaseSpec.encode))).listOf
      DatabaseSpec.decode =
      .ok s.datasets := by
    have hlossless := h.fields.2 ("datasets",
        .arr (s.datasets.map DatabaseSpec.encode)) (by simp)
    exact listOf_ofJson fun spec hspec =>
      DatabaseSpec.decode_encode (hlossless.items _ (List.mem_map_of_mem hspec))
  have halgorithms :
      (ofJson (.arr (s.algorithms.map AlgorithmSpec.encode))).listOf
      AlgorithmSpec.decode =
      .ok s.algorithms := by
    have hlossless := h.fields.2 ("algorithms",
        .arr (s.algorithms.map AlgorithmSpec.encode)) (by simp)
    exact listOf_ofJson fun spec hspec =>
      AlgorithmSpec.decode_encode (hlossless.items _ (List.mem_map_of_mem hspec))
  -- the text of the instant need not be computed
  have hread : ∀ saved,
      decode (.obj [("workdir", .str s.workdir), ("saved_at", .str saved),
      ("datasets", ofJson (.arr (s.datasets.map DatabaseSpec.encode))),
      ("algorithms", ofJson (.arr (s.algorithms.map AlgorithmSpec.encode)))]) =
      (Timestamp.parse? saved).elim (.error .wrongShape) fun savedAt =>
        .ok { s with savedAt } := by
    intro saved
    have htime : decodeTimestamp (.str saved) =
        (Timestamp.parse? saved).elim (.error .wrongShape) .ok := by
      unfold decodeTimestamp
      dsimp only [Draft.text, bind, Except.bind]
      cases Timestamp.parse? saved with
      | none => rfl
      | some savedAt => rfl
    show List.foldlM (recordStep _ _ _) (_, _)
      [(some 0, Draft.str s.workdir), (some 1, Draft.str saved),
      (some 2, ofJson (.arr (s.datasets.map DatabaseSpec.encode))),
      (some 3, ofJson (.arr (s.algorithms.map AlgorithmSpec.encode)))] >>= _ = _
    rw [foldlM_recordStep_cons rfl rfl]
    cases hsaved : Timestamp.parse? saved with
    | none =>
      rw [hsaved] at htime
      rw [foldlM_recordStep_error rfl (by dsimp only; rw [htime]; rfl)]
      rfl
    | some savedAt =>
      rw [hsaved] at htime
      rw [foldlM_recordStep_cons rfl (by dsimp only; rw [htime]; rfl),
        foldlM_recordStep_cons rfl (by dsimp only; rw [hdatasets]; rfl),
        foldlM_recordStep_cons rfl (by dsimp only; rw [halgorithms]; rfl)]
      rfl
  exact hread s.savedAt.text

end Playbook
