import Playbook.Proofs.Definition.Codec
import Playbook.Proofs.Json.Distinct

/-!
# Playbook — playbooks read back

An output is one of three shapes of data, told apart by trying them in order,
and a step keeps in one object its kind, its output and whatever else it was
given. The other fields of a proper step are not named like those two, so that
all of them come back under the names that they had.

Main results:

* `OutputSpec.decode_encode` — an output of any shape reads back.
* `Step.decode_encode` — so does a proper step.
* `Plan.decode_encode` — so do the steps of a playbook, with or without a loop.
* `Step.proper_of_decode`, `Plan.proper_of_decode` — whatever was read is proper.
-/

namespace Playbook

open Draft

/-! ## Outputs -/

namespace OutputSpec

theorem decode_encode (output : OutputSpec) :
    decode (ofJson output.encode) = .ok output := by
  cases output with
  | name n => rfl
  | names ns =>
    have htexts : (ofJsonItems (ns.map Json.str)).mapM text = .ok ns :=
      listOf_ofStrings ns
    -- a list is settled before its items are looked at
    have hsettle : (ofJson (.ofStrings ns)).settle =
        .ok (.arr (ofJsonItems (ns.map Json.str))) :=
      settle_ofJson (.ofStrings ns)
    show decode (ofJson (.ofStrings ns)) = _
    unfold decode
    rw [hsettle]
    show (ofJsonItems (ns.map Json.str)).mapM text >>= _ = _
    rw [htexts]
    rfl
  | copyDict enabled => rfl

/-- No output is written as null, which stands for the absence of one. -/
theorem optional_encode (output : OutputSpec) :
    (ofJson output.encode).optional decodeStrict = .ok (some output) := by
  have hread : decodeStrict (ofJson output.encode) = .ok output := by
    unfold decodeStrict
    rw [decode_encode]
  cases output <;> exact congrArg (Except.map some) hread

end OutputSpec

/-! ## Steps -/

namespace Step

/-- A step whose other fields are an object of their own and leave the names of
the kind and the output free. -/
structure Proper (s : Step) : Prop where
  once : (Json.obj s.fields).keysOnce = true
  type_free : "type" ∉ Dict.keys s.fields
  output_free : "output" ∉ Dict.keys s.fields

instance (s : Step) : Decidable s.Proper :=
  decidable_of_iff ((Json.obj s.fields).keysOnce = true ∧
    "type" ∉ Dict.keys s.fields ∧ "output" ∉ Dict.keys s.fields)
    ⟨fun h => ⟨h.1, h.2.1, h.2.2⟩, fun h => ⟨h.once, h.type_free, h.output_free⟩⟩

/-- The field for the output: left out when there is none. -/
def outputField (output : Option OutputSpec) : List (String × Json) :=
  match output with
  | none => []
  | some output => [("output", output.encode)]

/-- The fields of a proper step are written as they are. -/
theorem Proper.encode_eq {s : Step} (h : s.Proper) :
    s.encode =
    .obj (("type", .str s.kind) :: (outputField s.output ++ s.fields)) := by
  have hfields : Dict.Distinct s.fields := (Json.keysOnce_obj.mp h.once).1
  -- no field takes the place of another one
  have hdistinct : Dict.Distinct
      (("type", Json.str s.kind) :: (outputField s.output ++ s.fields)) := by
    cases hout : s.output with
    | none => exact List.nodup_cons.mpr ⟨h.type_free, hfields⟩
    | some output =>
      refine List.nodup_cons.mpr ⟨fun hmem => ?_,
        List.nodup_cons.mpr ⟨h.output_free, hfields⟩⟩
      rcases List.mem_cons.mp hmem with htype | hmem
      · have hne : "type" ≠ "output" := by decide
        exact hne htype
      · exact h.type_free hmem
  exact congrArg Json.obj (Dict.ofList_eq_self hdistinct)

/-- Fields that are named neither like the kind nor like the output are kept. -/
theorem foldlM_readField {fields : List (String × Json)} (parts : Parts)
    (htype : "type" ∉ Dict.keys fields)
    (houtput : "output" ∉ Dict.keys fields) :
    (ofJsonFields fields).foldlM readField parts =
      .ok { parts with fields := parts.fields ++ ofJsonFields fields } := by
  induction fields generalizing parts with
  | nil =>
    show Except.ok parts = _
    rw [ofJsonFields, List.append_nil]
  | cons entry fields ih =>
    obtain ⟨key, value⟩ := entry
    have hkey : key ≠ "type" ∧ key ≠ "output" :=
      ⟨fun h => htype (h ▸ List.mem_cons_self ..), fun h =>
        houtput (h ▸ List.mem_cons_self ..)⟩
    have hstep : readField parts (key, ofJson value) =
        .ok { parts with fields := parts.fields ++ [(key, ofJson value)] } := by
      unfold readField
      rw [if_neg hkey.1, if_neg hkey.2, settle_ofJson value]
      rfl
    have hrest := ih { parts with fields := parts.fields ++ [(key, ofJson value)] }
      (fun h => htype (List.mem_cons_of_mem _ h)) fun h =>
        houtput (List.mem_cons_of_mem _ h)
    show ((key, ofJson value) :: ofJsonFields fields).foldlM readField parts = _
    rw [List.foldlM_cons, hstep]
    refine hrest.trans ?_
    rw [ofJsonFields, List.append_assoc]
    rfl

/-- Kind, output and other fields of a proper step are told apart again. -/
theorem Proper.foldlM_encode {s : Step} (h : s.Proper) :
    (ofJsonFields (("type", .str s.kind) ::
      (outputField s.output ++ s.fields))).foldlM readField {} =
      .ok { kind := some s.kind, output := s.output.map some
            fields := ofJsonFields s.fields } := by
  cases s.output with
  | none =>
    show (ofJsonFields s.fields).foldlM readField { kind := some s.kind } = _
    exact foldlM_readField _ h.type_free h.output_free
  | some output =>
    have hstep : readField { kind := some s.kind }
        ("output", ofJson output.encode) =
        .ok { kind := some s.kind, output := some (some output) } := by
      show ((ofJson output.encode).optional OutputSpec.decodeStrict).map _ = _
      rw [output.optional_encode]
      rfl
    show (("output", ofJson output.encode) :: ofJsonFields s.fields).foldlM
      readField { kind := some s.kind } = _
    rw [List.foldlM_cons, hstep]
    exact foldlM_readField _ h.type_free h.output_free

/-- A proper step reads back. -/
theorem decode_encode {s : Step} (h : s.Proper) :
    decode (ofJson s.encode) = .ok s := by
  obtain ⟨hdistinct, hvalues⟩ := Json.keysOnce_obj.mp h.once
  have hfields : toJsonFields (ofJsonFields s.fields) = .ok s.fields :=
    Json.toJsonFields_of_fieldsOnce s.fields (Json.fieldsOnce_iff.mpr hvalues)
  have hlist : Dict.ofList s.fields = s.fields := Dict.ofList_eq_self hdistinct
  have houtput : (s.output.map some).join = s.output := by cases s.output <;> rfl
  rw [h.encode_eq]
  show (ofJsonFields (("type", .str s.kind) ::
    (outputField s.output ++ s.fields))).foldlM readField {} >>= _ = _
  rw [h.foldlM_encode]
  show (toJsonFields (ofJsonFields s.fields) >>= fun fields =>
    (.ok ⟨s.kind, (s.output.map some).join, Dict.ofList fields⟩ : Except
      Fault Step)) = _
  rw [hfields, houtput]
  exact congrArg (fun fields => Except.ok { s with fields }) hlist

/-- The other fields that are read are named neither like the kind
nor like the output. -/
theorem readField_keeps {parts parts' : Parts} {entry : String × Draft}
    (hparts : "type" ∉ Dict.keys parts.fields ∧ "output" ∉ Dict.keys parts.fields)
    (h : readField parts entry = .ok parts') :
    "type" ∉ Dict.keys parts'.fields ∧ "output" ∉ Dict.keys parts'.fields := by
  unfold readField at h
  split at h
  · split at h
    · cases h
    · obtain ⟨kind, -, rfl⟩ := map_ok h
      exact hparts
  · rename_i htype
    split at h
    · split at h
      · cases h
      · obtain ⟨output, -, rfl⟩ := map_ok h
        exact hparts
    · rename_i houtput
      obtain ⟨value, -, rfl⟩ := map_ok h
      have hkeys : Dict.keys (parts.fields ++ [(entry.1, value)]) =
          Dict.keys parts.fields ++ [entry.1] :=
        Dict.keys_append ..
      dsimp only
      rw [hkeys, List.mem_append, List.mem_append, List.mem_singleton,
        List.mem_singleton]
      exact ⟨fun hmem => hmem.elim hparts.1 fun heq => htype heq.symm,
        fun hmem => hmem.elim hparts.2 fun heq => houtput heq.symm⟩

/-- A step that was read is proper. -/
theorem proper_of_decode {d : Draft} {s : Step} (h : decode d = .ok s) :
    s.Proper := by
  obtain ⟨entries, -, hentries⟩ := bind_ok h
  obtain ⟨parts, hparts, hstep⟩ := bind_ok hentries
  have hfree : "type" ∉ Dict.keys parts.fields ∧
      "output" ∉ Dict.keys parts.fields :=
    foldlM_keeps (fun _ _ _ hfree hread =>
      readField_keeps hfree hread) ⟨by simp, by simp⟩ hparts
  split at hstep
  · cases hstep
  · obtain ⟨fields, hfields, hmade⟩ := bind_ok hstep
    cases hmade
    have hkeys : Dict.keys fields = Dict.keys parts.fields :=
      Json.keys_toJsonFields hfields
    refine ⟨Json.keysOnce_ofList (Json.keysOnce_of_toJsonFields hfields),
      fun hmem => ?_, fun hmem => ?_⟩
    · exact hfree.1 (hkeys ▸ Dict.mem_keys_ofList.mp hmem)
    · exact hfree.2 (hkeys ▸ Dict.mem_keys_ofList.mp hmem)

end Step

/-! ## Playbooks -/

namespace Plan

/-- A playbook of proper steps. -/
structure Proper (p : Plan) : Prop where
  init : ∀ step ∈ p.init, step.Proper
  body : ∀ steps ∈ p.body, ∀ step ∈ steps, step.Proper

/-- The steps of a playbook read back, those of its loop too if it has one. -/
theorem decode_encode {p : Plan} (h : p.Proper) :
    decode (ofJson p.encode) = .ok p := by
  have hinit : (ofJson (.arr (p.init.map Step.encode))).listOf
      Step.decode = .ok p.init :=
    listOf_ofJson fun step hstep => Step.decode_encode (h.init step hstep)
  have hbody : ∀ steps ∈ p.body, (ofJson (.arr (steps.map Step.encode))).listOf
      Step.decode = .ok steps :=
    fun steps hsteps => listOf_ofJson fun step hstep =>
      Step.decode_encode (h.body steps hsteps step hstep)
  obtain ⟨init, body⟩ := p
  cases body with
  | none =>
    show List.foldlM (recordStep _ _ _) (_, _)
      [(some 0, ofJson (.arr (init.map Step.encode)))] >>= _ = _
    rw [foldlM_recordStep_cons rfl (by dsimp only; rw [hinit]; rfl)]
    rfl
  | some steps =>
    have hloop : (ofJson (.arr (steps.map Step.encode))).optional
        (listOf Step.decode) = .ok (some steps) :=
      congrArg (Except.map some) (hbody steps rfl)
    show List.foldlM (recordStep _ _ _) (_, _)
      [(some 0, ofJson (.arr (init.map Step.encode))),
      (some 1, ofJson (.arr (steps.map Step.encode)))] >>= _ = _
    rw [foldlM_recordStep_cons rfl (by dsimp only; rw [hinit]; rfl),
      foldlM_recordStep_cons rfl (by dsimp only; rw [hloop]; rfl)]
    rfl

/-- A playbook that was read is proper. -/
theorem proper_of_decode {d : Draft} {p : Plan} (h : decode d = .ok p) :
    p.Proper := by
  refine record_keeps ⟨by simp, by simp⟩ (fun p i value p' hp hwrite => ?_) h
  split at hwrite
  · obtain ⟨init, hinit, hmade⟩ := bind_ok hwrite
    cases hmade
    exact ⟨listOf_keeps (fun _ _ => Step.proper_of_decode) hinit, hp.body⟩
  · obtain ⟨body, hbody, hmade⟩ := bind_ok hwrite
    cases hmade
    have hsteps : ∀ d steps, listOf Step.decode d = .ok steps →
        ∀ step ∈ steps, step.Proper :=
      fun _ _ hread => listOf_keeps (fun _ _ => Step.proper_of_decode) hread
    exact ⟨hp.init, optional_keeps hsteps hbody⟩

end Plan

end Playbook
