import Playbook.Proofs.Dispatch

/-!
# Playbook — what a step writes to the namespace

A step reads the namespace while it runs and writes to it only at its end, where
its output says so. What an output writes of a value is a dictionary of its own
(`OutputSpec.written`), so that the namespace after a step is the one before it
with that dictionary written over it.

A binding that fails is meant to write nothing. One kind of output does not see
to that: names that are taken out of a mapping are bound one after the other,
and those before a missing one stay bound.

Main results:

* `Namespace.bindKeys_eq` — names are bound up to the first one
  that the mapping lacks.
* `Namespace.bind_eq` — a binding writes `OutputSpec.written`,
  whether it fails or not.
* `Step.values_value` — running a step changes no named value.
* `Step.values_of_execute` — what a step leaves in the namespace, however it ends.
-/

namespace Playbook

open Effect

/-! ## Outputs -/

/-- What names take out of a mapping, up to the first name that it lacks. A
value is taken once. -/
def Namespace.taken (entries : Dict Value) :
    List String → List (String × Value) × Option String
  | [] => ([], none)
  | name :: names =>
    match entries.get? name with
    | none => ([], some name)
    | some value => ((name, value) :: (taken (entries.erase name) names).1,
      (taken (entries.erase name) names).2)

namespace OutputSpec

/-- The names to which an output may write when it is given a value. -/
def selects (output : OutputSpec) (value : Value) : List String :=
  match output with
  | .name key => [key]
  | .names keys => keys
  | .copyDict true => (value.mapping?.getD []).keys
  | .copyDict false => []

/-- What an output writes when it is given a value. -/
def written (output : OutputSpec) (value : Value) : Dict Value :=
  match output with
  | .name key => [(key, value)]
  | .names keys =>
    match value.sequence? with
    | some items => if items.length < keys.length then []
      else Dict.ofList (keys.zip items)
    | none => Dict.ofList (Namespace.taken (value.mapping?.getD []) keys).1
  | .copyDict true => Dict.ofList (value.mapping?.getD [])
  | .copyDict false => []

/-- An output of names stops at a name that its mapping lacks, with
others bound before it. -/
structure StopsAt (output : OutputSpec) (value : Value)
    (missing : String) : Prop where
  mapping : ∃ names entries, output = .names names ∧ value.sequence? = none ∧
    value.mapping? = some entries ∧
    (Namespace.taken entries names).2 = some missing
  bound : output.written value ≠ []

end OutputSpec

namespace Namespace

/-! ## Binding names to a mapping -/

/-- Names are bound to what they take out of a mapping; the first name that it
lacks is the failure. -/
theorem bindKeys_eq (n : Namespace) (entries : Dict Value) (names : List String) :
    bindKeys n entries names =
      (match (taken entries names).2 with
        | none => .ok ()
        | some missing => .error (Cause.outputBinding (.noKey missing)),
      n.extend (taken entries names).1) := by
  -- along the names, with the entries that are left and the namespace so far
  induction names generalizing n entries with
  | nil => rfl
  | cons name names ih =>
    unfold bindKeys taken
    cases entries.get? name with
    | none => rfl
    | some value => exact ih (n.insert name value) (entries.erase name)

/-- What names take out of a mapping stands there under one of them. -/
theorem mem_of_mem_taken {entries : Dict Value} {names : List String}
    {entry : String × Value} (h : entry ∈ (taken entries names).1) :
    entry.1 ∈ names ∧ entry ∈ entries := by
  induction names generalizing entries with
  | nil => cases h
  | cons name names ih =>
    unfold taken at h
    cases hget : entries.get? name with
    | none =>
      rw [hget] at h
      cases h
    | some value =>
      rw [hget] at h
      rcases List.mem_cons.mp h with rfl | hrest
      · exact ⟨List.mem_cons_self .., Dict.mem_of_get? hget⟩
      · obtain ⟨hname, hentry⟩ := ih hrest
        exact ⟨List.mem_cons_of_mem _ hname, Dict.mem_of_mem_erase hentry⟩

theorem mem_of_mem_keys_taken {entries : Dict Value} {names : List String}
    {key : String} (h : key ∈ Dict.keys (taken entries names).1) :
    key ∈ names := by
  obtain ⟨entry, hentry, rfl⟩ := List.mem_map.mp h
  exact (mem_of_mem_taken hentry).1

end Namespace

namespace OutputSpec

/-! ## What an output writes -/

theorem distinct_written (output : OutputSpec) (value : Value) :
    (output.written value).Distinct := by
  cases output with
  | name key => exact List.nodup_singleton key
  | names names =>
    unfold written
    cases value.sequence? with
    | none => exact Dict.distinct_ofList _
    | some items =>
      dsimp only
      split
      · exact List.nodup_nil
      · exact Dict.distinct_ofList _
  | copyDict enabled =>
    cases enabled with
    | false => exact List.nodup_nil
    | true => exact Dict.distinct_ofList _

/-- An output writes to names that it selects. -/
theorem selects_of_written {output : OutputSpec} {value : Value} {key : String}
    (h : key ∈ (output.written value).keys) : key ∈ output.selects value := by
  cases output with
  | name name => exact h
  | names names =>
    unfold written at h
    cases hsequence : value.sequence? with
    | none =>
      rw [hsequence] at h
      exact Namespace.mem_of_mem_keys_taken (Dict.mem_keys_ofList.mp h)
    | some items =>
      rw [hsequence] at h
      dsimp only at h
      split at h
      · cases h
      · obtain ⟨⟨name, item⟩, hmem, rfl⟩ :=
          List.mem_map.mp (Dict.mem_keys_ofList.mp h)
        exact (List.of_mem_zip hmem).1
  | copyDict enabled =>
    cases enabled with
    | false => cases h
    | true => exact Dict.mem_keys_ofList.mp h

end OutputSpec

namespace Namespace

/-- What a binding leaves behind, whether it fails or not. -/
theorem bind_eq (n : Namespace) (output : OutputSpec) (value : Value) :
    (n.bind output value).2 = n.extend (output.written value) := by
  cases output with
  | name name => rfl
  | names names =>
    unfold bind OutputSpec.written
    cases value.sequence? with
    | some items =>
      dsimp only
      split
      · rfl
      · exact (Dict.extend_ofList n _).symm
    | none =>
      dsimp only
      rw [Dict.extend_ofList]
      cases value.mapping? with
      | some entries => exact congrArg Prod.snd (bindKeys_eq n entries names)
      | none =>
        -- a value that is no mapping has nothing to take
        have hnone : (taken (Option.getD none []) names).1 = [] := by
          cases names <;> rfl
        rw [hnone]
        rfl
  | copyDict enabled =>
    cases enabled with
    | false => rfl
    | true =>
      unfold bind OutputSpec.written
      rw [Dict.extend_ofList]
      cases value.mapping? <;> rfl

/-- Names that cannot be bound are bound to nothing, or up to the first one that
a mapping lacks. -/
theorem cases_of_bind_names {n : Namespace} {names : List String}
    {value : Value} {failure : Failure}
    (hfails : (n.bind (.names names) value).1 = .error failure) :
    (OutputSpec.names names).written value = [] ∨
      ∃ entries missing, value.sequence? = none ∧
      value.mapping? = some entries ∧ (taken entries names).2 = some missing ∧
      failure = Cause.outputBinding (.noKey missing) := by
  unfold bind at hfails
  unfold OutputSpec.written
  cases hsequence : value.sequence? with
  | some items =>
    -- a list is counted before any name is bound
    rw [hsequence] at hfails
    dsimp only at hfails
    split at hfails
    · next hfew => exact Or.inl (if_pos hfew)
    · cases hfails
  | none =>
    rw [hsequence] at hfails
    cases hmapping : value.mapping? with
    | none =>
      left
      cases names <;> rfl
    | some entries =>
      rw [hmapping] at hfails
      dsimp only at hfails
      rw [bindKeys_eq] at hfails
      cases hmissing : (taken entries names).2 with
      | none =>
        rw [hmissing] at hfails
        cases hfails
      | some missing =>
        rw [hmissing] at hfails
        cases hfails
        exact Or.inr ⟨entries, missing, rfl, rfl, hmissing, rfl⟩

/-- What is no mapping cannot be copied, and nothing of it is. -/
theorem written_of_bind_copyDict {n : Namespace} {enabled : Bool}
    {value : Value} {failure : Failure}
    (hfails : (n.bind (.copyDict enabled) value).1 = .error failure) :
    (OutputSpec.copyDict enabled).written value = [] := by
  cases enabled with
  | false => cases hfails
  | true =>
    unfold bind at hfails
    unfold OutputSpec.written
    cases hmapping : value.mapping? with
    | some entries =>
      rw [hmapping] at hfails
      cases hfails
    | none => rfl

/-- The only binding that fails and writes is one of names to a mapping that
lacks one of them. -/
theorem stopsAt_of_bind {n : Namespace} {output : OutputSpec} {value : Value}
    {failure : Failure} (hfails : (n.bind output value).1 = .error failure)
    (hwritten : output.written value ≠ []) :
    ∃ missing, output.StopsAt value missing ∧
    failure = Cause.outputBinding (.noKey missing) := by
  cases output with
  | name name => cases hfails
  | names names =>
    obtain hnothing |
        ⟨entries, missing, hsequence, hmapping, hmissing, hfailure⟩ :=
      cases_of_bind_names hfails
    · exact absurd hnothing hwritten
    · exact ⟨missing, ⟨⟨names, entries, rfl, hsequence, hmapping, hmissing⟩,
        hwritten⟩, hfailure⟩
  | copyDict enabled => exact absurd (written_of_bind_copyDict hfails) hwritten

/-- An output that stops at a missing name fails for it. -/
theorem bind_of_stopsAt {output : OutputSpec} {value : Value} {missing : String}
    (h : output.StopsAt value missing) (n : Namespace) :
    (n.bind output value).1 = .error
      (Cause.outputBinding (.noKey missing)) := by
  obtain ⟨names, entries, rfl, hsequence, hmapping, hmissing⟩ := h.mapping
  unfold bind
  rw [hsequence, hmapping]
  dsimp only
  rw [bindKeys_eq, hmissing]

end Namespace

/-! ## Running a step -/

namespace Step

/-- No act on the world reaches the named values. -/
theorem carries_values : Carries fun s s' : Session =>
  s'.run.values = s.run.values where
  refl _ := rfl
  trans h k := k.trans h
  act _ _ _ := rfl

/-- Running a step changes no named value; only its output does. -/
theorem values_value (ctx : Context) (step : Step) (s : Session) :
    ((step.value ctx).run s).2.run.values = s.run.values := by
  cases hstops : step.stops? with
  | none => exact carries_values.value ctx (parse_ne_of_stops? hstops) s
  | some loops =>
    rw [run_value_of_stops? ctx hstops]
    show (s.run.requestStop loops).values = s.run.values
    unfold Run.requestStop
    split <;> rfl

/-- A step with a value and an output ends as its binding does. -/
theorem run_execute_of_value {ctx : Context} {step : Step} {s s' : Session}
    {value : Value} {output : OutputSpec}
    (hvalue : (step.value ctx).run (step.noted s) = (.ok (some value), s'))
    (houtput : step.output = some output) :
    (step.execute ctx).run s = (bindOutput output value).run s' := by
  rw [run_execute, run_bind_of_ok hvalue, houtput]

/-- A step without an output ends where it was run. -/
theorem run_execute_of_no_output {ctx : Context} {step : Step} {s s' : Session}
    {value : Option Value}
    (hvalue : (step.value ctx).run (step.noted s) = (.ok value, s'))
    (houtput : step.output = none) :
    (step.execute ctx).run s = (.ok (), s') := by
  rw [run_execute, run_bind_of_ok hvalue, houtput]
  cases value <;> rfl

/-- **What a step leaves in the namespace.** A step that fails before it has a
value, and one that is skipped, leaves every named value as it was and in its
place, and so does every step without an output. Otherwise the namespace is the
one before with what the output writes of the value: only names that the output
selects can change, and those that were there keep their places. If the value
cannot be bound, the namespace is as it was, unless the output takes names out
of a mapping and stops at one that it lacks with others bound before; then it is
as it was exactly if these had the same values already. -/
theorem values_of_execute (ctx : Context) (step : Step) (s : Session) :
    let valued := ((step.value ctx).run (step.noted s)).1
    let result := ((step.execute ctx).run s).1
    let before := s.run.values
    let after := ((step.execute ctx).run s).2.run.values
    (∀ failure, valued = .error failure →
      result = .error failure ∧ after = before) ∧
    (valued = .ok none → result = .ok () ∧ after = before) ∧
    (step.output = none → after = before) ∧
    ∀ value output, valued = .ok (some value) → step.output = some output →
      after = before.extend (output.written value) ∧
      before.keys <+: after.keys ∧
      (∀ key, key ∉ output.selects value → after.get? key = before.get? key) ∧
      (∀ failure, result = .error failure → after = before ∨
        ∃ missing, output.StopsAt value missing ∧
        failure = Cause.outputBinding (.noKey missing)) ∧
      (∀ missing, output.StopsAt value missing →
        result = .error (Cause.outputBinding (.noKey missing)) ∧
        (after = before ↔ ∀ key bound, (key, bound) ∈ output.written value →
          before.get? key = some bound)) := by
  intro valued result before after
  have hran : ((step.value ctx).run (step.noted s)).2.run.values = before :=
    values_value ctx step (step.noted s)
  refine ⟨fun failure hvalued => ?_, fun hvalued => ?_, fun houtput => ?_,
    fun value output hvalued houtput => ?_⟩
  · have hrun := run_execute_of_failed (run_of_fst_eq hvalued)
    exact ⟨congrArg Prod.fst hrun, (congrArg (·.2.run.values) hrun).trans hran⟩
  · have hrun := run_execute_of_skipped (run_of_fst_eq hvalued)
    exact ⟨congrArg Prod.fst hrun, (congrArg (·.2.run.values) hrun).trans hran⟩
  · cases hvalued : valued with
    | error failure =>
      exact (congrArg (·.2.run.values)
        (run_execute_of_failed (run_of_fst_eq hvalued))).trans hran
    | ok value =>
      exact (congrArg (·.2.run.values)
        (run_execute_of_no_output (run_of_fst_eq hvalued) houtput)).trans hran
  · have hrun := run_execute_of_value (run_of_fst_eq hvalued) houtput
    have hresult : result = (before.bind output value).1 := by
      rw [← hran]
      exact congrArg Prod.fst hrun
    have hafter : after = before.extend (output.written value) := by
      rw [← Namespace.bind_eq, ← hran]
      exact congrArg (·.2.run.values) hrun
    refine ⟨hafter, ?_, fun key hkey => ?_, fun failure hfails => ?_,
      fun missing hstops => ⟨?_, ?_⟩⟩
    · rw [hafter]
      exact Dict.keys_prefix_extend before _
    · rw [hafter]
      exact Dict.get?_extend_of_not_mem fun hmem =>
        hkey (OutputSpec.selects_of_written hmem)
    · by_cases hwritten : output.written value = []
      · left
        rw [hafter, hwritten, Dict.extend_nil]
      · exact Or.inr (Namespace.stopsAt_of_bind
          (hresult.symm.trans hfails) hwritten)
    · exact hresult.trans (Namespace.bind_of_stopsAt hstops before)
    · rw [hafter]
      exact Dict.extend_eq_self_iff (OutputSpec.distinct_written output value)

/-- A computation that gives back its arguments. -/
def echo : Computation := .native none fun _ args => .done (.ofMap args)

/-- A run of an empty playbook over the registry of `askingProject`, whose
action gives back its arguments. -/
def echoSession : Session :=
  { askingSession with
    world := ((Registry.ofProject (Registry.quietContext "/") askingProject).run
      (({ disk := .empty } : World).register "m" echo)).2 }

theorem reached_echoSession : echoSession.Reached (Registry.quietContext "/") := by
  have hmade : ((Registry.ofProject (Registry.quietContext "/") askingProject).run
      (({ disk := .empty } : World).register "m" echo)).1 =
        .ok echoSession.run.registry := by decide +kernel
  exact .fresh (Registry.free_ofProject (run_of_fst_eq hmade))

/-- A step that fails to bind its value has bound a name all the same. -/
theorem bound_before_missing :
    let ctx := Registry.quietContext "/"
    let step : Step :=
      { actionOn "alg" "go" [("a", .bool true)] with output := some (.names ["a", "b"]) }
    echoSession.Reached ctx ∧ echoSession.run.values = [] ∧
      ∃ s', (step.execute ctx).run echoSession =
        (.error (Cause.outputBinding (.noKey "b")), s') ∧
        s'.run.values.keys = ["a"] := by
  intro ctx step
  obtain ⟨failure, s', hrun, hcheck⟩ :=
    exists_of_check ((step.execute ctx).run echoSession)
      (fun failure s' => failure = Cause.outputBinding (.noKey "b") ∧
        s'.run.values.keys = ["a"]) (by decide +kernel)
  obtain ⟨rfl, hkeys⟩ := of_decide_eq_true hcheck
  exact ⟨reached_echoSession, rfl, s', hrun, hkeys⟩

end Step

end Playbook
