import Playbook.Proofs.Script.Jobs

/-!
# Playbook — the course of a call

A call first puts paths into its arguments and renders those that its jobs
share. Then it starts its jobs: the only one, or one for each element of a
batch. If not all of them can be started, the call fails; otherwise it waits for
their sentinels and returns when these are there.

Main results:

* `ScriptRunner.run_withPaths` — the paths that a call puts among its arguments.
* `ScriptRunner.run_prepared` — what a call has established
  before it starts its jobs.
* `ScriptRunner.run_runSingle`, `ScriptRunner.run_runArray` — the two ways to go on.
* `ScriptRunner.course_of_run` — every job is told the sentinel that is waited
  for, unless the prototype of a single job declares it an output file.
-/

namespace Playbook

open Effect

namespace ScriptRunner

/-! ## Preparation -/

/-- The arguments of a call after the paths that it makes up were put in. -/
structure PathsIn (r : ScriptRunner) (args : Args) (sentinel : String)
    (named : Args) : Prop where
  others : ∀ name, r.prototype.isPath name = false →
    named.get? name = args.get? name
  paths : ∀ name, r.prototype.isPath name = true →
    ∃ path, named.get? name = some (.ofText path) ∧
    (name = Prototype.touchfile ∧ path = sentinel ∨
      ∃ n, path = Path.unique r.workdir name "npz" (Token.ofNat n))
  /-- The sentinel is among the arguments, unless it is declared an output file. -/
  sentinel : (∀ b ∈ r.prototype.fileOutputs, b.name ≠ Prototype.touchfile) →
    named.get? Prototype.touchfile = some (.ofText sentinel)

theorem pathsIn_of_nameFiles {r : ScriptRunner} {args named : Args}
    {sentinel : String}
    (hothers : ∀ name, (∀ b ∈ r.prototype.fileOutputs, b.name ≠ name) →
      named.get? name = Dict.get?
        (args.insert Prototype.touchfile (.ofText sentinel)) name)
    (hnamed : ∀ b ∈ r.prototype.fileOutputs, ∃ n,
      named.get? b.name =
      some (.ofText (Path.unique r.workdir b.name "npz" (Token.ofNat n)))) :
    PathsIn r args sentinel named := by
  have hsentinel : (∀ b ∈ r.prototype.fileOutputs, b.name ≠ Prototype.touchfile) →
      named.get? Prototype.touchfile = some (.ofText sentinel) := by
    intro hnone
    rw [hothers _ hnone, Dict.get?_insert, if_pos rfl]
  refine ⟨fun name hname => ?_, fun name hname => ?_, hsentinel⟩
  · obtain ⟨htouch, hfiles⟩ := Bool.or_eq_false_iff.mp hname
    have hnone : ∀ b ∈ r.prototype.fileOutputs, b.name ≠ name := by
      intro b hb heq
      exact absurd (List.any_eq_false.mp hfiles b hb) (by simp [heq])
    rw [hothers name hnone, Dict.get?_insert, if_neg fun heq =>
      absurd htouch (by simp [heq])]
  · by_cases hfile : ∃ b ∈ r.prototype.fileOutputs, b.name = name
    · obtain ⟨b, hb, rfl⟩ := hfile
      obtain ⟨n, hget⟩ := hnamed b hb
      exact ⟨_, hget, Or.inr ⟨n, rfl⟩⟩
    -- a path that no output file takes is that of the sentinel
    · have hnone : ∀ b ∈ r.prototype.fileOutputs, b.name ≠ name :=
        fun b hb heq => hfile ⟨b, hb, heq⟩
      have htouch : name = Prototype.touchfile := by
        rcases (Bool.or_eq_true _ _).mp hname with htouch | hany
        · exact beq_iff_eq.mp htouch
        · obtain ⟨b, hb, heq⟩ := List.any_eq_true.mp hany
          exact absurd (beq_iff_eq.mp heq) (hnone b hb)
      subst htouch
      exact ⟨sentinel, hsentinel hnone, Or.inl ⟨rfl, rfl⟩⟩

/-- If the rendering of the shared arguments fails, it fails at one of them. -/
theorem exists_of_renderShared_error {ctx : Context} {calls : Calls}
    (hcalls : calls.OfItems ctx) {bindings : Dict Binding} {args : Args}
    {w w' : World} {failure : Failure}
    (h : (renderShared calls bindings args).run w = (.error failure, w')) :
    ∃ name value b, (name, value) ∈ args ∧ bindings.get? name = some b ∧
      b.isArray = false ∧
      ∃ w₁ w₂, w.Idle w₁ ∧
      (renderValue calls b.role.exportFormat value).run w₁ =
      (.error failure, w₂) := by
  induction args generalizing w w' with
  | nil => cases h
  | cons entry rest ih =>
    obtain ⟨name, value⟩ := entry
    have hrest {w₀ : World} (hidle : w.Idle w₀)
        (h : (renderShared calls bindings rest).run w₀ = (.error failure, w')) :
        ∃ key v b, (key, v) ∈ (name, value) :: rest ∧
          bindings.get? key = some b ∧ b.isArray = false ∧
          ∃ w₁ w₂, w.Idle w₁ ∧
          (renderValue calls b.role.exportFormat v).run w₁ =
          (.error failure, w₂) := by
      obtain ⟨key, v, b, hmem, hb, harray, w₁, w₂, hthere, hrender⟩ := ih h
      exact ⟨key, v, b, List.mem_cons_of_mem _ hmem, hb, harray, w₁, w₂,
        hidle.trans hthere, hrender⟩
    rw [renderShared] at h
    split at h
    · exact hrest ⟨rfl, rfl⟩ h
    · next b hb =>
      split at h
      · exact hrest ⟨rfl, rfl⟩ h
      · next harray =>
        have hidle := World.serving_idle.renderValue
            (hcalls.along_export World.serving_idle) b.role.exportFormat value w
        rw [run_bind] at h
        rcases hrun : (renderValue calls b.role.exportFormat value).run w with
          ⟨e | text, w₁⟩
        · rw [hrun] at h
          cases h
          exact ⟨name, value, b, List.mem_cons_self .., hb,
            Bool.eq_false_iff.mpr harray, w, _, ⟨rfl, rfl⟩, hrun⟩
        · rw [hrun] at h hidle
          dsimp only at h
          rw [run_bind] at h
          rcases hmore : (renderShared calls bindings rest).run w₁ with
            ⟨e | texts, w₂⟩
          · rw [hmore] at h
            cases h
            exact hrest hidle hmore
          · rw [hmore] at h
            cases h

theorem PathsIn.contains {r : ScriptRunner} {args named : Args}
    {sentinel : String} (h : PathsIn r args sentinel named) {name : String}
    (hname : r.prototype.isPath name = true ∨ args.contains name = true) :
    named.contains name = true := by
  unfold Dict.contains
  by_cases hpath : r.prototype.isPath name = true
  · obtain ⟨path, hget, -⟩ := h.paths name hpath
    rw [hget]
    rfl
  · rw [h.others name (Bool.eq_false_iff.mpr hpath)]
    exact hname.resolve_left hpath

/-- Some variable of the prototype is neither among the arguments nor a path
that the call makes up. -/
def Lacks (r : ScriptRunner) (args : Args) : Prop :=
  ∃ name, r.prototype.bindings.contains name = true ∧
  r.prototype.isPath name = false ∧ args.contains name = false

/-- Of variables that are paths or arguments none is missing, so a check that
fails has found one that is neither. -/
theorem PathsIn.lacks_of_validate {r : ScriptRunner} {args named : Args}
    {sentinel : String} (h : PathsIn r args sentinel named) {w w' : World}
    {failure : Failure}
    (hval : (r.validate named).run w = (.error failure, w')) :
    r.Lacks args := by
  by_contra hlacks
  have hall : ∀ name, r.prototype.bindings.contains name = true →
      named.contains name = true := by
    intro name hname
    refine h.contains ?_
    by_contra hnot
    obtain ⟨hpath, hargs⟩ := not_or.mp hnot
    exact hlacks ⟨name, hname, Bool.eq_false_iff.mpr hpath,
      Bool.eq_false_iff.mpr hargs⟩
  obtain ⟨w'', hok⟩ := run_validate hall w
  rw [hval] at hok
  cases hok

/-- An argument that all jobs of a call share cannot be rendered. -/
def CannotRender (calls : Calls) (r : ScriptRunner) (args : Args) (w : World)
    (failure : Failure) : Prop :=
  ∃ sentinel named name value b w₁ w₂, PathsIn r args sentinel named ∧
    (name, value) ∈ named ∧
    r.prototype.bindings.get? name = some b ∧ b.isArray = false ∧ w.Idle w₁ ∧
    (renderValue calls b.role.exportFormat value).run w₁ = (.error failure, w₂)

/-- What a call goes on with after its preparation. -/
structure Prepared (calls : Calls) (r : ScriptRunner) (args : Args)
    (sentinel : String) (named : Args) (shared : Dict String) : Prop where
  paths : PathsIn r args sentinel named
  there : ∀ name, r.prototype.bindings.contains name = true →
    named.contains name = true
  shared : ∀ name b value, r.prototype.bindings.get? name = some b →
    b.isArray = false →
    named.get? name = some value → ∃ text,
    shared.get? name = some text ∧ Renders calls b.role.exportFormat value text

/-- Starts the jobs of a prepared call and waits for them. -/
def runJobs (ctx : Context) (calls : Calls) (r : ScriptRunner)
    (sentinel : String) (named : Args) (shared : Dict String) : Act Value :=
  match r.prototype.arrayVariable.bind r.prototype.bindings.get? with
  | none => runSingle ctx r named shared sentinel
  | some b => runArray ctx calls r b named shared

/-- What a call does once its paths are among the arguments. -/
def runNamed (ctx : Context) (calls : Calls) (r : ScriptRunner)
    (sentinel : String) (named : Args) : Act Value := do
  r.validate named
  let shared ← renderShared calls r.prototype.bindings named
  r.runJobs ctx calls sentinel named shared

/-- Puts the paths of a call among its arguments and goes on with these. -/
def withPaths (r : ScriptRunner) (args : Args)
    (rest : String → Args → Act Value) : Act Value := Act.cleaning do
  let sentinel ← Act.uniquePath r.workdir "" "ended"
  let named ← nameFiles r.workdir r.prototype.fileOutputs
    (args.insert Prototype.touchfile (.ofText sentinel))
  rest sentinel named

/-- The paths have the names that are handed out from the first on: the
sentinel's, and then one for each output file. -/
structure PathsFrom (r : ScriptRunner) (first : Nat) (sentinel : String)
    (named : Args) : Prop where
  sentinel : sentinel = Path.unique r.workdir "" "ended" (Token.ofNat first)
  outputs : ∀ b ∈ r.prototype.fileOutputs, ∃ k,
    (r.prototype.fileOutputs.map (·.name))[k]? = some b.name ∧
    named.get? b.name = some
      (.ofText (Path.unique r.workdir b.name "npz" (Token.ofNat (first + 1 + k))))

/-- A call first puts its paths among the arguments. Until then it has taken
fresh names and done nothing else. -/
theorem run_withPaths (r : ScriptRunner) (args : Args) (w : World) :
    ∃ sentinel named, PathsIn r args sentinel named ∧
      PathsFrom r w.tokens sentinel named ∧
      ∀ rest : String → Args → Act Value,
        (r.withPaths args rest).run w = (Act.cleaning (rest sentinel named)).run
        { w with tokens := w.tokens + 1 + r.prototype.fileOutputs.length } := by
  let sentinel := Path.unique r.workdir "" "ended" (Token.ofNat w.tokens)
  let given : Args := args.insert Prototype.touchfile (.ofText sentinel)
  let start : World := { w with generated := [], tokens := w.tokens + 1 }
  obtain ⟨named, hnames, hothers, hnamed⟩ :=
    run_nameFiles r.workdir r.prototype.fileOutputs given start
  have hpaths : PathsIn r args sentinel named :=
    pathsIn_of_nameFiles hothers fun b hb => (hnamed b hb).elim fun k h => ⟨_, h.2⟩
  refine ⟨sentinel, named, hpaths, ⟨rfl, hnamed⟩, fun rest => ?_⟩
  -- marking nothing to be removed commutes with taking names
  have hbody : (do
      let sentinel ← Act.uniquePath r.workdir "" "ended"
      let named ← nameFiles r.workdir r.prototype.fileOutputs
        (args.insert Prototype.touchfile (.ofText sentinel))
      rest sentinel named : Act Value).run { w with generated := [] } =
        (rest sentinel named).run
        { start with tokens := w.tokens + 1 + r.prototype.fileOutputs.length } :=
    (run_bind_of_ok (Act.run_uniquePath ..) _).trans (run_bind_of_ok hnames _)
  unfold withPaths
  rw [Act.run_cleaning, Act.run_cleaning, hbody]

/-- With its paths among the arguments a call fails in its preparation, because
a variable is missing or an argument cannot be rendered; or it goes on with its
jobs. Besides, it starts nothing. -/
theorem run_runNamed {ctx : Context} {calls : Calls}
    (hcalls : calls.OfItems ctx) {r : ScriptRunner} {args named : Args}
    {sentinel : String} (hpaths : PathsIn r args sentinel named) (w : World) :
    (∃ failure w', (r.runNamed ctx calls sentinel named).run w =
      (.error failure, w') ∧ w.Idle w' ∧
      (r.Lacks args ∨ CannotRender calls r args w failure)) ∨
    ∃ shared w₁, w.Idle w₁ ∧ Prepared calls r args sentinel named shared ∧
      (r.runNamed ctx calls sentinel named).run w =
      (r.runJobs ctx calls sentinel named shared).run w₁ := by
  have hvalidate := World.serving_idle.validate r named w
  rcases hval : (r.validate named).run w with ⟨failure | _, w₁⟩
  · rw [hval] at hvalidate
    exact Or.inl ⟨failure, w₁, run_bind_of_error hval _, hvalidate,
      Or.inl (hpaths.lacks_of_validate hval)⟩
  rw [hval] at hvalidate
  have hshares := World.serving_idle.renderShared
      (hcalls.along_export World.serving_idle) r.prototype.bindings named w₁
  rcases hsh : (renderShared calls r.prototype.bindings named).run w₁ with
    ⟨failure | shared, w₂⟩
  · rw [hsh] at hshares
    obtain ⟨name, value, b, hmem, hb, harray, w₃, w₄, hbefore, hrender⟩ :=
      exists_of_renderShared_error hcalls hsh
    have hcannot : CannotRender calls r args w failure :=
      ⟨sentinel, named, name, value, b, w₃, w₄, hpaths, hmem, hb, harray,
        hvalidate.trans hbefore, hrender⟩
    exact Or.inl ⟨failure, w₂, (run_bind_of_ok hval _).trans
      (run_bind_of_error hsh _), hvalidate.trans hshares,
      Or.inr hcannot⟩
  · rw [hsh] at hshares
    refine Or.inr ⟨shared, w₂, hvalidate.trans hshares, ⟨hpaths, ?_, ?_⟩,
      (run_bind_of_ok hval _).trans (run_bind_of_ok hsh _)⟩
    · exact fun name hname => contains_of_validate hval hname
    · intro name b value hb harray hvalue
      obtain ⟨text, w₃, w₄, htext, hrender⟩ :=
        get?_renderShared hsh hb harray hvalue
      exact ⟨text, htext, w₃, w₄, hrender⟩

/-- A call fails in its preparation, because a variable is missing or an argument
cannot be rendered; or it goes on with its jobs. Besides, it starts nothing. -/
theorem run_prepared {ctx : Context} {calls : Calls}
    (hcalls : calls.OfItems ctx) (r : ScriptRunner) (args : Args) (w : World) :
    (∃ failure w', (r.run ctx calls args).run w = (.error failure, w') ∧ w.Idle w' ∧
      (r.Lacks args ∨ CannotRender calls r args w failure)) ∨
    ∃ sentinel named shared w₁, w.Idle w₁ ∧
      Prepared calls r args sentinel named shared ∧
      ((r.run ctx calls args).run w).1 =
      ((r.runJobs ctx calls sentinel named shared).run w₁).1 ∧
      ((r.runJobs ctx calls sentinel named shared).run w₁).2.Idle
        ((r.run ctx calls args).run w).2 := by
  obtain ⟨sentinel, named, hpaths, -, hwith⟩ := run_withPaths r args w
  let start : World :=
    { w with generated := [], tokens := w.tokens + 1 + r.prototype.fileOutputs.length }
  -- what is removed at the end was not started
  have hrun : ((r.run ctx calls args).run w).1 =
      ((r.runNamed ctx calls sentinel named).run start).1 ∧
      ((r.runNamed ctx calls sentinel named).run start).2.Idle
        ((r.run ctx calls args).run w).2 := by
    have hcall : (r.run ctx calls args).run w = _ :=
      (hwith (r.runNamed ctx calls)).trans (Act.run_cleaning _ _)
    rw [hcall]
    exact ⟨rfl, rfl, rfl⟩
  obtain ⟨hresult, hend⟩ := hrun
  have hstart : w.Idle start := ⟨rfl, rfl⟩
  rcases run_runNamed hcalls hpaths start with
    ⟨failure, w', hfail, hidle, hwhy⟩ | ⟨shared, w₁, hidle, hprepared, hnamed⟩
  · rw [hfail] at hresult hend
    refine Or.inl ⟨failure, _, run_of_fst_eq hresult,
      hstart.trans (hidle.trans hend), hwhy.imp_right ?_⟩
    rintro ⟨sentinel', named', name, value, b, w₁, w₂, hpaths', hmem, hb,
      harray, hbefore, hrender⟩
    exact ⟨sentinel', named', name, value, b, w₁, w₂, hpaths', hmem, hb, harray,
      hstart.trans hbefore, hrender⟩
  · rw [hnamed] at hresult hend
    exact Or.inr ⟨sentinel, named, shared, w₁, hstart.trans hidle, hprepared,
      hresult, hend⟩

/-! ## Jobs -/

/-- The result of a call whose wait has ended. -/
def afterWait (waited : Except Failure Unit) (outputs : Args) :
    Except Failure Value :=
  waited.map fun _ => .ofMap outputs

section

variable {ctx : Context} {calls : Calls} {r : ScriptRunner}
  (hr : r.prototype.Accepted) {args : Args} {sentinel : String} {named : Args}
  {shared : Dict String}
  (hprepared : Prepared calls r args sentinel named shared)

include hr hprepared

/-- Every variable but the driving one has a text that all jobs share. -/
theorem isSome_shared {name : String}
    (hname : r.prototype.bindings.contains name = true)
    (hvariable : r.prototype.arrayVariable ≠ some name) :
    (shared.get? name).isSome = true := by
  obtain ⟨b, hb⟩ := Option.isSome_iff_exists.mp hname
  obtain ⟨value, hvalue⟩ := Option.isSome_iff_exists.mp (hprepared.there name hname)
  obtain ⟨text, htext, -⟩ :=
    hprepared.shared name b value hb (hr.isArray_eq_false hb hvariable) hvalue
  rw [htext]
  rfl

/-- Without a variable that drives a batch, all texts are shared. -/
theorem render_shared (hsingle : r.prototype.arrayVariable = none) :
    r.prototype.render shared = r.prototype.filled fun name =>
  (shared.get? name).getD "" := by
  refine Prototype.render_eq_filled hr fun name hname => ?_
  have hvariable : r.prototype.arrayVariable ≠ some name := by
    rw [hsingle]
    exact (Option.some_ne_none _).symm
  obtain ⟨text, htext⟩ :=
    Option.isSome_iff_exists.mp (isSome_shared hr hprepared hname hvariable)
  rw [htext]
  rfl

/-- The only job of a call is started and waited for, or it is not started. -/
theorem run_runSingle (hsingle : r.prototype.arrayVariable = none) (w : World) :
    (∃ failure w', (r.runSingle ctx named shared sentinel).run w =
      (.error failure, w') ∧ w.Idle w') ∨
      ∃ w₁ waited w', Starts ctx r
        [⟨fun name => (shared.get? name).getD "", sentinel⟩] w w₁ ∧
        (Sentinel.waitAll ctx [sentinel]).run w₁ = (waited, w') ∧
        (r.runSingle ctx named shared sentinel).run w = (afterWait waited
          (r.prototype.outputs.filterMap fun b =>
            (named.get? b.name).map fun value => (b.name, value)), w') := by
  let finish : Act Value := do
    Sentinel.waitAll ctx [sentinel]
    return .ofMap (r.prototype.outputs.filterMap fun b =>
      (named.get? b.name).map fun value => (b.name, value))
  rcases run_starting ctx ⟨fun name => (shared.get? name).getD "", sentinel⟩
    (render_shared hr hprepared hsingle)
      (x := r.runSingle ctx named shared sentinel) (w := w) rfl with
    ⟨failure, w', hfail, hidle, -⟩ | ⟨_, kind, w', hnot, hidle, -⟩ |
    ⟨⟨job, outcome⟩, w', hstarted, hstarts⟩
  · exact Or.inl ⟨failure, w', hfail, hidle⟩
  · exact Or.inl ⟨_, w', hnot, hidle⟩
  -- what is printed and noted before the wait starts nothing
  · let printed := ((Act.print outcome.output).run w').2
    let noted := ((Act.note (.awaited job)).run printed).2
    have hnoted : w'.Idle noted :=
      (World.serving_idle.print _ w').trans
        (World.serving_idle.note (.awaited job) rfl rfl printed)
    have hwait : ∃ w₁, w'.Idle w₁ ∧
        (r.runSingle ctx named shared sentinel).run w = finish.run w₁ := by
      have hnext : (r.runSingle ctx named shared sentinel).run w =
          (if outcome.status.isSuccess then finish else do
            Act.warn "script exited unsuccessfully"
              [r.runnerField, ⟨"status", outcome.status.text, false⟩]
            finish : Act Value).run noted := hstarted
      by_cases hsuccess : outcome.status.isSuccess = true
      · exact ⟨noted, hnoted, by rw [hnext, if_pos hsuccess]⟩
      · rw [if_neg hsuccess] at hnext
        exact ⟨_, hnoted.trans (World.serving_idle.warn _ _ noted), hnext⟩
    obtain ⟨w₁, hidle, hfinish⟩ := hwait
    rcases hwaited : (Sentinel.waitAll ctx [sentinel]).run w₁ with ⟨waited, w₂⟩
    refine Or.inr ⟨w₁, waited, w₂, hstarts.before hidle, hwaited, hfinish.trans ?_⟩
    rw [run_bind, hwaited]
    cases waited <;> rfl

/-- The values that a batch returns: for each output the list of its
values by element. -/
def outputsOf (r : ScriptRunner) (variableName : String) (args : Args)
    (values : List Value) : Args :=
  r.prototype.outputs.map fun c =>
    (c.name, .ofList (values.zipIdx.map fun (x, i) =>
      r.elementValue variableName args i x c.name))

omit hr hprepared in
/-- What is read from the arguments of the started jobs are the
values of the elements. -/
theorem batchOutputs_eq {v : String} {values : List Value}
    {elements : List Element}
    (h : elements.map (·.args) = values.zipIdx.map fun (x, i) =>
      r.elementArgs v named i x) :
    r.batchOutputs elements = r.outputsOf v named values := by
  unfold batchOutputs outputsOf
  refine List.map_congr_left fun c _ => ?_
  have hvalues : elements.map (fun element =>
      (element.args.get? c.name).getD .null) =
      (elements.map (·.args)).map fun args => (args.get? c.name).getD .null := by
    rw [List.map_map]
    rfl
  rw [hvalues, h, List.map_map]
  refine congrArg (fun list => (c.name, Value.ofList list))
    (List.map_congr_left fun entry _ => ?_)
  exact getD_elementArgs r v named entry.2 entry.1 c.name

/-- The jobs of a batch are started in the order of its elements and waited for,
or not all of them are started. -/
theorem run_runArray (hcalls : calls.OfItems ctx) {v : String} {b : Binding}
    (hv : r.prototype.arrayVariable = some v)
    (hb : r.prototype.bindings.get? v = some b) {values : List Value}
    (hvalues : (named.get? v).bind Value.sequence? = some values) (w : World) :
    (∃ failure owns value w₁ w', (r.runArray ctx calls b named shared).run w =
      (.error failure, w') ∧
      values[owns.length]? = some value ∧
      List.Forall₂ (Renders calls b.role.exportFormat)
        (values.take owns.length) owns ∧
      Starts ctx r (r.batchJobs v named shared 0 owns) w w₁ ∧
      Hindered ctx calls r b.role.exportFormat value w₁ failure ∧ w₁.Idle w') ∨
    ∃ owns w₁ waited w₂ w', List.Forall₂
      (Renders calls b.role.exportFormat) values owns ∧
      Starts ctx r (r.batchJobs v named shared 0 owns) w w₁ ∧
      (Sentinel.waitAll ctx ((r.batchJobs v named shared 0 owns).map
        (·.sentinel))).run w₁ = (waited, w₂) ∧
      w₂.Idle w' ∧
      (r.runArray ctx calls b named shared).run w =
      (afterWait waited (r.outputsOf v named values), w') := by
  have hname : b.name = v := hr.name_eq hb
  have hshared : ∀ name, r.prototype.bindings.contains name = true →
      name ≠ b.name → r.prototype.isPath name = false →
      (shared.get? name).isSome := by
    intro name hbound hne _
    refine isSome_shared hr hprepared hbound ?_
    rw [hv, ← hname]
    exact fun heq => hne (Option.some.inj heq).symm
  obtain ⟨elements, failure?, owns, w₁, hlaunch, hstarts, howns,
      hsentinels, hend⟩ :=
    run_launchAll hcalls hr named hshared 0 values w
  rw [hname] at hstarts hsentinels
  have hlist : (named.get? b.name).bind Value.sequence? = some values := by
    rw [hname, hvalues]
  cases failure? with
  | some failure =>
    obtain ⟨w', hreap, hidle⟩ := run_reap r true elements w₁
    obtain ⟨value, w₂, hvalue, hhindered, hbefore, hstopped⟩ := hend
    rw [hname] at hbefore
    refine Or.inl ⟨failure, owns, value, w₂, w', ?_, hvalue, howns, hbefore,
      hhindered, hstopped.trans hidle⟩
    unfold runArray
    rw [hlist]
    exact (run_bind_of_ok hlaunch _).trans (run_bind_of_ok hreap _)
  | none =>
    obtain ⟨hlength, hargs⟩ := hend
    rw [hlength, List.take_length] at howns
    rcases hwaited : (Sentinel.waitAll ctx (elements.map (·.sentinel))).run
      w₁ with ⟨waited, w₂⟩
    have hattempt := Act.run_attempt_of hwaited
    rw [hsentinels] at hwaited
    have houtputs : r.batchOutputs elements = r.outputsOf v named values := by
      rw [← hname]
      exact batchOutputs_eq hargs
    cases waited with
    | error failure =>
      obtain ⟨w', hreap, hidle⟩ := run_reap r true elements w₂
      refine Or.inr ⟨owns, w₁, _, w₂, w', howns, hstarts, hwaited, hidle, ?_⟩
      unfold runArray
      rw [hlist]
      exact (run_bind_of_ok hlaunch _).trans
        ((run_bind_of_ok hattempt _).trans (run_bind_of_ok hreap _))
    | ok done =>
      obtain ⟨w', hreap, hidle⟩ := run_reap r false elements w₂
      refine Or.inr ⟨owns, w₁, _, w₂, w', howns, hstarts, hwaited, hidle, ?_⟩
      rw [← houtputs]
      unfold runArray
      rw [hlist]
      exact (run_bind_of_ok hlaunch _).trans
        ((run_bind_of_ok hattempt _).trans (run_bind_of_ok hreap _))

end

theorem runJobs_single {ctx : Context} {calls : Calls} {r : ScriptRunner}
    (h : r.prototype.arrayVariable = none) (sentinel : String) (named : Args)
    (shared : Dict String) :
    r.runJobs ctx calls sentinel named shared =
    r.runSingle ctx named shared sentinel := by
  unfold runJobs
  rw [h]
  rfl

theorem runJobs_array {ctx : Context} {calls : Calls} {r : ScriptRunner}
    {v : String} {b : Binding} (h : r.prototype.arrayVariable = some v)
    (hb : r.prototype.bindings.get? v = some b) (sentinel : String)
    (named : Args) (shared : Dict String) :
    r.runJobs ctx calls sentinel named shared =
    r.runArray ctx calls b named shared := by
  unfold runJobs
  rw [h, Option.bind_some, hb]

/-- A batch over something that is no list fails at once. -/
theorem run_runArray_of_no_list {ctx : Context} {calls : Calls}
    {r : ScriptRunner} {b : Binding} {named : Args}
    (h : (named.get? b.name).bind Value.sequence? = none)
    (shared : Dict String) (w : World) :
    (r.runArray ctx calls b named shared).run w =
    (.error ⟨[], .arrayNotAList b.name r.name⟩, w) := by
  unfold runArray
  rw [h]
  rfl

/-- A path that the call makes up is a text, so a list is none of them. -/
theorem PathsIn.isPath_of_list {r : ScriptRunner} {args named : Args}
    {sentinel : String} (h : PathsIn r args sentinel named) {v : String}
    {values : List Value}
    (hvalues : (named.get? v).bind Value.sequence? = some values) :
    r.prototype.isPath v = false := by
  rw [Bool.eq_false_iff]
  intro hpath
  obtain ⟨path, hget, -⟩ := h.paths v hpath
  rw [hget] at hvalues
  cases hvalues

/-! ## The course -/

/-- How many jobs a call is for: one, or one for each element of its batch. -/
def jobCount (r : ScriptRunner) (args : Args) : Nat :=
  match r.prototype.arrayVariable with
  | none => 1
  | some v => (((args.get? v).bind Value.sequence?).map List.length).getD 0

/-- The course of a call that is for so many jobs. It fails without a job or
with some of them missing, or it starts all of them, waits for their sentinels,
and ends as the wait does. -/
inductive Course (ctx : Context) (r : ScriptRunner) (count : Nat)
    (jobs : List Job) (w : World) :
    Except Failure Value → World → Prop
  | abandoned {failure : Failure} {w' : World} :
      (jobs = [] ∨ jobs.length < count) → Starts ctx r jobs w w' →
      Course ctx r count jobs w (.error failure) w'
  | awaited {waited : Except Failure Unit} {outputs : Args} {w₁ w₂ w' : World} :
      jobs.length = count →
      Starts ctx r jobs w w₁ →
      (Sentinel.waitAll ctx (jobs.map (·.sentinel))).run w₁ = (waited, w₂) →
      w₂.Idle w' →
      Course ctx r count jobs w (afterWait waited outputs) w'

theorem Course.around {ctx : Context} {r : ScriptRunner} {count : Nat}
    {jobs : List Job} {w w₁ w₂ w' : World} {result : Except Failure Value}
    (hbefore : w.Idle w₁) (h : Course ctx r count jobs w₁ result w₂)
    (hafter : w₂.Idle w') : Course ctx r count jobs w result w' := by
  cases h with
  | abandoned hfew hstarts =>
    exact .abandoned hfew ((hstarts.after hbefore).before hafter)
  | awaited hall hstarts hwait hlast =>
    exact .awaited hall (hstarts.after hbefore) hwait (hlast.trans hafter)

/-- As many programs were started as there are jobs. -/
theorem Course.count {ctx : Context} {r : ScriptRunner} {count : Nat}
    {jobs : List Job} {w w' : World} {result : Except Failure Value}
    (h : Course ctx r count jobs w result w') :
    w'.jobs = w.jobs + jobs.length := by
  cases h with
  | abandoned _ hstarts =>
    obtain ⟨_, -, hjobs, -⟩ := hstarts.started
    exact hjobs
  | @awaited waited outputs w₁ w₂ w' _ hstarts hwait hlast =>
    obtain ⟨_, -, hjobs, -⟩ := hstarts.started
    have hwaiting := World.serving_idle.waitAll ctx (jobs.map (·.sentinel)) w₁
    rw [hwait] at hwaiting
    rw [hlast.jobs, hwaiting.jobs, hjobs]

theorem length_batchJobs (r : ScriptRunner) (v : String) (args : Args)
    (shared : Dict String) (index : Nat) (owns : List String) :
    (r.batchJobs v args shared index owns).length = owns.length := by
  unfold batchJobs
  rw [List.length_map, List.length_zipIdx]

/-- The job of an element is told its sentinel: that is the text with its index
for the variable of the sentinel. -/
theorem told_batchJobs {r : ScriptRunner} {v : String}
    (hv : v ≠ Prototype.touchfile) {args : Args} {shared : Dict String}
    {index : Nat} {owns : List String} {job : Job}
    (h : job ∈ r.batchJobs v args shared index owns) :
    job.textOf Prototype.touchfile = job.sentinel := by
  obtain ⟨⟨own, i⟩, -, rfl⟩ := List.mem_map.mp h
  show r.elementText v args shared i own Prototype.touchfile = _
  unfold elementText
  rw [if_neg hv.symm, if_pos r.prototype.isPath_touchfile]

/-- The only job of a call is told its sentinel, if that stands
among the arguments. -/
theorem told_single {calls : Calls} {r : ScriptRunner}
    (hr : r.prototype.Accepted) {args named : Args} {sentinel : String}
    {shared : Dict String}
    (hprepared : Prepared calls r args sentinel named shared)
    (hsingle : r.prototype.arrayVariable = none)
    (hthere : named.get? Prototype.touchfile = some (.ofText sentinel)) :
    (shared.get? Prototype.touchfile).getD "" = sentinel := by
  obtain ⟨b, hb⟩ := Option.isSome_iff_exists.mp hr.touchfile
  have hvariable : r.prototype.arrayVariable ≠ some Prototype.touchfile := by
    rw [hsingle]
    exact (Option.some_ne_none _).symm
  obtain ⟨text, htext, w, w', hrender⟩ :=
    hprepared.shared _ b _ hb (hr.isArray_eq_false hb hvariable) hthere
  -- a text is rendered as it is
  rw [run_renderValue_ofText] at hrender
  cases hrender
  rw [htext]
  rfl

section

variable {ctx : Context} {calls : Calls} {r : ScriptRunner}
  (hr : r.prototype.Accepted) {args named : Args} {sentinel : String}
  {shared : Dict String}
  (hprepared : Prepared calls r args sentinel named shared)

include hr hprepared

theorem course_of_single (hsingle : r.prototype.arrayVariable = none)
    (hdeclared : ∀ b, r.prototype.bindings.get? Prototype.touchfile = some b →
      b.role ≠ .declareFileOutput) (w : World) :
    ∃ jobs result w', (r.runSingle ctx named shared sentinel).run w = (result, w') ∧
      (∀ job ∈ jobs, job.textOf Prototype.touchfile = job.sentinel) ∧
      Course ctx r 1 jobs w result w' := by
  have hfiles : ∀ b ∈ r.prototype.fileOutputs, b.name ≠ Prototype.touchfile := by
    intro b hb hname
    obtain ⟨hvalue, hrole⟩ := List.mem_filter.mp hb
    have hget := hr.get?_of_mem hvalue
    rw [hname] at hget
    exact hdeclared b hget (beq_iff_eq.mp hrole)
  rcases run_runSingle hr hprepared hsingle w with
    ⟨failure, w', hfail, hidle⟩ | ⟨w₁, waited, w', hstarts, hwait, hdone⟩
  · exact ⟨[], _, w', hfail, fun _ h => (List.not_mem_nil h).elim,
      .abandoned (Or.inl rfl) (.none hidle)⟩
  · refine ⟨[⟨fun name => (shared.get? name).getD "", sentinel⟩], _, w', hdone,
      ?_, .awaited rfl hstarts hwait ⟨rfl, rfl⟩⟩
    intro job hjob
    rw [List.mem_singleton.mp hjob]
    exact told_single hr hprepared hsingle (hprepared.paths.sentinel hfiles)

/-- The course of a batch, whose jobs are those of the elements in the
list of the caller. -/
theorem course_of_batchJobs (hcalls : calls.OfItems ctx) {v : String}
    {b : Binding} (hv : r.prototype.arrayVariable = some v)
    (hb : r.prototype.bindings.get? v = some b) (w : World) :
    ∃ owns result w', (r.runArray ctx calls b named shared).run w = (result, w') ∧
      (owns ≠ [] → r.prototype.isPath v = false) ∧
      Course ctx r (r.jobCount args) (r.batchJobs v named shared 0 owns) w
      result w' := by
  cases hvalues : (named.get? v).bind Value.sequence? with
  | none =>
    rw [← hr.name_eq hb] at hvalues
    exact ⟨[], _, w, run_runArray_of_no_list hvalues shared w,
      fun h => absurd rfl h,
      .abandoned (Or.inl rfl) (.none ⟨rfl, rfl⟩)⟩
  | some values =>
    -- the list is the caller's, so the driving variable is not one of the paths
    have hpath := hprepared.paths.isPath_of_list hvalues
    have hcount : r.jobCount args = values.length := by
      rw [hprepared.paths.others v hpath] at hvalues
      unfold jobCount
      rw [hv]
      dsimp only
      rw [hvalues]
      rfl
    rw [hcount]
    rcases run_runArray hr hprepared hcalls hv hb hvalues w with
      ⟨failure, owns, value, w₁, w', hfail, hvalue, -, hstarts, -, hidle⟩ |
      ⟨owns, w₁, waited, w₂, w', howns, hstarts, hwait, hidle, hdone⟩
    · have hfew : (r.batchJobs v named shared 0 owns).length < values.length := by
        rw [length_batchJobs]
        exact (List.getElem?_eq_some_iff.mp hvalue).1
      exact ⟨owns, _, w', hfail, fun _ =>
        hpath, .abandoned (Or.inr hfew) (hstarts.before hidle)⟩
    · have hall : (r.batchJobs v named shared 0 owns).length = values.length := by
        rw [length_batchJobs, howns.length_eq]
      exact ⟨owns, _, w', hdone, fun _ => hpath, .awaited hall hstarts hwait hidle⟩

theorem course_of_batch (hcalls : calls.OfItems ctx) {v : String} {b : Binding}
    (hv : r.prototype.arrayVariable = some v)
    (hb : r.prototype.bindings.get? v = some b) (w : World) :
    ∃ jobs result w', (r.runArray ctx calls b named shared).run w = (result, w') ∧
      (∀ job ∈ jobs, job.textOf Prototype.touchfile = job.sentinel) ∧
      Course ctx r (r.jobCount args) jobs w result w' := by
  obtain ⟨owns, result, w', hrun, hpath, hcourse⟩ :=
    course_of_batchJobs hr hprepared hcalls hv hb w
  refine ⟨_, result, w', hrun, fun job hjob => ?_, hcourse⟩
  have hne : v ≠ Prototype.touchfile := by
    rintro rfl
    have hnone : r.prototype.isPath Prototype.touchfile = false := by
      refine hpath ?_
      rintro rfl
      exact List.not_mem_nil hjob
    rw [r.prototype.isPath_touchfile] at hnone
    cases hnone
  exact told_batchJobs hne hjob

end

/-- **Every job is told the sentinel that is waited for.** Whatever its
arguments and the world, a call of an accepted prototype has a course in which
the script of every job that is started has the sentinel of that job, for which
the call then waits, in place of each placeholder named `touchfile`. The
prototype of a single job must not declare the sentinel an output file. -/
theorem course_of_run {ctx : Context} {calls : Calls}
    (hcalls : calls.OfItems ctx) {r : ScriptRunner} {subject text : String}
    (hparse : Prototype.parse subject text = .ok r.prototype)
    (hdeclared : r.prototype.arrayVariable = none →
      ∀ b, r.prototype.bindings.get? Prototype.touchfile = some b →
      b.role ≠ .declareFileOutput) (args : Args) (w : World) :
    ∃ jobs result w', (r.run ctx calls args).run w = (result, w') ∧
      (∀ job ∈ jobs, job.textOf Prototype.touchfile = job.sentinel) ∧
      Course ctx r (r.jobCount args) jobs w result w' := by
  obtain ⟨hr, -⟩ := Prototype.accepted_of_parse hparse
  rcases run_prepared hcalls r args w with ⟨failure, w', hrun, hidle, -⟩ |
    ⟨sentinel, named, shared, w₁, hbefore, hprepared, hresult, hafter⟩
  · exact ⟨[], _, w', hrun, fun _ h => (List.not_mem_nil h).elim,
      .abandoned (Or.inl rfl) (.none hidle)⟩
  have hcourse : ∃ jobs result w',
      (r.runJobs ctx calls sentinel named shared).run w₁ = (result, w') ∧
      (∀ job ∈ jobs, job.textOf Prototype.touchfile = job.sentinel) ∧
      Course ctx r (r.jobCount args) jobs w₁ result w' := by
    cases hvariable : r.prototype.arrayVariable with
    | none =>
      have hcount : r.jobCount args = 1 := by
        unfold jobCount
        rw [hvariable]
      rw [runJobs_single hvariable, hcount]
      exact course_of_single hr hprepared hvariable (hdeclared hvariable) w₁
    | some v =>
      obtain ⟨b, hb⟩ := hr.get?_arrayVariable hvariable
      rw [runJobs_array hvariable hb]
      exact course_of_batch hr hprepared hcalls hvariable hb w₁
  obtain ⟨jobs, result, w₂, hjobs, htold, hcourse⟩ := hcourse
  rw [hjobs] at hresult hafter
  exact ⟨jobs, result, _, run_of_fst_eq hresult, htold,
    hcourse.around hbefore hafter⟩

/-! ## A sentinel that is declared an output file -/

/-- A host whose only program prints the script it is given and creates the file
that the first line asks it to touch. -/
def touching : Context where
  settings := { waitTimeout := some 0 }
  host := {
    start := fun _ l disk =>
      match l.arguments with
      | [script] => do
        let text ← disk.readText script
        let path := String.ofList
            ((text.toList.drop "touch ".length).takeWhile (· ≠ '\n'))
        return {
          status := .exited 0, output := text, disk := (disk.write path (.text "")).2 }
      | _ => .error .invalidInput
    elapsed := fun _ => 0
    horizon := 1 }

/-- A runner of a prototype. -/
def touchingRunner (prototype : Prototype) : ScriptRunner where
  name := "job"
  path := "job.proto.sh"
  shell := "sh"
  launcher := "sh"
  parallel := false
  workdir := "wd"
  pinned := none
  prototype := prototype

/-- The prototype that only touches the sentinel. -/
def touchingPrototype : Prototype where
  text := "touch \x7b\x7btouchfile\x7d\x7d\n"
  tokens := [⟨"touchfile", "touchfile", .plain, false⟩]
  bindings := [("touchfile", ⟨"touchfile", "touchfile", .plain, false⟩)]
  arrayVariable := none

/-- The same, with the sentinel declared an output file. -/
def declaringPrototype : Prototype where
  text := "touch \x7b\x7btouchfile:declare_file_output\x7d\x7d\n"
  tokens :=
    [⟨"touchfile:declare_file_output", "touchfile", .declareFileOutput, false⟩]
  bindings :=
    [("touchfile", ⟨"touchfile:declare_file_output", "touchfile",
      .declareFileOutput, false⟩)]
  arrayVariable := none

/-- The job of a prototype that only touches the sentinel is told it, and the
call returns. -/
theorem touched_sentinel :
    let r := touchingRunner touchingPrototype
    ∃ jobs result w', (r.run touching (Calls.all touching) []).run
      { disk := .empty } = (result, w') ∧
      (∀ job ∈ jobs, job.textOf Prototype.touchfile = job.sentinel) ∧
      Course touching r 1 jobs { disk := .empty } result w' ∧
      result.isOk = true := by
  intro r
  have hparse : Prototype.parse "job.proto.sh" touchingPrototype.text =
      .ok r.prototype := by decide +kernel
  have hdeclared : r.prototype.arrayVariable = none →
      ∀ b, r.prototype.bindings.get? Prototype.touchfile = some b →
      b.role ≠ .declareFileOutput := by
    intro _ b hb
    have hplain : r.prototype.bindings.get? Prototype.touchfile =
        some ⟨"touchfile", "touchfile", .plain, false⟩ := rfl
    rw [hplain] at hb
    cases hb
    decide
  obtain ⟨jobs, result, w', hrun, htold, hcourse⟩ :=
    course_of_run (Calls.ofItems_all touching) hparse
    hdeclared [] { disk := .empty }
  have hok : ((r.run touching (Calls.all touching) []).run
      { disk := .empty }).1.isOk = true := by decide +kernel
  rw [hrun] at hok
  exact ⟨jobs, result, w', hrun, htold, hcourse, hok⟩

/-- A single job whose prototype declares the sentinel an output file is given
the path of an output file, while the call waits for another one. -/
theorem untold_sentinel :
    let r := touchingRunner declaringPrototype
    let called := (r.run touching (Calls.all touching) []).run { disk := .empty }
    Prototype.parse "job.proto.sh" declaringPrototype.text = .ok r.prototype ∧
      called.2.printed =
      "touch wd/touchfile.00000000000000000000000000000001.npz\n" ∧
      called.1 = .error ⟨[], .waitTimeout 0
        ["wd/00000000000000000000000000000000.ended"]⟩ := by
  intro r called
  refine ⟨by decide +kernel, ?_⟩
  -- one evaluation of the call shows both what the job printed and
  -- how the call failed
  obtain ⟨failure, w, hcalled, hcheck⟩ := exists_of_check called
    (fun failure w => w.printed =
      "touch wd/touchfile.00000000000000000000000000000001.npz\n" ∧
      failure = ⟨[], .waitTimeout 0
        ["wd/00000000000000000000000000000000.ended"]⟩) (by decide +kernel)
  obtain ⟨hprinted, hfailure⟩ := of_decide_eq_true hcheck
  rw [hcalled]
  exact ⟨hprinted, congrArg Except.error hfailure⟩

end ScriptRunner

end Playbook
