import Playbook.Proofs.Sequence.Gathering

/-!
# Playbook — what a sequence depends on

The runners of a sequence see nothing of the pool but what they require, so a
sequence that requires what its runners require depends on nothing else: two
calls that agree on these arguments go the same way, and whatever no runner has
returned passes through. A sequence that misses a variable of one of its runners
can be told from one that does not.

What is observed of a call of a sequence is its `Runner.Trail`: the calls of its
runners, what they return, and how it ends. What leaves do is arbitrary.

Main results:

* `Runner.run_sequence_eq` — a trail says how the sequence ends.
* `Runner.trail_congr` — pools that agree on what the runners
  require have one trail.
* `Runner.dependsOnRequired_iff` — which sequences depend on nothing
  but what they require.
* `Runner.depends_on_more` — a sequence that a failed reload has
  left depends on more.
-/

namespace Playbook.Runner

open Effect

section

variable {ε σ : Type} (leaf : Leaf → Args → ExceptT ε (StateM σ) Value)

/-! ## Trails -/

/-- What can be observed while runners are run one after the other. -/
structure Trail (ε σ : Type) where
  /-- The runners that are called, with their arguments. -/
  called : List (Runner × Args)
  /-- What those that did not fail have returned. -/
  returned : List Value
  failure : Option ε
  /-- The world in the end. -/
  world : σ

/-- The trail of runners on a pool. -/
def trail : List Runner → Args → σ → Trail ε σ
  | [], _, w => ⟨[], [], none, w⟩
  | r :: rs, pool, w =>
    let args := project r.required pool
    match (run leaf r args).run w with
    | (.error e, w) => ⟨[(r, args)], [], some e, w⟩
    | (.ok returned, w) =>
      let rest := trail rs (feed pool returned) w
      { rest with
        called := (r, args) :: rest.called
        returned := returned :: rest.returned }

/-- How a run with a trail ends: with its failure, or with what was returned
written into the pool. -/
def Trail.result (t : Trail ε σ) (pool : Args) : Except ε Args :=
  match t.failure with
  | some e => .error e
  | none => .ok (pool.extend (t.returned.flatMap Value.entries))

theorem run_runActions_eq (actions : List Runner) (pool : Args) (w : σ) :
    (runActions leaf actions pool).run w =
      ((trail leaf actions pool w).result pool,
        (trail leaf actions pool w).world) := by
  induction actions generalizing pool w with
  | nil => rfl
  | cons r rs ih =>
    rw [runActions, run_bind, trail]
    rcases (run leaf r (project r.required pool)).run w with ⟨e | returned, w₁⟩
    · rfl
    · dsimp only
      rw [ih, Trail.result, Trail.result]
      dsimp only
      rw [feed_eq_extend, List.flatMap_cons, Dict.extend_append]

/-- A sequence ends as its trail says. -/
theorem run_sequence_eq (name : String) (actions : List Runner)
    (required : Dict Binding) (args : Args) (w : σ) :
    (run leaf (sequence name actions required) args).run w =
      (((trail leaf actions args w).result args).map Value.ofMap,
        (trail leaf actions args w).world) := by
  rw [run, run_map, run_runActions_eq]
  rcases (trail leaf actions args w).result args with e | pool <;> rfl

theorem exists_result_of_run {name : String} {actions : List Runner}
    {required : Dict Binding} {args : Args} {w : σ} {v : Value}
    (h : ((run leaf (sequence name actions required) args).run w).1 = .ok v) :
    ∃ pool, (trail leaf actions args w).result args = .ok pool ∧
    .ofMap pool = v := by
  rw [run_sequence_eq] at h
  cases hresult : (trail leaf actions args w).result args with
  | error e =>
    rw [hresult] at h
    cases h
  | ok pool =>
    rw [hresult] at h
    exact ⟨pool, rfl, Except.ok.inj h⟩

/-- Pools that agree on what runners require have one trail. -/
theorem trail_congr {actions : List Runner} {pool pool' : Args}
    (h : ∀ r ∈ actions, ∀ key ∈ r.required.keys, pool.get? key = pool'.get? key)
    (w : σ) :
    trail leaf actions pool w = trail leaf actions pool' w := by
  induction actions generalizing pool pool' w with
  | nil => rfl
  | cons r rs ih =>
    have hargs : project r.required pool = project r.required pool' :=
      project_congr (h r (List.mem_cons_self ..))
    rw [trail, trail, hargs]
    rcases (run leaf r (project r.required pool')).run w with ⟨e | returned, w₁⟩
    · rfl
    · -- what was returned is written over both pools, and they agree on the rest
      have hfeed : ∀ s ∈ rs, ∀ key ∈ s.required.keys,
          (feed pool returned).get? key = (feed pool' returned).get? key := by
        intro s hs key hkey
        rw [feed_eq_extend, feed_eq_extend, Dict.get?_extend, Dict.get?_extend,
          h s (List.mem_cons_of_mem _ hs) key hkey]
      dsimp only
      rw [ih hfeed w₁]

/-- What was returned last under a key. -/
def Trail.last? (t : Trail ε σ) (key : String) : Option Value :=
  Dict.get? (t.returned.flatMap Value.entries).reverse key

theorem Trail.last?_eq_none {t : Trail ε σ} {key : String} :
    t.last? key = none ↔ ∀ returned ∈ t.returned, key ∉ returned.entries.keys := by
  have hkeys : key ∈ Dict.keys (t.returned.flatMap Value.entries).reverse ↔
      ∃ returned ∈ t.returned, key ∈ returned.entries.keys := by
    unfold Dict.keys
    rw [List.map_reverse, List.mem_reverse, List.map_flatMap, List.mem_flatMap]
  rw [Trail.last?, Dict.get?_eq_none, hkeys]
  simp only [not_exists, not_and]

/-- In the pool stands what was returned last, and otherwise what was there. -/
theorem Trail.get?_result {t : Trail ε σ} {args pool : Args}
    (h : t.result args = .ok pool) (key : String) :
    pool.get? key = (t.last? key).or (args.get? key) := by
  cases hfailure : t.failure with
  | some e =>
    rw [Trail.result, hfailure] at h
    cases h
  | none =>
    rw [Trail.result, hfailure] at h
    cases h
    exact Dict.get?_extend ..

/-! ## Calls that go the same way -/

/-- Two calls of a sequence in one world go the same way: the same runners
and leaves are called with the same arguments, and both calls end in the
same world, with the same failure or each with a pool. What one of the
runners has returned stands in both pools alike, and under any other key
stands what the call was given. -/
structure RunsAlike (name : String) (actions : List Runner)
    (required : Dict Binding) (args args' : Args) (w : σ) :
    Prop where
  called : (trail leaf actions args w).called = (trail leaf actions args' w).called
  leaves : calls leaf (sequence name actions required) args w =
    calls leaf (sequence name actions required) args' w
  world : ((run leaf (sequence name actions required) args).run w).2 =
    ((run leaf (sequence name actions required) args').run w).2
  failing : ∀ e, ((run leaf (sequence name actions required) args).run w).1 =
    .error e ↔
    ((run leaf (sequence name actions required) args').run w).1 = .error e
  written : ∀ {v v' : Value},
    ((run leaf (sequence name actions required) args).run w).1 = .ok v →
    ((run leaf (sequence name actions required) args').run w).1 = .ok v' →
    ∀ returned ∈ (trail leaf actions args w).returned,
    ∀ key ∈ returned.entries.keys,
      v.entries.get? key = v'.entries.get? key
  passed : ∀ {v v' : Value},
    ((run leaf (sequence name actions required) args).run w).1 = .ok v →
    ((run leaf (sequence name actions required) args').run w).1 = .ok v' →
    ∀ key, (∀ returned ∈ (trail leaf actions args w).returned,
      key ∉ returned.entries.keys) →
      v.entries.get? key = args.get? key ∧ v'.entries.get? key = args'.get? key

/-- Calls that agree on what the runners require go the same way. -/
theorem runsAlike_of_agree {name : String} {actions : List Runner}
    {required : Dict Binding} {args args' : Args}
    (h : ∀ r ∈ actions, ∀ key ∈ r.required.keys, args.get? key = args'.get? key)
    (w : σ) :
    RunsAlike leaf name actions required args args' w := by
  have htrail : trail leaf actions args w = trail leaf actions args' w :=
    trail_congr leaf h w
  have hrecord : trail (recorded leaf) actions args (w, []) =
      trail (recorded leaf) actions args' (w, []) :=
    trail_congr (recorded leaf) h (w, [])
  have hruns : ∀ {v v' : Value},
      ((run leaf (sequence name actions required) args).run w).1 = .ok v →
      ((run leaf (sequence name actions required) args').run w).1 = .ok v' → ∀ key,
      v.entries.get? key = ((trail leaf actions args w).last? key).or
        (args.get? key) ∧
      v'.entries.get? key = ((trail leaf actions args w).last? key).or
        (args'.get? key) := by
    intro v v' hv hv' key
    obtain ⟨pool, hpool, rfl⟩ := exists_result_of_run leaf hv
    obtain ⟨pool', hpool', rfl⟩ := exists_result_of_run leaf hv'
    rw [← htrail] at hpool'
    rw [Value.entries_ofMap, Value.entries_ofMap]
    exact ⟨Trail.get?_result hpool key, Trail.get?_result hpool' key⟩
  constructor
  case called => exact congrArg Trail.called htrail
  case leaves =>
    unfold calls
    rw [run_sequence_eq, run_sequence_eq, hrecord]
  case world => rw [run_sequence_eq, run_sequence_eq, htrail]
  case failing =>
    intro e
    rw [run_sequence_eq, run_sequence_eq, htrail]
    unfold Trail.result
    cases (trail leaf actions args' w).failure with
    | some e' => exact Iff.rfl
    | none => exact iff_of_false (fun h => by cases h) fun h => by cases h
  case written =>
    intro v v' hv hv' returned hreturned key hkey
    obtain ⟨hget, hget'⟩ := hruns hv hv' key
    cases hlast : (trail leaf actions args w).last? key with
    | none => exact absurd hkey (Trail.last?_eq_none.mp hlast returned hreturned)
    | some value => rw [hget, hget', hlast, Option.some_or, Option.some_or]
  case passed =>
    intro v v' hv hv' key hnone
    have hlast := Trail.last?_eq_none.mpr hnone
    obtain ⟨hget, hget'⟩ := hruns hv hv' key
    rw [hlast, Option.none_or] at hget hget'
    exact ⟨hget, hget'⟩

end

/-! ## Leaves that return nothing -/

/-- A leaf that does nothing and returns nothing. -/
def silent : Leaf → Args → ExceptT Unit (StateM Unit) Value := fun _ _ => pure .null

/-- Writing nothing, or what a runner was given, changes nothing. -/
theorem feed_silent {required : Dict Binding} {pool : Args} {v : Value}
    (h : v.entries = [] ∨ v.entries = project required pool) :
    feed pool v = pool := by
  rw [feed_eq_extend]
  rcases h with hnothing | hall
  · rw [hnothing, Dict.extend_nil]
  · rw [hall, extend_project]

mutual
/-- With such leaves, a sequence returns what it was given. -/
theorem run_silent : (r : Runner) → (args : Args) →
    ∃ v, run silent r args = pure v ∧ (v.entries = [] ∨ v.entries = args)
  | .leaf _, _ => ⟨.null, rfl, Or.inl rfl⟩
  | .sequence _ actions _, args => by
    refine ⟨.ofMap args, ?_, Or.inr (Value.entries_ofMap args)⟩
    rw [run, runActions_silent actions args, map_pure]

theorem runActions_silent : (rs : List Runner) → (pool : Args) →
    runActions silent rs pool = pure pool
  | [], _ => rfl
  | r :: rs, pool => by
    obtain ⟨v, hrun, hentries⟩ := run_silent r (project r.required pool)
    rw [runActions, hrun, pure_bind, feed_silent hentries]
    exact runActions_silent rs pool
end

/-- Every runner of a list is called, each with what it requires of the pool. -/
theorem called_silent (actions : List Runner) (pool : Args) :
    (trail silent actions pool ()).called = actions.map fun r =>
  (r, project r.required pool) := by
  induction actions generalizing pool with
  | nil => rfl
  | cons r rs ih =>
    obtain ⟨v, hrun, hentries⟩ := run_silent r (project r.required pool)
    rw [trail, hrun, run_pure]
    dsimp only
    rw [ih, feed_silent hentries]
    rfl

/-- The sequence depends on nothing but what it requires: calls that agree on
these arguments go the same way, whatever leaves do. -/
def DependsOnRequired (name : String) (actions : List Runner)
    (required : Dict Binding) : Prop :=
  ∀ (ε σ : Type) (leaf : Leaf → Args → ExceptT ε (StateM σ) Value)
    (args args' : Args) (w : σ),
    (∀ key ∈ required.keys, args.get? key = args'.get? key) →
    RunsAlike leaf name actions required args args' w

/-- **What a sequence depends on.** A sequence depends on nothing but what it
requires if and only if it requires everything that one of its runners requires. -/
theorem dependsOnRequired_iff (name : String) (actions : List Runner)
    (required : Dict Binding) :
    DependsOnRequired name actions required ↔
    ∀ r ∈ actions, ∀ key ∈ r.required.keys, key ∈ required.keys := by
  constructor
  · intro hdepends r hr key hkey
    by_contra hmissing
    -- with and without a variable that the sequence misses, its runner is given
    -- different arguments
    have hagree : ∀ k ∈ required.keys, Dict.get? [(key, Value.null)] k =
        Dict.get? [] k := by
      intro k hk
      have hne : key ≠ k := fun heq => hmissing (heq ▸ hk)
      show (if key = k then some Value.null else none) = none
      rw [if_neg hne]
    have hcalled := (hdepends Unit Unit silent [(key, .null)] [] () hagree).called
    rw [called_silent, called_silent] at hcalled
    have hgiven : project r.required [(key, Value.null)] = project r.required [] :=
      congrArg Prod.snd (List.map_inj_left.mp hcalled r hr)
    have hthere : key ∈ (project r.required [(key, Value.null)]).keys :=
      mem_keys_project.mpr ⟨hkey, List.mem_singleton_self key⟩
    rw [hgiven] at hthere
    exact List.not_mem_nil (mem_keys_project.mp hthere).2
  · intro hcovers ε σ leaf args args' w hagree
    exact runsAlike_of_agree leaf (fun r hr key hkey =>
      hagree key (hcovers r hr key hkey)) w

/-- A settled sequence depends on nothing but what it requires. -/
theorem Settled.dependsOnRequired {name : String} {actions : List Runner}
    {required : Dict Binding} (h : (sequence name actions required).Settled) :
    DependsOnRequired name actions required :=
  (dependsOnRequired_iff name actions required).mpr fun _ hr _ hkey =>
  h.mem_keys_required hr hkey

/-- The pair that a failed reload has left requires the sentinel alone, and still
its first runner tells a call without the new variable from one with it. -/
theorem depends_on_more :
    ∃ r w' actions required, (build ScriptRunner.touching pairSpec).run
      pairWorld = (.ok r, w') ∧
      ((Change.reload changedWorld).run ScriptRunner.touching r).1 =
      sequence "all" actions required ∧
      let leaf := Leaf.run ScriptRunner.touching (Calls.all ScriptRunner.touching)
      let args : Args := [("x", .ofText "1")]
      (∀ key ∈ required.keys, args.get? key = Dict.get? [] key) ∧
      ((run leaf (sequence "all" actions required) args).run
        changedWorld).1.isOk = true ∧
      ((run leaf (sequence "all" actions required) []).run changedWorld).1 =
        .error ⟨[], .missingArguments "first" ["x"]⟩ ∧
      ¬ RunsAlike leaf "all" actions required args [] changedWorld := by
  obtain ⟨r, w', hbuilt, hcheck⟩ :=
    exists_ok_of_check ((build ScriptRunner.touching pairSpec).run pairWorld)
      (fun r _ =>
        match ((Change.reload changedWorld).run ScriptRunner.touching r).1 with
        | sequence name actions required =>
          let leaf := Leaf.run ScriptRunner.touching (Calls.all ScriptRunner.touching)
          let called := fun args =>
            ((run leaf (sequence name actions required) args).run changedWorld).1
          decide (name = "all" ∧ required.keys = ["touchfile"]) &&
            (called [("x", .ofText "1")]).isOk &&
              (match called [] with
            | .error failure => failure = ⟨[], .missingArguments "first" ["x"]⟩
            | .ok _ => false)
        | _ => false) (by decide +kernel)
  split at hcheck
  · next name actions required hreload =>
    simp only [Bool.and_eq_true] at hcheck
    obtain ⟨⟨hshape, hok⟩, hfails⟩ := hcheck
    obtain ⟨rfl, hrequired⟩ := of_decide_eq_true hshape
    have hagree : ∀ key ∈ required.keys,
        Dict.get? [("x", Value.ofText "1")] key = Dict.get? [] key := by
      intro key hkey
      rw [hrequired] at hkey
      obtain rfl := List.mem_singleton.mp hkey
      rfl
    split at hfails
    · next failure hfailure =>
      obtain rfl := of_decide_eq_true hfails
      refine ⟨r, w', actions, required, hbuilt, hreload, hagree, hok, hfailure,
        fun halike => ?_⟩
      rw [(halike.failing _).mpr hfailure] at hok
      cases hok
    · cases hfails
  · cases hcheck

end Playbook.Runner
