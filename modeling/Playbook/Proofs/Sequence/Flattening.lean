import Playbook.Proofs.Sequence

/-!
# Playbook — sequences in sequences

A sequence that stands in another one works on a pool of its own: it is given
what its runners require of the outer pool, and its whole pool is written over
the outer one when it has ended. Nothing can be told from outside. Its runners
are called as if they stood in the outer sequence themselves.

What leaves do is arbitrary here; `Runner.calls` is the record of the leaves
that a run calls.

Main results:

* `Runner.runActions_extend` — runners work alike on a pool and on what was
  written over another one, as long as all that they require of both is in it.
* `Runner.runActions_nested` — running a sequence as one of the runners is
  running its runners.
* `Runner.run_flattened` — a sequence with a sequence in it does what
  the flat sequence does.
-/

namespace Playbook.Runner

/-! ## Requirements -/

/-- What a sequence requires stands for what its runners require. -/
theorem union_flatten (xs ys zs : List Runner) (inner : String) :
    union (xs ++ [ofActions inner ys] ++ zs) = union (xs ++ ys ++ zs) := by
  have hadd : ∀ found, addRequired found (union ys) =
      addRequired found (ys.flatMap required) := fun found => by
    rw [addRequired_eq, addRequired_eq,
      Dict.firsts_of_distinct (distinct_union ys), union_eq_firsts]
  unfold union
  rw [foldl_addRequired, foldl_addRequired]
  simp only [List.flatMap_append, List.flatMap_singleton, addRequired_append]
  exact congrArg (addRequired · (zs.flatMap required)) (hadd _)

/-! ## Runs -/

section

variable {m : Type → Type} [Monad m] [LawfulMonad m] (leaf : Leaf → Args → m Value)

/-- Runners work alike on a pool and on what it becomes when it is written over
another one, as long as all that they require of both is in it. -/
theorem runActions_extend {actions : List Runner} {outer pool : Args}
    (hpool : pool.Distinct)
    (hrequired : ∀ r ∈ actions, ∀ key ∈ r.required.keys, key ∈ outer.keys →
      key ∈ pool.keys) :
    runActions leaf actions (outer.extend pool) =
    outer.extend <$> runActions leaf actions pool := by
  induction actions generalizing pool with
  | nil => exact (map_pure _ _).symm
  | cons r rs ih =>
    have hproject : project r.required (outer.extend pool) =
        project r.required pool := by
      refine project_congr fun key hkey => ?_
      by_cases hthere : key ∈ pool.keys
      · exact Dict.get?_extend_of_mem hpool hthere
      · have houter : key ∉ outer.keys :=
          fun hout => hthere (hrequired r (List.mem_cons_self ..) key hkey hout)
        have hnone : key ∉ (outer.extend pool).keys :=
          fun h => (Dict.mem_keys_extend.mp h).elim houter hthere
        rw [Dict.get?_eq_none.mpr hthere, Dict.get?_eq_none.mpr hnone]
    rw [runActions, runActions, hproject, map_bind]
    congr 1
    funext returned
    -- what comes back is written over the one pool as over the other
    have hfeed : feed (outer.extend pool) returned =
        outer.extend (feed pool returned) := by
      rw [feed_eq_extend, feed_eq_extend, Dict.extend_extend hpool]
    have hdistinct : (feed pool returned).Distinct := by
      rw [feed_eq_extend]
      exact hpool.extend _
    rw [hfeed]
    refine ih hdistinct fun s hs key hkey hout => ?_
    rw [feed_eq_extend, Dict.mem_keys_extend]
    exact Or.inl (hrequired s (List.mem_cons_of_mem _ hs) key hkey hout)

/-- Running a sequence as one of the runners is running its runners. -/
theorem runActions_nested (actions : List Runner) (inner : String) (pool : Args) :
    runActions leaf [ofActions inner actions] pool =
    runActions leaf actions pool := by
  have hrequired : ∀ r ∈ actions, ∀ key ∈ r.required.keys, key ∈ pool.keys →
      key ∈ (project (union actions) pool).keys :=
    fun r hr key hkey hpool =>
      mem_keys_project.mpr ⟨mem_keys_union.mpr ⟨r, hr, hkey⟩, hpool⟩
  have hextend := runActions_extend leaf
      (distinct_project (distinct_union actions) pool) hrequired
  rw [extend_project] at hextend
  calc runActions leaf [ofActions inner actions] pool
      = (Value.ofMap <$> runActions leaf actions (project (union actions) pool)) >>=
          fun returned => pure (feed pool returned) := rfl
    _ = pool.extend <$> runActions leaf actions (project (union actions) pool) := by
      simp only [bind_pure_comp, Functor.map_map, feed_eq_extend,
        Value.entries_ofMap]
    _ = runActions leaf actions pool := hextend.symm

theorem runActions_flatten (xs ys zs : List Runner) (inner : String) (pool : Args) :
    runActions leaf (xs ++ [ofActions inner ys] ++ zs) pool =
    runActions leaf (xs ++ ys ++ zs) pool := by
  have hinner : runActions leaf [ofActions inner ys] = runActions leaf ys :=
    funext (runActions_nested leaf ys inner)
  simp only [runActions_append, hinner]

theorem run_flatten (xs ys zs : List Runner) (name inner : String) (args : Args) :
    run leaf (ofActions name (xs ++ [ofActions inner ys] ++ zs)) args =
    run leaf (ofActions name (xs ++ ys ++ zs)) args :=
  congrArg (Value.ofMap <$> ·) (runActions_flatten leaf xs ys zs inner args)

end

section

variable {ε σ : Type} (leaf : Leaf → Args → ExceptT ε (StateM σ) Value)

/-- **A sequence in a sequence is transparent.** Whatever leaves do, a sequence
with another one among its runners requires what the sequence with the runners
of the inner one in its place requires, calls the same leaves with the same
arguments, and ends with the same result or failure in the same world. -/
theorem run_flattened (xs ys zs : List Runner) (name inner : String) :
    (ofActions name (xs ++ [ofActions inner ys] ++ zs)).required =
      (ofActions name (xs ++ ys ++ zs)).required ∧
      ∀ (args : Args) (w : σ),
        calls leaf (ofActions name (xs ++ [ofActions inner ys] ++ zs)) args w =
          calls leaf (ofActions name (xs ++ ys ++ zs)) args w ∧
        (run leaf (ofActions name (xs ++ [ofActions inner ys] ++ zs)) args).run w =
          (run leaf (ofActions name (xs ++ ys ++ zs)) args).run w := by
  refine ⟨union_flatten xs ys zs inner, fun args w => ⟨?_, ?_⟩⟩
  · unfold calls
    rw [run_flatten]
  · rw [run_flatten]

end

end Playbook.Runner
