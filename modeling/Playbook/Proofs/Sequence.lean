import Playbook.Runner.Basic
import Playbook.Proofs.Dict
import Playbook.Proofs.Effect

/-!
# Playbook — the pool of a sequence

A sequence passes to each of its runners what the runner requires of a pool of
arguments, and writes what comes back into the pool. It requires itself what its
runners require: the names in the order in which they first occur, each as it
first occurs (`Dict.firsts`).

Main results:

* `Runner.union_eq_firsts` — the variables that runners require together.
* `Runner.mem_project`, `Runner.project_congr` — a runner sees what it requires
  and nothing else.
* `Runner.feed_eq_extend`, `Value.entries_ofMap` — what a runner returns is
  written over the pool, and a sequence returns its whole pool.
* `Runner.runActions_append` — the runners of two lists are run one
  list after the other.
* `Runner.run_recorded` — keeping a record of the leaves that are called
  (`Runner.calls`) changes nothing else.
-/

namespace Playbook

/-! ## First entries -/

namespace Dict

variable {α : Type}

/-- The first entry under each key, in order. -/
def firsts : Dict α → Dict α
  | [] => []
  | entry :: rest => entry :: (firsts rest).filter (·.1 ≠ entry.1)

theorem mem_keys_firsts {d : Dict α} {key : String} :
    key ∈ (firsts d).keys ↔ key ∈ d.keys := by
  induction d with
  | nil => exact Iff.rfl
  | cons entry rest ih =>
    rw [firsts, keys_cons, keys_cons, List.mem_cons, List.mem_cons, ← ih]
    by_cases hkey : key = entry.1
    · simp [hkey]
    · have hfilter : key ∈ keys ((firsts rest).filter (·.1 ≠ entry.1)) ↔
          key ∈ (firsts rest).keys := by
        simp only [keys, List.mem_map, List.mem_filter]
        constructor
        · rintro ⟨e, ⟨he, -⟩, rfl⟩
          exact ⟨e, he, rfl⟩
        · rintro ⟨e, he, rfl⟩
          exact ⟨e, ⟨he, by simpa using hkey⟩, rfl⟩
      simp only [hkey, false_or]
      exact hfilter

theorem distinct_firsts (d : Dict α) : (firsts d).Distinct := by
  induction d with
  | nil => exact List.nodup_nil
  | cons entry rest ih =>
    refine List.nodup_cons.mpr ⟨?_, ?_⟩
    · intro hmem
      obtain ⟨e, he, heq⟩ := List.mem_map.mp hmem
      have hne := (List.mem_filter.mp he).2
      simp [heq] at hne
    · exact List.Nodup.sublist (List.filter_sublist.map _) ih

/-- The entries of a dictionary are all first ones. -/
theorem firsts_of_distinct {d : Dict α} (h : d.Distinct) : firsts d = d := by
  induction d with
  | nil => rfl
  | cons entry rest ih =>
    obtain ⟨hnew, hrest⟩ := List.nodup_cons.mp h
    rw [firsts, ih hrest, List.filter_eq_self.mpr fun e he => ?_]
    have hne : e.1 ≠ entry.1 := by
      intro heq
      have hmem : e.1 ∈ keys rest := List.mem_map_of_mem he
      rw [heq] at hmem
      exact hnew hmem
    simpa using hne

end Dict

namespace Value

/-- What a runner that returns the value writes into the pool. -/
def entries (v : Value) : Dict Value := v.mapping?.getD []

/-- Entries that are all plain data are the plain entries, wrapped. -/
theorem mapValues_plainEntries {d : Dict Value} {plain : List (String × Json)}
    (h : plainEntries? d = some plain) :
    Dict.mapValues json plain = d := by
  induction d generalizing plain with
  | nil =>
    cases h
    rfl
  | cons entry rest ih =>
    obtain ⟨key, value⟩ := entry
    unfold plainEntries? at h
    rw [List.mapM_cons] at h
    -- the first entry is plain data, and so are the others
    obtain ⟨first, hfirst, hothers⟩ := Option.bind_eq_some_iff.mp h
    obtain ⟨fields, hfields, heq⟩ := Option.bind_eq_some_iff.mp hothers
    cases heq
    cases value with
    | json j =>
      cases hfirst
      exact congrArg ((key, json j) :: ·) (ih hfields)
    | item i => cases hfirst
    | list l => cases hfirst
    | map m => cases hfirst

/-- A mapping gives back the entries it was made of, in whichever form it is. -/
theorem mapping?_ofMap (d : Dict Value) : (ofMap d).mapping? = some d := by
  unfold ofMap
  cases hplain : plainEntries? d with
  | none => rfl
  | some plain => exact congrArg some (mapValues_plainEntries hplain)

@[simp] theorem entries_ofMap (d : Dict Value) : (ofMap d).entries = d := by
  unfold entries
  rw [mapping?_ofMap]
  rfl

end Value

namespace Runner

/-! ## Requirements -/

theorem addRequired_cons (found : Dict Binding) (entry : String × Binding)
    (more : Dict Binding) :
    addRequired found (entry :: more) =
      addRequired (if found.contains entry.1 then found
        else found.insert entry.1 entry.2) more := rfl

theorem addRequired_append (found more later : Dict Binding) :
    addRequired found (more ++ later) = addRequired (addRequired found more)
      later := List.foldl_append

/-- Of the variables that are added, those that are new come after the others,
each as it first occurs. -/
theorem addRequired_eq (found more : Dict Binding) :
    addRequired found more = found ++ (Dict.firsts more).filter
      (·.1 ∉ found.keys) := by
  induction more generalizing found with
  | nil => simp [addRequired, Dict.firsts]
  | cons entry rest ih =>
    rw [addRequired_cons, Dict.firsts]
    by_cases hthere : entry.1 ∈ found.keys
    · rw [if_pos (Dict.contains_eq_true.mpr hthere), ih,
        List.filter_cons_of_neg (by simpa using hthere),
        List.filter_filter]
      congr 1
      refine List.filter_congr fun e _ => ?_
      by_cases he : e.1 = entry.1
      · simp [he, hthere]
      · simp [he]
    · rw [if_neg (by simpa [Dict.contains_eq_true] using hthere), ih,
        Dict.insert_of_not_mem hthere,
        List.filter_cons_of_pos (by simpa using hthere), List.filter_filter,
        List.append_assoc]
      have hnew : ∀ e ∈ Dict.firsts rest,
          decide (e.1 ∉ Dict.keys (found ++ [(entry.1, entry.2)])) =
          (decide (e.1 ∉ found.keys) && decide (e.1 ≠ entry.1)) :=
            fun e _ => by simp [not_or]
      rw [List.filter_congr hnew]
      rfl

theorem foldl_addRequired (found : Dict Binding) (actions : List Runner) :
    actions.foldl (fun found action => addRequired found action.required) found =
      addRequired found (actions.flatMap required) := by
  induction actions generalizing found with
  | nil => rfl
  | cons r rs ih => rw [List.foldl_cons, ih, List.flatMap_cons, addRequired_append]

/-- Runners together require the variables in the order in which they first
occur, each as it first occurs. -/
theorem union_eq_firsts (actions : List Runner) :
    union actions = Dict.firsts (actions.flatMap required) := by
  unfold union
  rw [foldl_addRequired, addRequired_eq]
  simp

theorem mem_keys_union {actions : List Runner} {key : String} :
    key ∈ (union actions).keys ↔ ∃ r ∈ actions, key ∈ r.required.keys := by
  rw [union_eq_firsts, Dict.mem_keys_firsts]
  unfold Dict.keys
  rw [List.map_flatMap, List.mem_flatMap]

theorem distinct_union (actions : List Runner) : (union actions).Distinct := by
  rw [union_eq_firsts]
  exact Dict.distinct_firsts _

/-! ## Arguments -/

theorem mem_project {required : Dict Binding} {pool : Args} {key : String}
    {value : Value} :
    (key, value) ∈ project required pool ↔
    key ∈ required.keys ∧ pool.get? key = some value := by
  unfold project
  rw [List.mem_filterMap]
  constructor
  · rintro ⟨k, hk, h⟩
    obtain ⟨v, hv, heq⟩ := Option.map_eq_some_iff.mp h
    cases heq
    exact ⟨hk, hv⟩
  · rintro ⟨hk, hv⟩
    exact ⟨key, hk, by rw [hv]; rfl⟩

/-- A runner gets what it requires of the pool as far as it is there, and
nothing else. -/
theorem mem_keys_project {required : Dict Binding} {pool : Args} {key : String} :
    key ∈ (project required pool).keys ↔ key ∈ required.keys ∧ key ∈ pool.keys := by
  constructor
  · intro h
    obtain ⟨⟨k, value⟩, hmem, rfl⟩ := List.mem_map.mp h
    obtain ⟨hkey, hvalue⟩ := mem_project.mp hmem
    exact ⟨hkey, Dict.mem_keys_of_get? hvalue⟩
  · rintro ⟨hkey, hpool⟩
    obtain ⟨value, hvalue⟩ := Dict.exists_get?_of_mem_keys hpool
    exact Dict.mem_keys_of_mem (mem_project.mpr ⟨hkey, hvalue⟩)

theorem distinct_project {required : Dict Binding} (h : required.Distinct)
    (pool : Args) :
    (project required pool).Distinct := by
  unfold project Dict.Distinct Dict.keys at *
  rw [List.map_filterMap]
  refine List.Nodup.filterMap (fun k k' name hk hk' => ?_) h
  obtain ⟨_, hv, rfl⟩ : ∃ v, pool.get? k = some v ∧ k = name := by simpa using hk
  obtain ⟨_, hv', rfl⟩ : ∃ v, pool.get? k' = some v ∧ k' = k := by simpa using hk'
  rfl

/-- Pools that agree on what a runner requires give it the same arguments. -/
theorem project_congr {required : Dict Binding} {pool pool' : Args}
    (h : ∀ key ∈ required.keys, pool.get? key = pool'.get? key) :
    project required pool = project required pool' := by
  unfold project
  exact List.filterMap_congr fun key hkey => by rw [h key hkey]

/-- Writing back what a runner was given changes nothing. -/
theorem extend_project (required : Dict Binding) (pool : Args) :
    pool.extend (project required pool) = pool :=
  Dict.extend_of_get? fun _ _ hmem => (mem_project.mp hmem).2

theorem feed_eq_extend (pool : Args) (returned : Value) :
    feed pool returned = pool.extend returned.entries := by
  unfold feed Value.entries
  cases returned.mapping? with
  | none => rfl
  | some entries => rfl

/-! ## Runs -/

section

variable {m : Type → Type} [Monad m] [LawfulMonad m] (leaf : Leaf → Args → m Value)

theorem runActions_append (xs ys : List Runner) (pool : Args) :
    runActions leaf (xs ++ ys) pool =
    runActions leaf xs pool >>= runActions leaf ys := by
  induction xs generalizing pool with
  | nil => exact (pure_bind pool _).symm
  | cons r rs ih => simp only [List.cons_append, runActions, bind_assoc, ih]

end

/-! ## Calls of leaves -/

section

variable {ε σ : Type} (leaf : Leaf → Args → ExceptT ε (StateM σ) Value)

/-- A leaf that is recorded when it is called. -/
def recorded : Leaf → Args →
    ExceptT ε (StateM (σ × List (Leaf × Args))) Value := fun l args s =>
  let (result, w) := (leaf l args).run s.1
  (result, w, s.2 ++ [(l, args)])

/-- The leaves that a run calls, with their arguments; if it fails, the last one
is the one that has failed. -/
def calls (r : Runner) (args : Args) (w : σ) :
    List (Leaf × Args) := ((run (recorded leaf) r args).run (w, [])).2.2

mutual
/-- Keeping a record changes nothing else. -/
theorem run_recorded : (r : Runner) → (args : Args) → (w : σ) →
    (record : List (Leaf × Args)) →
    ∃ more, (run (recorded leaf) r args).run (w, record) =
      (((run leaf r args).run w).1, ((run leaf r args).run w).2, record ++ more)
  | .leaf l, args, w, record => ⟨[(l, args)], rfl⟩
  | .sequence _ actions _, args, w, record => by
    obtain ⟨more, hmore⟩ := runActions_recorded actions args w record
    refine ⟨more, ?_⟩
    rw [run, run, Effect.run_map, Effect.run_map, hmore]
    rcases (runActions leaf actions args).run w with ⟨_ | _, _⟩ <;> rfl

theorem runActions_recorded : (rs : List Runner) → (pool : Args) → (w : σ) →
    (record : List (Leaf × Args)) →
    ∃ more, (runActions (recorded leaf) rs pool).run (w, record) =
      (((runActions leaf rs pool).run w).1, ((runActions leaf rs pool).run w).2,
        record ++ more)
  | [], pool, w, record => ⟨[], by rw [List.append_nil]; rfl⟩
  | r :: rs, pool, w, record => by
    obtain ⟨first, hfirst⟩ := run_recorded r (project r.required pool) w record
    rw [runActions, runActions, Effect.run_bind, Effect.run_bind, hfirst]
    rcases (run leaf r (project r.required pool)).run w with ⟨e | returned, w'⟩
    · exact ⟨first, rfl⟩
    · obtain ⟨more, hmore⟩ :=
        runActions_recorded rs (feed pool returned) w' (record ++ first)
      exact ⟨first ++ more, by rw [← List.append_assoc]; exact hmore⟩
end

end

end Runner

end Playbook
