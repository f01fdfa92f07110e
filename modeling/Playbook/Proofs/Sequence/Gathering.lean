import Mathlib.Data.List.Induction
import Playbook.Proofs.Sequence
import Playbook.Proofs.Script.Course

/-!
# Playbook — what sequences require

A sequence keeps the variables that it requires beside its runners. It gathers
them when it is built and at the end of a reload, and a working directory does
not change what a runner requires. A reload that fails, however, is given up in
the middle: the runners before the one that failed may require something else by
then, and the sequences around it have not gathered their variables anew.

Main results:

* `Runner.settled_of_build`, `Runner.settled_of_reload` — after a build, and
  after a reload that ended well whatever was before, every sequence requires
  what its runners require together.
* `Runner.givenUp_iff` — what a reload that fails leaves behind.
* `Runner.GivenUp.settled_iff` — when this does no harm.
* `Runner.settled_throughout` — through which histories every sequence requires
  what its runners require together.
* `Runner.stale_after_reload` — a reload that fails and leaves a sequence with
  too few variables.
-/

namespace Playbook.Runner

open Effect

/-! ## Settled runners -/

mutual
/-- Every sequence in the runner requires what its runners require together: the
names in the order in which they first occur, each as it first occurs. -/
def Settled : Runner → Prop
  | leaf _ => True
  | sequence _ actions required => AllSettled actions ∧
    required = Dict.firsts (actions.flatMap Runner.required)
termination_by structural r => r

def AllSettled : List Runner → Prop
  | [] => True
  | r :: rs => Settled r ∧ AllSettled rs
termination_by structural rs => rs
end

theorem allSettled_iff {rs : List Runner} :
    AllSettled rs ↔ ∀ r ∈ rs, r.Settled := by
  induction rs with
  | nil => exact iff_of_true trivial fun _ h => (List.not_mem_nil h).elim
  | cons r rs ih => rw [List.forall_mem_cons, ← ih]; rfl

/-- A sequence is settled if its runners are and it requires what they
require together. -/
theorem settled_sequence_iff {name : String} {actions : List Runner}
    {required : Dict Binding} :
    (sequence name actions required).Settled ↔
    (∀ r ∈ actions, r.Settled) ∧ required = union actions := by
  rw [union_eq_firsts, ← allSettled_iff]
  rfl

/-- The runners of a sequence. -/
def actions : Runner → List Runner
  | leaf _ => []
  | sequence _ actions _ => actions

theorem Settled.required_eq {r : Runner} (h : r.Settled)
    (hne : r.actions ≠ []) : r.required = union r.actions := by
  cases r with
  | leaf l => exact absurd rfl hne
  | sequence name actions required => exact (settled_sequence_iff.mp h).2

/-- A settled sequence requires everything that one of its runners requires. -/
theorem Settled.mem_keys_required {name : String} {actions : List Runner}
    {required : Dict Binding} (h : (sequence name actions required).Settled)
    {r : Runner} (hr : r ∈ actions) {key : String}
    (hkey : key ∈ r.required.keys) : key ∈ required.keys := by
  obtain ⟨-, hrequired⟩ := settled_sequence_iff.mp h
  rw [hrequired]
  exact mem_keys_union.mpr ⟨r, hr, hkey⟩

/-! ## Building -/

theorem settled_ofActions {actions : List Runner} (h : ∀ r ∈ actions, r.Settled)
    (name : String) :
    (ofActions name actions).Settled := settled_sequence_iff.mpr ⟨h, rfl⟩

mutual
/-- A runner that was built is settled. -/
theorem settled_of_build {ctx : Context} :
    (s : RunnerSpec) → {w w' : World} → {r : Runner} →
    (build ctx s).run w = (.ok r, w') → r.Settled
  | .module .., _, _, _, h => by
    obtain ⟨m, -, rfl⟩ := run_map_ok h
    trivial
  | .script .., _, _, _, h => by
    obtain ⟨m, -, rfl⟩ := run_map_ok h
    trivial
  | .sequence name actions, _, _, _, h => by
    obtain ⟨rs, hrs, rfl⟩ := run_map_ok (Act.run_within_ok h)
    exact settled_ofActions (settled_of_buildAll actions hrs) name

theorem settled_of_buildAll {ctx : Context} :
    (ss : List RunnerSpec) → {w w' : World} → {rs : List Runner} →
    (buildAll ctx ss).run w = (.ok rs, w') → ∀ r ∈ rs, r.Settled
  | [], _, _, _, h => by
    cases h
    exact fun _ h => (List.not_mem_nil h).elim
  | s :: ss, _, _, _, h => by
    obtain ⟨r, w₁, hr, h⟩ := run_bind_ok h
    obtain ⟨rs, w₂, hrs, h⟩ := run_bind_ok h
    cases h
    exact List.forall_mem_cons.mpr ⟨settled_of_build s hr,
      settled_of_buildAll ss hrs⟩
end

/-! ## Changes of leaves -/

section

variable {σ : Type} {change : Leaf → StateM σ (Leaf × Option Failure)}
  {gather : Bool}

theorem run_changeLeaves_leaf (l : Leaf) (s : σ) :
    (changeLeaves change gather (leaf l)).run s =
      ((leaf ((change l).run s).1.1, ((change l).run s).1.2),
        ((change l).run s).2) := rfl

theorem run_changeLeaves_sequence (name : String) (actions : List Runner)
    (required : Dict Binding) (s : σ) :
    (changeLeaves change gather (sequence name actions required)).run s =
      let changed := (changeAll change gather actions).run s
      ((sequence name changed.1.1 (if gather && changed.1.2.isNone then union
        changed.1.1 else required), changed.1.2),
        changed.2) := rfl

theorem run_changeAll_of_none {r r' : Runner} {s s₁ : σ}
    (h : (changeLeaves change gather r).run s = ((r', none), s₁))
    (rs : List Runner) :
    (changeAll change gather (r :: rs)).run s =
      let changed := (changeAll change gather rs).run s₁
      ((r' :: changed.1.1, changed.1.2), changed.2) := by
  rw [changeAll, StateT.run_bind, h]
  rfl

theorem run_changeAll_of_some {r r' : Runner} {e : Failure} {s s₁ : σ}
    (h : (changeLeaves change gather r).run s = ((r', some e), s₁))
    (rs : List Runner) :
    (changeAll change gather (r :: rs)).run s = ((r' :: rs, some e), s₁) := by
  rw [changeAll, StateT.run_bind, h]
  rfl

/-- A sequence is changed as its runners are, and gathers its variables if all
of them were changed. -/
theorem changeLeaves_sequence_cases {name : String} {actions : List Runner}
    {required : Dict Binding} {s s' : σ} {r' : Runner}
    {failure : Option Failure}
    (h : (changeLeaves change gather (sequence name actions required)).run s =
      ((r', failure), s')) :
    ∃ actions', (changeAll change gather actions).run s =
      ((actions', failure), s') ∧
      r' = sequence name actions' (if gather && failure.isNone then union
        actions' else required) := by
  rcases hrun : (changeAll change gather actions).run s with ⟨⟨actions', f⟩, s₁⟩
  rw [run_changeLeaves_sequence, hrun] at h
  cases h
  exact ⟨actions', rfl, rfl⟩

/-- Of a list of runners the first is changed, and then the others,
unless it has failed. -/
theorem changeAll_cons_cases {r : Runner} {rs rs' : List Runner} {s s' : σ}
    {failure : Option Failure}
    (h : (changeAll change gather (r :: rs)).run s = ((rs', failure), s')) :
    (∃ r' rest' s₁, (changeLeaves change gather r).run s = ((r', none), s₁) ∧
      (changeAll change gather rs).run s₁ = ((rest', failure), s') ∧
      rs' = r' :: rest') ∨
    ∃ r' e, (changeLeaves change gather r).run s = ((r', some e), s') ∧
    failure = some e ∧ rs' = r' :: rs := by
  rcases hr : (changeLeaves change gather r).run s with ⟨⟨r', _ | e⟩, s₁⟩
  · rcases hrs : (changeAll change gather rs).run s₁ with ⟨⟨rest', f⟩, s₂⟩
    rw [run_changeAll_of_none hr, hrs] at h
    cases h
    exact Or.inl ⟨r', rest', s₁, rfl, hrs, rfl⟩
  · rw [run_changeAll_of_some hr] at h
    cases h
    exact Or.inr ⟨r', e, rfl, rfl, rfl⟩

/-- A list goes on behind runners that have all been changed. -/
theorem run_changeAll_append {done done' : List Runner} {s s₁ : σ}
    (h : (changeAll change gather done).run s = ((done', none), s₁))
    (rs : List Runner) :
    (changeAll change gather (done ++ rs)).run s =
      let changed := (changeAll change gather rs).run s₁
      ((done' ++ changed.1.1, changed.1.2), changed.2) := by
  induction done generalizing s done' with
  | nil =>
    cases h
    rfl
  | cons r done ih =>
    rcases changeAll_cons_cases h with ⟨r', rest', s₂, hr, hdone, rfl⟩ |
      ⟨r', e, -, hnone, -⟩
    · rw [List.cons_append, run_changeAll_of_none hr, ih hdone]
      rfl
    · cases hnone

end

/-! ## Working directories -/

theorem union_congr {rs rs' : List Runner}
    (h : rs'.map required = rs.map required) : union rs' = union rs := by
  rw [union_eq_firsts, union_eq_firsts, List.flatMap_def, List.flatMap_def, h]

theorem required_adopt (dir : String) (l : Leaf) :
    (l.adopt dir).required = l.required := by
  cases l with
  | module r =>
    show (if r.pinned.isSome then Leaf.module r
      else .module { r with workdir := dir }).required = _
    split <;> rfl
  | script r =>
    show (if r.pinned.isSome then Leaf.script r
      else .script { r with workdir := dir }).required = _
    split <;> rfl

theorem required_placeLeaf (dir : String) (l : Leaf) (disk : Disk) :
    ((placeLeaf dir l).run disk).1.1.required = l.required := by
  unfold placeLeaf
  dsimp only [StateT.run]
  rcases disk.makeDirectories (l.adopt dir).workdir with ⟨kind | _, disk'⟩ <;>
    exact required_adopt dir l

section

variable {σ : Type} {change : Leaf → StateM σ (Leaf × Option Failure)}
  (hchange : ∀ l s, ((change l).run s).1.1.required = l.required)

include hchange

/-- Where nothing is gathered, a sequence keeps the variables that it has. -/
theorem required_changeLeaves {r r' : Runner} {failure : Option Failure}
    {s s' : σ} (h : (changeLeaves change false r).run s = ((r', failure), s')) :
    r'.required = r.required := by
  cases r with
  | leaf l =>
    rw [run_changeLeaves_leaf] at h
    cases h
    exact hchange l s
  | sequence name actions required =>
    obtain ⟨actions', -, rfl⟩ := changeLeaves_sequence_cases h
    rfl

theorem map_required_changeAll {rs rs' : List Runner} {failure : Option Failure}
    {s s' : σ} (h : (changeAll change false rs).run s = ((rs', failure), s')) :
    rs'.map required = rs.map required := by
  induction rs generalizing rs' s with
  | nil =>
    cases h
    rfl
  | cons r rs ih =>
    rcases changeAll_cons_cases h with ⟨r', rest', s₁, hr, hrs, rfl⟩ |
      ⟨r', e, hr, -, rfl⟩
    · exact congrArg₂ List.cons (required_changeLeaves hchange hr) (ih hrs)
    · exact congrArg (· :: rs.map required) (required_changeLeaves hchange hr)

section

-- the halves of a mutual block do not count as uses of what they share
set_option linter.unusedSectionVars false

mutual
/-- A settled runner stays settled where nothing is gathered, if no leaf changes
what it requires. -/
theorem settled_changeLeaves : (r : Runner) → {r' : Runner} →
    {failure : Option Failure} → {s s' : σ} → r.Settled →
    (changeLeaves change false r).run s = ((r', failure), s') → r'.Settled
  | .leaf l, _, _, s, _, _, h => by
    rw [run_changeLeaves_leaf] at h
    cases h
    trivial
  | .sequence name actions required, _, _, _, _, hr, h => by
    obtain ⟨hactions, hrequired⟩ := settled_sequence_iff.mp hr
    obtain ⟨actions', hrun, rfl⟩ := changeLeaves_sequence_cases h
    refine settled_sequence_iff.mpr ⟨settled_changeAll actions hactions hrun, ?_⟩
    show required = union actions'
    rw [hrequired, union_congr (map_required_changeAll hchange hrun)]

theorem settled_changeAll : (rs : List Runner) → {rs' : List Runner} →
    {failure : Option Failure} → {s s' : σ} →
    (∀ r ∈ rs, r.Settled) → (changeAll change false rs).run s =
    ((rs', failure), s') → ∀ r ∈ rs', r.Settled
  | [], _, _, _, _, _, h => by
    cases h
    exact fun _ h => (List.not_mem_nil h).elim
  | r :: rs, _, _, _, _, hall, h => by
    obtain ⟨hsettled, hrest⟩ := List.forall_mem_cons.mp hall
    rcases changeAll_cons_cases h with ⟨r', rest', s₁, hr, hrs, rfl⟩ |
      ⟨r', e, hr, -, rfl⟩
    · exact List.forall_mem_cons.mpr ⟨settled_changeLeaves r hsettled hr,
        settled_changeAll rs hrest hrs⟩
    · exact List.forall_mem_cons.mpr ⟨settled_changeLeaves r hsettled hr, hrest⟩
end

end

end

/-- A working directory does not change what a runner requires, also where it
cannot be created. -/
theorem settled_setWorkdir {r : Runner} (h : r.Settled) (dir : String)
    (disk : Disk) :
    ((r.setWorkdir dir).run disk).1.1.Settled :=
  settled_changeLeaves (required_placeLeaf dir) r h rfl

/-! ## Reloads -/

section

variable {σ : Type} {change : Leaf → StateM σ (Leaf × Option Failure)}

mutual
theorem settled_of_changeLeaves : (r : Runner) → {r' : Runner} → {s s' : σ} →
    (changeLeaves change true r).run s = ((r', none), s') → r'.Settled
  | .leaf l, r', s, s', h => by
    have hr' : leaf ((change l).run s).1.1 = r' := congrArg (·.1.1) h
    rw [← hr']
    trivial
  | .sequence name actions required, _, _, _, h => by
    obtain ⟨actions', hrun, rfl⟩ := changeLeaves_sequence_cases h
    exact settled_ofActions (settled_of_changeAll actions hrun) name

theorem settled_of_changeAll : (rs : List Runner) →
    {rs' : List Runner} → {s s' : σ} →
    (changeAll change true rs).run s = ((rs', none), s') → ∀ r ∈ rs', r.Settled
  | [], _, _, _, h => by
    cases h
    exact fun _ h => (List.not_mem_nil h).elim
  | r :: rs, _, _, _, h => by
    rcases changeAll_cons_cases h with ⟨r', rest', s₁, hr, hrs, rfl⟩ |
      ⟨r', e, -, hnone, -⟩
    · exact List.forall_mem_cons.mpr ⟨settled_of_changeLeaves r hr,
        settled_of_changeAll rs hrs⟩
    · cases hnone
end

end

/-- After a reload that ended well, every sequence requires what its runners
require, whatever was before. -/
theorem settled_of_reload {ctx : Context} {r r' : Runner} {w w' : World}
    (h : (r.reload ctx).run w = ((r', none), w')) :
    r'.Settled := settled_of_changeLeaves r h

/-! ### Reloads that are given up -/

/-- A leaf that cannot be reloaded stays as it is. -/
theorem eq_of_reload_leaf {ctx : Context} {l l' : Leaf} {failure : Failure}
    {w w' : World} (h : (l.reload ctx).run w = ((l', some failure), w')) :
    l' = l := by
  unfold Leaf.reload at h
  rw [StateT.run_bind] at h
  rcases hload : StateT.run (l.load ctx).run w with ⟨e | found, w₁⟩
  · rw [hload] at h
    cases h
    rfl
  · rw [hload] at h
    cases h

/-- A reload that is given up: a leaf fails, and in each sequence around it the
runners before have been reloaded, while the ones behind and the variables of
the sequence stay as they are. Listed is what the runners of these sequences,
the outer ones first, require together before and after. -/
inductive GivenUp (ctx : Context) : World → Runner → Runner →
    List (Dict Binding × Dict Binding) → Prop
  | leaf {w w' : World} {l : Leaf} {failure : Failure}
    (hleaf : (l.reload ctx).run w = ((l, some failure), w')) :
    GivenUp ctx w (leaf l) (leaf l) []
  | sequence {w w₁ : World} {name : String} {done done' : List Runner}
    {r r' : Runner} {rest : List Runner}
    {required : Dict Binding} {unions : List (Dict Binding × Dict Binding)}
    (hdone : (changeAll (Leaf.reload ctx) true done).run w =
      ((done', none), w₁)) (hr : GivenUp ctx w₁ r r' unions) :
    GivenUp ctx w (sequence name (done ++ r :: rest) required)
      (sequence name (done' ++ r' :: rest) required)
        ((union (done ++ r :: rest), union (done' ++ r' :: rest)) :: unions)

mutual
/-- A reload that fails is given up. -/
theorem exists_givenUp_of_changeLeaves {ctx : Context} :
    (r : Runner) → {r' : Runner} → {failure : Failure} →
    {w w' : World} → (changeLeaves (Leaf.reload ctx) true r).run w =
    ((r', some failure), w') →
    ∃ unions, GivenUp ctx w r r' unions
  | .leaf l, _, _, w, _, h => by
    rcases hleaf : (l.reload ctx).run w with ⟨⟨l', f⟩, w₁⟩
    rw [run_changeLeaves_leaf, hleaf] at h
    cases h
    obtain rfl := eq_of_reload_leaf hleaf
    exact ⟨[], .leaf hleaf⟩
  | .sequence name actions required, _, _, _, _, h => by
    obtain ⟨actions', hrun, rfl⟩ := changeLeaves_sequence_cases h
    obtain ⟨done, done', s, s', rest, unions, w₁, rfl, rfl, hdone, hgiven⟩ :=
      exists_givenUp_of_changeAll actions hrun
    exact ⟨_, .sequence hdone hgiven⟩

theorem exists_givenUp_of_changeAll {ctx : Context} :
    (rs : List Runner) → {rs' : List Runner} → {failure : Failure} →
    {w w' : World} → (changeAll (Leaf.reload ctx) true rs).run w =
    ((rs', some failure), w') →
    ∃ done done' r r' rest unions w₁, rs = done ++ r :: rest ∧
      rs' = done' ++ r' :: rest ∧
      (changeAll (Leaf.reload ctx) true done).run w = ((done', none), w₁) ∧
      GivenUp ctx w₁ r r' unions
  | [], _, _, _, _, h => by cases h
  | r :: rs, _, _, w, _, h => by
    rcases changeAll_cons_cases h with ⟨r', rest', w₁, hr, hrs, rfl⟩ |
      ⟨r', e, hr, -, rfl⟩
    · obtain ⟨done, done', s, s', rest, unions, w₂, rfl, rfl, hdone, hgiven⟩ :=
        exists_givenUp_of_changeAll rs hrs
      refine ⟨r :: done, r' :: done', s, s', rest, unions, w₂, rfl, rfl, ?_, hgiven⟩
      rw [run_changeAll_of_none hr, hdone]
    · obtain ⟨unions, hgiven⟩ := exists_givenUp_of_changeLeaves r hr
      exact ⟨[], [], r, r', rs, unions, w, rfl, rfl, rfl, hgiven⟩
end

/-- What a reload that fails leaves behind is what one that is given
up leaves behind. -/
theorem givenUp_iff {ctx : Context} {r r' : Runner} {w : World} :
    (∃ unions, GivenUp ctx w r r' unions) ↔
    ∃ failure w', (r.reload ctx).run w = ((r', some failure), w') := by
  constructor
  · rintro ⟨unions, h⟩
    induction h with
    | @leaf w w' l failure hleaf =>
      refine ⟨failure, w', ?_⟩
      unfold reload
      rw [run_changeLeaves_leaf, hleaf]
    | sequence hdone hr ih =>
      obtain ⟨failure, w', hrun⟩ := ih
      refine ⟨failure, w', ?_⟩
      unfold reload
      rw [run_changeLeaves_sequence, run_changeAll_append hdone,
        run_changeAll_of_some hrun]
      rfl
  · rintro ⟨failure, w', h⟩
    exact exists_givenUp_of_changeLeaves r h

/-- A settled runner whose reload was given up is settled if and only if the
runners of each sequence in which this happened require together what they
required before. -/
theorem GivenUp.settled_iff {ctx : Context} {r r' : Runner} {w : World}
    {unions : List (Dict Binding × Dict Binding)}
    (h : GivenUp ctx w r r' unions) (hr : r.Settled) :
    r'.Settled ↔ ∀ pair ∈ unions, pair.2 = pair.1 := by
  induction h with
  | leaf hleaf => exact iff_of_true trivial fun _ h => (List.not_mem_nil h).elim
  | @sequence w w₁ name done done' r r' rest required unions hdone hgiven ih =>
    obtain ⟨hall, hrequired⟩ := settled_sequence_iff.mp hr
    obtain ⟨-, hmiddle⟩ := List.forall_mem_append.mp hall
    obtain ⟨hr, hrest⟩ := List.forall_mem_cons.mp hmiddle
    have hdone' := settled_of_changeAll done hdone
    rw [settled_sequence_iff, List.forall_mem_append, List.forall_mem_cons,
      ih hr, List.forall_mem_cons, hrequired]
    constructor
    · rintro ⟨⟨-, hinner, -⟩, hunion⟩
      exact ⟨hunion.symm, hinner⟩
    · rintro ⟨hunion, hinner⟩
      exact ⟨⟨hdone', hinner, hrest⟩, hunion.symm⟩

/-! ## Histories -/

/-- What can be done to a runner, and the disk or the world that this finds. -/
inductive Change where
  | setWorkdir (dir : String) (disk : Disk)
  | reload (w : World)

/-- The runner after a change, and the failure of the change. -/
def Change.run (ctx : Context) (r : Runner) : Change → Runner × Option Failure
  | setWorkdir dir disk => ((r.setWorkdir dir).run disk).1
  | reload w => ((r.reload ctx).run w).1

/-- A reload that is given up does no harm if the runners of each sequence
around the leaf that failed require together what they required before; no other
change does any. -/
def Change.Harmless (ctx : Context) (r : Runner) : Change → Prop
  | setWorkdir .. => True
  | reload w => ∀ r' unions, GivenUp ctx w r r' unions →
    ∀ pair ∈ unions, pair.2 = pair.1

/-- A reload that ended well puts everything right. -/
theorem Change.settled_of_none {ctx : Context} {r : Runner} {w : World}
    (h : ((reload w).run ctx r).2 = none) :
    ((reload w).run ctx r).1.Settled := by
  rcases hrun : (r.reload ctx).run w with ⟨⟨r', failure⟩, w'⟩
  have hchange : (reload w).run ctx r = (r', failure) := congrArg Prod.fst hrun
  rw [hchange] at h ⊢
  obtain rfl : failure = none := h
  exact settled_of_reload hrun

/-- The harmless changes are those that keep a settled runner settled. -/
theorem Change.settled_run_iff {ctx : Context} {r : Runner} (hr : r.Settled)
    (change : Change) :
    (change.run ctx r).1.Settled ↔ change.Harmless ctx r := by
  cases change with
  | setWorkdir dir disk =>
    exact iff_of_true (settled_setWorkdir hr dir disk) trivial
  | reload w =>
    rcases hrun : (r.reload ctx).run w with ⟨⟨r', failure⟩, w'⟩
    have hchange : (reload w).run ctx r = (r', failure) := congrArg Prod.fst hrun
    -- what one that is given up leaves behind is what this one has left behind
    have hleft : ∀ r₁ unions, GivenUp ctx w r r₁ unions →
        failure.isSome ∧ r₁ = r' := by
      intro r₁ unions hgiven
      obtain ⟨e, w₁, hfails⟩ := givenUp_iff.mp ⟨unions, hgiven⟩
      rw [hrun] at hfails
      cases hfails
      exact ⟨rfl, rfl⟩
    rw [hchange]
    constructor
    · intro hr' r₁ unions hgiven
      obtain ⟨-, rfl⟩ := hleft r₁ unions hgiven
      exact (hgiven.settled_iff hr).mp hr'
    · intro hharmless
      cases failure with
      | none => exact settled_of_reload hrun
      | some e =>
        obtain ⟨unions, hgiven⟩ := givenUp_iff.mpr ⟨e, w', hrun⟩
        exact (hgiven.settled_iff hr).mpr (hharmless r' unions hgiven)

/-- The runner after changes, each of which may have failed. -/
def after (ctx : Context) (r : Runner) (changes : List Change) : Runner :=
  changes.foldl (fun r change => (change.run ctx r).1) r

theorem after_append (ctx : Context) (r : Runner) (done : List Change)
    (change : Change) :
    after ctx r (done ++ [change]) = (change.run ctx (after ctx r done)).1 :=
  List.foldl_append

/-- **Which histories keep the variables together.** Through a history of working
directories and reloads of a runner that was built, each of which may fail, in
worlds that may change in any way in between, every sequence requires what its
runners require together if and only if each reload that was given up has left the
sequences around the leaf that failed with runners that together require what they
required before. After a reload that ended well it does in any case. -/
theorem settled_throughout {ctx : Context} {spec : RunnerSpec} {r : Runner}
    {w w' : World} (hbuilt : (build ctx spec).run w = (.ok r, w'))
    (changes : List Change) :
    ((∀ done, done <+: changes → (after ctx r done).Settled) ↔
      ∀ done change, done ++ [change] <+: changes →
      change.Harmless ctx (after ctx r done)) ∧
    ∀ done w, done ++ [.reload w] <+: changes →
      ((Change.reload w).run ctx (after ctx r done)).2 = none →
      (after ctx r (done ++ [.reload w])).Settled := by
  refine ⟨⟨fun hall done change hprefix => ?_, fun hharmless done => ?_⟩,
    fun done w _ hnone => ?_⟩
  · have hbefore := hall done ((List.prefix_append done _).trans hprefix)
    have hafter := hall (done ++ [change]) hprefix
    rw [after_append] at hafter
    exact (change.settled_run_iff hbefore).mp hafter
  · -- by induction on the history from its end
    induction done using List.reverseRecOn with
    | nil => exact fun _ => settled_of_build spec hbuilt
    | append_singleton done change ih =>
      intro hprefix
      have hbefore := ih ((List.prefix_append done _).trans hprefix)
      rw [after_append]
      exact (change.settled_run_iff hbefore).mpr (hharmless done change hprefix)
  · rw [after_append]
    exact Change.settled_of_none hnone

/-! ## A sequence that misses a variable -/

/-- A computation and a script, one after the other. -/
def pairSpec : RunnerSpec :=
  .sequence "all" [.module "first" "m" none,
    .script "job" "job.proto.sh" "sh" false (some "wd")]

/-- A computation that returns its arguments. -/
def givingBack (requirements : List String) :
    Computation := .plain (some requirements) fun args => .ok (.ofMap args)

/-- A world with the prototype and a computation that requires nothing. -/
def pairWorld : World where
  disk := {
    entries := [
      (["job.proto.sh"], .file (.text "touch \x7b\x7btouchfile\x7d\x7d\n") false)] }
  catalog := [("m", ⟨0, givingBack []⟩)]
  instances := 1

/-- The world in which the prototype is gone, and the computation
requires a variable. -/
def changedWorld : World where
  disk := .empty
  catalog := [("m", ⟨1, givingBack ["x"]⟩)]
  instances := 2

/-- In the changed world, the reload gives the computation its new variable and
fails at the script. Back in the first world, it ends well. -/
theorem exists_stale_pair :
    ∃ r w', (build ScriptRunner.touching pairSpec).run pairWorld = (.ok r, w') ∧
      let stale := after ScriptRunner.touching r [.reload changedWorld]
      ((Change.reload changedWorld).run ScriptRunner.touching r).2 =
      some ⟨[], .configuration "job.proto.sh" .noPrototype⟩ ∧
      stale.required.keys = ["touchfile"] ∧
      (union stale.actions).keys = ["x", "touchfile"] ∧ ¬ stale.Settled ∧
      ((Change.reload pairWorld).run ScriptRunner.touching stale).2 = none := by
  obtain ⟨r, w', hbuilt, hcheck⟩ :=
    exists_ok_of_check ((build ScriptRunner.touching pairSpec).run pairWorld)
      (fun r _ =>
        let stale := after ScriptRunner.touching r [.reload changedWorld]
        ((Change.reload changedWorld).run ScriptRunner.touching r).2 =
          some ⟨[], .configuration "job.proto.sh" .noPrototype⟩ ∧
          stale.required.keys = ["touchfile"] ∧
          (union stale.actions).keys = ["x", "touchfile"] ∧
          ((Change.reload pairWorld).run ScriptRunner.touching stale).2 = none)
            (by decide +kernel)
  obtain ⟨hfails, hrequired, hunion, hback⟩ := of_decide_eq_true hcheck
  refine ⟨r, w', hbuilt, hfails, hrequired, hunion, fun hsettled => ?_, hback⟩
  have hactions : (after ScriptRunner.touching r
      [.reload changedWorld]).actions ≠ [] := by
    intro hnone
    rw [hnone] at hunion
    exact absurd hunion (by decide)
  rw [hsettled.required_eq hactions, hunion] at hrequired
  exact absurd hrequired (by decide)

/-- A history of the pair in which one reload does harm, and the
next puts it right. -/
theorem pair_throughout :
    ∃ r w', (build ScriptRunner.touching pairSpec).run pairWorld = (.ok r, w') ∧
      let changes := [Change.reload changedWorld, .reload pairWorld]
      (¬ ∀ done change, done ++ [change] <+: changes →
        change.Harmless ScriptRunner.touching
          (after ScriptRunner.touching r done)) ∧
      (after ScriptRunner.touching r changes).Settled := by
  obtain ⟨r, w', hbuilt, -, -, -, hstale, hback⟩ := exists_stale_pair
  obtain ⟨hwhich, hwell⟩ :=
    settled_throughout hbuilt [.reload changedWorld, .reload pairWorld]
  refine ⟨r, w', hbuilt, fun hharmless => ?_, ?_⟩
  · exact hstale (hwhich.mpr hharmless [.reload changedWorld]
      (List.prefix_append _ [Change.reload pairWorld]))
  · exact hwell [.reload changedWorld] pairWorld (List.prefix_refl _) hback

/-- After the failed reload, the pair does not require what its runners
require together. -/
theorem stale_after_reload :
    ∃ r w', (build ScriptRunner.touching pairSpec).run pairWorld = (.ok r, w') ∧
      let stale := after ScriptRunner.touching r [.reload changedWorld]
      ((Change.reload changedWorld).run ScriptRunner.touching r).2 =
      some ⟨[], .configuration "job.proto.sh" .noPrototype⟩ ∧
      stale.required.keys = ["touchfile"] ∧
      (union stale.actions).keys = ["x", "touchfile"] ∧ ¬ stale.Settled := by
  obtain ⟨r, w', hbuilt, hfails, hrequired, hunion, hstale, -⟩ := exists_stale_pair
  exact ⟨r, w', hbuilt, hfails, hrequired, hunion, hstale⟩

end Playbook.Runner
