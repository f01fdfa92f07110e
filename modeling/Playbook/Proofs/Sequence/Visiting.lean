import Playbook.Proofs.Sequence.Gathering

/-!
# Playbook — changes of runners as visits to their leaves

A change of a runner (a working directory, a reload) goes from leaf to leaf and
stops at the first that fails. If it does not stop, what it has made is what a
visit to all leaves makes (`visit`), in which a failure is a failure of the
whole. What a working directory makes of a runner does not depend on the disk:
all leaves without one of their own adopt it (`placed`).

Main results:

* `settle_changeLeaves` — a change that ends well is a visit to all leaves, and
  one that fails is a visit that fails.
* `each_changeLeaves` — what the change of a leaf keeps, a change keeps,
  wherever it stops.
* `settle_setWorkdir`, `visit_placed` — giving a working directory to a runner
  depends only on what the runner is in it.
* `eq_placed_of_setWorkdir` — where it can be created, the leaves have adopted it.
-/

namespace Playbook

open Effect

namespace Runner

/-! ## Changes that end well -/

section

variable {σ α : Type}

/-- How a change ended: what it made, or its failure. -/
def settle (ended : (α × Option Failure) × σ) : Except Failure α × σ :=
  match ended with
  | ((a, none), s) => (.ok a, s)
  | ((_, some failure), s) => (.error failure, s)

theorem settle_eq_ok {ended : (α × Option Failure) × σ} {a : α} {s : σ} :
    settle ended = (.ok a, s) ↔ ended = ((a, none), s) := by
  obtain ⟨⟨b, _ | failure⟩, t⟩ := ended
  · constructor <;> rintro ⟨⟩ <;> rfl
  · exact iff_of_false (fun h => by cases h) fun h => by cases h

theorem isOk_settle (ended : (α × Option Failure) × σ) :
    (settle ended).1.isOk = true ↔ ended.1.2 = none := by
  obtain ⟨⟨b, _ | failure⟩, t⟩ := ended
  · exact iff_of_true rfl rfl
  · exact iff_of_false (fun h => by cases h) fun h => by cases h

theorem same_of_settle {p q : (α × Option Failure) × σ}
    (h : settle p = settle q) : p.1.2 = q.1.2 ∧ p.2 = q.2 := by
  obtain ⟨⟨a, _ | e⟩, s⟩ := p <;> obtain ⟨⟨b, _ | f⟩, t⟩ :=
    q <;> cases h <;> exact ⟨rfl, rfl⟩

variable (f : Leaf → ExceptT Failure (StateM σ) Leaf) (gather : Bool)

mutual
/-- Visits all leaves one after the other and puts what they
give in their places. -/
def visit : Runner → ExceptT Failure (StateM σ) Runner
  | leaf l => leaf <$> f l
  | sequence name actions required =>
    (fun actions => sequence name actions (if gather then union actions
      else required)) <$> visitAll actions
termination_by structural r => r

def visitAll : List Runner → ExceptT Failure (StateM σ) (List Runner)
  | [] => pure []
  | r :: rs => do
    let r ← visit r
    let rs ← visitAll rs
    return r :: rs
termination_by structural rs => rs
end

variable {f} {gather} {change : Leaf → StateM σ (Leaf × Option Failure)}
  (hchange : ∀ l s, settle ((change l).run s) = (f l).run s)

include hchange

section

-- the halves of a mutual block do not count as uses of what they share
set_option linter.unusedSectionVars false

mutual
/-- Changing all leaves is visiting them, if the change of a leaf is what is
done at the visit. -/
theorem settle_changeLeaves : (r : Runner) → (s : σ) →
    settle ((changeLeaves change gather r).run s) = (visit f gather r).run s
  | .leaf l, s => by
    rw [visit, run_map, ← hchange, run_changeLeaves_leaf]
    rcases (change l).run s with ⟨⟨l', _ | failure⟩, s'⟩ <;> rfl
  | .sequence name actions required, s => by
    rw [visit, run_map, ← settle_changeAll actions s, run_changeLeaves_sequence]
    rcases (changeAll change gather actions).run s with
      ⟨⟨actions', _ | failure⟩, s'⟩ <;> cases gather <;> rfl

theorem settle_changeAll : (rs : List Runner) → (s : σ) →
    settle ((changeAll change gather rs).run s) = (visitAll f gather rs).run s
  | [], _ => rfl
  | r :: rs, s => by
    have hr := settle_changeLeaves r s
    rcases hrun : (changeLeaves change gather r).run s with ⟨⟨r', _ | failure⟩, s₁⟩
    · rw [hrun] at hr
      rw [visitAll, run_bind, ← hr, run_changeAll_of_none hrun]
      dsimp only [settle]
      rw [run_bind, ← settle_changeAll rs s₁]
      rcases (changeAll change gather rs).run s₁ with
        ⟨⟨rs', _ | failure⟩, s₂⟩ <;> rfl
    · rw [hrun] at hr
      -- the runners behind it are not visited either
      rw [visitAll, run_bind, ← hr, run_changeAll_of_some hrun]
      rfl
end

end

end

/-! ## What all leaves have -/

mutual
/-- Each leaf of the runner has the property. -/
def Each (P : Leaf → Prop) : Runner → Prop
  | leaf l => P l
  | sequence _ actions _ => AllEach P actions
termination_by structural r => r

def AllEach (P : Leaf → Prop) : List Runner → Prop
  | [] => True
  | r :: rs => Each P r ∧ AllEach P rs
termination_by structural rs => rs
end

section

-- the halves of a mutual block do not count as uses of what they share
set_option linter.unusedSectionVars false

variable {σ : Type} {change : Leaf → StateM σ (Leaf × Option Failure)}
  {P : Leaf → Prop} (hchange : ∀ l s, P l → P ((change l).run s).1.1)

include hchange

mutual
/-- A change of all leaves keeps what the change of a leaf keeps,
wherever it stops. -/
theorem each_changeLeaves (gather : Bool) : (r : Runner) → (s : σ) → Each P r →
    Each P ((changeLeaves change gather r).run s).1.1
  | .leaf l, s, h => hchange l s h
  | .sequence _ actions _, s, h => allEach_changeAll gather actions s h

theorem allEach_changeAll (gather : Bool) :
    (rs : List Runner) → (s : σ) → AllEach P rs →
    AllEach P ((changeAll change gather rs).run s).1.1
  | [], _, _ => trivial
  | r :: rs, s, ⟨hr, hrs⟩ => by
    have hr' := each_changeLeaves gather r s hr
    rcases hrun : (changeLeaves change gather r).run s with ⟨⟨r', _ | failure⟩, s₁⟩
    · rw [hrun] at hr'
      rw [run_changeAll_of_none hrun]
      exact ⟨hr', allEach_changeAll gather rs s₁ hrs⟩
    · -- the runners behind it are as they were
      rw [hrun] at hr'
      rw [run_changeAll_of_some hrun]
      exact ⟨hr', hrs⟩
end

end

end Runner

/-! ## Leaves in a working directory -/

namespace Leaf

/-- The working directory that the description of a leaf names. -/
def pinned : Leaf → Option String
  | module r => r.pinned
  | script r => r.pinned

/-- The variable that drives a batch, if the leaf is a script that has one. -/
def arrayVariable : Leaf → Option String
  | module _ => none
  | script r => r.prototype.arrayVariable

/-- The leaf in a working directory. -/
def moved (dir : String) : Leaf → Leaf
  | module r => module { r with workdir := dir }
  | script r => script { r with workdir := dir }

/-- A leaf adopts a working directory unless it has one of its own. -/
theorem adopt_eq (dir : String) (l : Leaf) :
    l.adopt dir = if l.pinned.isSome then l else l.moved dir := by
  cases l <;> rfl

theorem pinned_moved (dir : String) (l : Leaf) :
    (l.moved dir).pinned = l.pinned := by cases l <;> rfl

/-- Of the working directories that a leaf was given only the last counts. -/
theorem adopt_adopt (first dir : String) (l : Leaf) :
    (l.adopt first).adopt dir = l.adopt dir := by
  rw [adopt_eq first l]
  split
  · rfl
  · next hnone =>
    rw [adopt_eq, adopt_eq, pinned_moved, if_neg hnone, if_neg hnone]
    cases l <;> rfl

theorem arrayVariable_adopt (dir : String) (l : Leaf) :
    (l.adopt dir).arrayVariable = l.arrayVariable := by
  rw [adopt_eq]
  split
  · rfl
  · cases l <;> rfl

end Leaf

namespace Runner

/-! ## Runners in a working directory -/

mutual
/-- The runner with a working directory adopted by all leaves that have
none of their own. -/
def placed (dir : String) : Runner → Runner
  | leaf l => leaf (l.adopt dir)
  | sequence name actions required => sequence name (placedAll dir actions) required
termination_by structural r => r

def placedAll (dir : String) : List Runner → List Runner
  | [] => []
  | r :: rs => placed dir r :: placedAll dir rs
termination_by structural rs => rs
end

theorem required_placed (dir : String) (r : Runner) :
    (r.placed dir).required = r.required := by
  cases r with
  | leaf l => exact required_adopt dir l
  | sequence name actions required => rfl

theorem map_required_placedAll (dir : String) (rs : List Runner) :
    (placedAll dir rs).map required = rs.map required := by
  induction rs with
  | nil => rfl
  | cons r rs ih => exact congrArg₂ List.cons (required_placed dir r) ih

mutual
/-- What each runner in the tree requires, in its order, and the array variable
of each script, a sequence before its runners. -/
def reports : Runner → List (Dict Binding × Option String)
  | leaf l => [(l.required, l.arrayVariable)]
  | sequence _ actions required => (required, none) :: reportsAll actions
termination_by structural r => r

def reportsAll : List Runner → List (Dict Binding × Option String)
  | [] => []
  | r :: rs => reports r ++ reportsAll rs
termination_by structural rs => rs
end

mutual
theorem reports_placed (dir : String) :
    (r : Runner) → (r.placed dir).reports = r.reports
  | .leaf l => by
    show [((l.adopt dir).required, (l.adopt dir).arrayVariable)] =
      [(l.required, l.arrayVariable)]
    rw [required_adopt, Leaf.arrayVariable_adopt]
  | .sequence _ actions required =>
    congrArg ((required, none) :: ·) (reportsAll_placedAll dir actions)

theorem reportsAll_placedAll (dir : String) :
    (rs : List Runner) → reportsAll (placedAll dir rs) = reportsAll rs
  | [] => rfl
  | r :: rs => congrArg₂ (· ++ ·) (reports_placed dir r)
    (reportsAll_placedAll dir rs)
end

/-- Gives a leaf a working directory and creates it. -/
def placing (dir : String) (l : Leaf) :
    ExceptT Failure (StateM Disk) Leaf := fun disk =>
  match disk.makeDirectories (l.adopt dir).workdir with
  | (.ok (), disk) => (.ok (l.adopt dir), disk)
  | (.error kind, disk) =>
    (.error ⟨[.createWorkdir (l.adopt dir).workdir], .io kind⟩, disk)

theorem placing_adopt (dir : String) (l : Leaf) :
    placing dir (l.adopt dir) = placing dir l := by
  unfold placing
  rw [Leaf.adopt_adopt dir dir]

theorem settle_placeLeaf (dir : String) (l : Leaf) (disk : Disk) :
    settle ((placeLeaf dir l).run disk) = (placing dir l).run disk := by
  unfold placeLeaf placing
  dsimp only [StateT.run, ExceptT.run]
  rcases disk.makeDirectories (l.adopt dir).workdir with ⟨kind | _, disk'⟩ <;> rfl

theorem settle_setWorkdir (dir : String) (r : Runner) (disk : Disk) :
    settle ((r.setWorkdir dir).run disk) = (visit (placing dir) false r).run disk :=
  settle_changeLeaves (settle_placeLeaf dir) r disk

mutual
/-- Only leaves without a working directory of their own count for
one that is adopted. -/
theorem visit_placed (dir : String) : (r : Runner) →
    visit (placing dir) false (r.placed dir) = visit (placing dir) false r
  | .leaf l => congrArg (leaf <$> ·) (placing_adopt dir l)
  | .sequence _ actions _ => congrArg (_ <$> ·) (visitAll_placedAll dir actions)

theorem visitAll_placedAll (dir : String) : (rs : List Runner) →
    visitAll (placing dir) false (placedAll dir rs) =
    visitAll (placing dir) false rs
  | [] => rfl
  | r :: rs => by
    rw [placedAll, visitAll, visitAll, visit_placed dir r,
      visitAll_placedAll dir rs]
end

mutual
theorem eq_placed_of_visit (dir : String) :
    (r : Runner) → {r' : Runner} → {d d' : Disk} →
    (visit (placing dir) false r).run d = (.ok r', d') → r' = r.placed dir
  | .leaf l, _, d, _, h => by
    obtain ⟨l', hl, rfl⟩ := run_map_ok h
    unfold placing at hl
    dsimp only [ExceptT.run] at hl
    rcases hmake : d.makeDirectories (l.adopt dir).workdir with ⟨kind | _, disk⟩
    · rw [hmake] at hl
      cases hl
    · rw [hmake] at hl
      cases hl
      rfl
  | .sequence name actions required, _, _, _, h => by
    obtain ⟨actions', hactions, rfl⟩ := run_map_ok h
    rw [eq_placedAll_of_visitAll dir actions hactions]
    rfl

theorem eq_placedAll_of_visitAll (dir : String) :
    (rs : List Runner) → {rs' : List Runner} → {d d' : Disk} →
    (visitAll (placing dir) false rs).run d = (.ok rs', d') → rs' = placedAll dir rs
  | [], _, _, _, h => by
    cases h
    rfl
  | r :: rs, _, _, _, h => by
    obtain ⟨r', d₁, hr, h⟩ := run_bind_ok h
    obtain ⟨rs', d₂, hrs, h⟩ := run_bind_ok h
    cases h
    rw [eq_placed_of_visit dir r hr, eq_placedAll_of_visitAll dir rs hrs]
    rfl
end

theorem adopt_placeLeaf (first dir : String) (l : Leaf) (disk : Disk) :
    ((placeLeaf first l).run disk).1.1.adopt dir = l.adopt dir := by
  unfold placeLeaf
  dsimp only [StateT.run]
  rcases disk.makeDirectories (l.adopt first).workdir with ⟨kind | _, disk'⟩ <;>
    exact Leaf.adopt_adopt first dir l

mutual
/-- A working directory that was given before does not count, no matter at which
leaf giving it has stopped. -/
theorem placed_setWorkdir (first dir : String) : (r : Runner) → (disk : Disk) →
    ((r.setWorkdir first).run disk).1.1.placed dir = r.placed dir
  | .leaf l, disk => congrArg leaf (adopt_placeLeaf first dir l disk)
  | .sequence name actions required, disk =>
    congrArg (sequence name · required) (placedAll_changeAll first dir actions disk)

theorem placedAll_changeAll (first dir : String) :
    (rs : List Runner) → (disk : Disk) →
    placedAll dir ((changeAll (placeLeaf first) false rs).run disk).1.1 =
    placedAll dir rs
  | [], _ => rfl
  | r :: rs, disk => by
    have hr := placed_setWorkdir first dir r disk
    unfold setWorkdir at hr
    rcases hrun : (changeLeaves (placeLeaf first) false r).run disk with
      ⟨⟨r', _ | failure⟩, disk₁⟩
    · rw [hrun] at hr
      rw [run_changeAll_of_none hrun]
      exact congrArg₂ List.cons hr (placedAll_changeAll first dir rs disk₁)
    · rw [hrun] at hr
      rw [run_changeAll_of_some hrun]
      exact congrArg (· :: placedAll dir rs) hr
end

/-- Where all working directories can be created, the leaves have adopted the
one that was given. -/
theorem eq_placed_of_setWorkdir {dir : String} {r r' : Runner} {d d' : Disk}
    (h : (r.setWorkdir dir).run d = ((r', none), d')) : r' = r.placed dir := by
  have hvisit : settle ((r.setWorkdir dir).run d) = (.ok r', d') :=
    settle_eq_ok.mpr h
  rw [settle_setWorkdir] at hvisit
  exact eq_placed_of_visit dir r hvisit

end Runner

end Playbook
