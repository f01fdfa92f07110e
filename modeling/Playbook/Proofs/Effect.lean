import Playbook.Dict

/-!
# Playbook — computations that keep what they did

All computations of this library that work on something (a database, the disk, the
world, a run) are functions of a state that give a result or a failure together with
the state they leave behind: `ExceptT` over `StateM`. This module says how such a
computation runs, and when it moves the state only along a relation.

Main results:

* `run_bind` — a sequence runs its first part, and its second part unless the
  first has failed.
* `Along.bind`, `Along.foldlM`, `Along.mapM` — a relation that can be chained
  holds over a sequence and over a loop if it holds over each part.
* `map_mapM_append` — a list of computations is run as its parts are,
  one after the other.
* `Both.bind` — sequences end alike if their parts do.
-/

namespace Playbook.Effect

variable {σ ε α β : Type}

/-! ## Running -/

theorem run_bind (x : ExceptT ε (StateM σ) α)
    (f : α → ExceptT ε (StateM σ) β) (s : σ) :
    (x >>= f).run s = match x.run s with
      | (.ok a, s) => (f a).run s
      | (.error e, s) => (.error e, s) := by
  show (match x.run s with | (r, s) => (ExceptT.bindCont f r) s) = _
  rcases x.run s with ⟨_ | _, _⟩ <;> rfl

/-- A sequence whose first part ends well goes on with the second. -/
theorem run_bind_of_ok {x : ExceptT ε (StateM σ) α} {s s' : σ} {a : α}
    (h : x.run s = (.ok a, s')) (f : α → ExceptT ε (StateM σ) β) :
    (x >>= f).run s = (f a).run s' := by
  rw [run_bind, h]

theorem run_bind_of_error {x : ExceptT ε (StateM σ) α} {s s' : σ} {e : ε}
    (h : x.run s = (.error e, s')) (f : α → ExceptT ε (StateM σ) β) :
    (x >>= f).run s = (.error e, s') := by
  rw [run_bind, h]

theorem run_map (f : α → β) (x : ExceptT ε (StateM σ) α) (s : σ) :
    (f <$> x).run s = match x.run s with
      | (.ok a, s) => (.ok (f a), s)
      | (.error e, s) => (.error e, s) := by
  rw [map_eq_pure_bind, run_bind]
  rcases x.run s with ⟨_ | _, _⟩ <;> rfl

@[simp] theorem run_pure (a : α) (s : σ) :
    (pure a : ExceptT ε (StateM σ) α).run s = (.ok a, s) := rfl

@[simp] theorem run_throw (e : ε) (s : σ) :
    (throw e : ExceptT ε (StateM σ) α).run s = (.error e, s) := rfl

@[simp] theorem run_get (s : σ) :
    (get : ExceptT ε (StateM σ) σ).run s = (.ok s, s) := rfl

@[simp] theorem run_modify (f : σ → σ) (s : σ) :
    (modify f : ExceptT ε (StateM σ) Unit).run s = (.ok (), f s) := rfl

@[simp] theorem run_liftM (e : Except ε α) (s : σ) :
    (liftM e : ExceptT ε (StateM σ) α).run s = (e, s) := rfl

/-- A sequence that ends well did so in both parts. -/
theorem run_bind_ok {x : ExceptT ε (StateM σ) α}
    {f : α → ExceptT ε (StateM σ) β} {s s' : σ} {b : β}
    (h : (x >>= f).run s = (.ok b, s')) :
    ∃ a s₁, x.run s = (.ok a, s₁) ∧ (f a).run s₁ = (.ok b, s') := by
  rw [run_bind] at h
  rcases hx : x.run s with ⟨e | a, s₁⟩
  · rw [hx] at h
    cases h
  · rw [hx] at h
    exact ⟨a, s₁, rfl, h⟩

/-- A result that was mapped comes from a result. -/
theorem run_map_ok {f : α → β} {x : ExceptT ε (StateM σ) α} {s s' : σ} {b : β}
    (h : (f <$> x).run s = (.ok b, s')) : ∃ a, x.run s = (.ok a, s') ∧ f a = b := by
  rw [run_map] at h
  rcases hx : x.run s with ⟨e | a, s₁⟩
  · rw [hx] at h
    cases h
  · rw [hx] at h
    cases h
    exact ⟨a, rfl, rfl⟩

/-- A failure is the same with a mapped result. -/
theorem run_map_error {f : α → β} {x : ExceptT ε (StateM σ) α} {s s' : σ} {e : ε}
    (h : (f <$> x).run s = (.error e, s')) : x.run s = (.error e, s') := by
  rw [run_map] at h
  rcases hx : x.run s with ⟨e' | a, s₁⟩ <;> rw [hx] at h <;> cases h
  rfl

/-- How a computation ended and what it left behind are all there is to its run. -/
theorem run_of_fst_eq {run : Except ε α × σ} {result : Except ε α}
    (h : run.1 = result) : run = (result, run.2) :=
  Prod.ext h rfl

theorem of_toOption_all {result : Except ε α} {p : α → Bool}
    (h : result.toOption.all p = true) {a : α} (ha : result = .ok a) :
    p a = true := by
  subst ha
  exact h

/-- The run ends with a failure, and the failure and what is left pass a check. -/
def failsWith (run : Except ε α × σ) (p : ε → σ → Bool) : Bool :=
  match run with
  | (.ok _, _) => false
  | (.error e, s) => p e s

/-- The run ends with a result, and the result and what is left pass a check. -/
def succeedsWith (run : Except ε α × σ) (p : α → σ → Bool) : Bool :=
  match run with
  | (.ok a, s) => p a s
  | (.error _, _) => false

/-- A run that evaluates to a failure can be checked although its results
cannot be compared. -/
theorem exists_of_check (run : Except ε α × σ) (p : ε → σ → Bool)
    (h : failsWith run p = true) :
    ∃ e s, run = (.error e, s) ∧ p e s = true := by
  rcases run with ⟨e | a, s⟩
  · exact ⟨e, s, rfl, h⟩
  · cases h

/-- A run that evaluates to a result can be checked although results
cannot be compared. -/
theorem exists_ok_of_check (run : Except ε α × σ) (p : α → σ → Bool)
    (h : succeedsWith run p = true) :
    ∃ a s, run = (.ok a, s) ∧ p a s = true := by
  rcases run with ⟨e | a, s⟩
  · cases h
  · exact ⟨a, s, rfl, h⟩

/-- The computation can end with this result. -/
def Gives (x : ExceptT ε (StateM σ) α) (a : α) : Prop :=
  ∃ s s', x.run s = (.ok a, s')

/-- What each part of a successful fold establishes about what it has passed
over, the fold establishes about all. -/
theorem foldlM_ok {γ : Type} {f : β → γ → ExceptT ε (StateM σ) β}
    {P : List γ → β → σ → Prop} {l : List γ}
    (hstep : ∀ done x rest b s b' s', l = done ++ x :: rest → P done b s →
      (f b x).run s = (.ok b', s') →
      P (done ++ [x]) b' s') {b b' : β} {s s' : σ}
        (hstart : P [] b s) (h : (l.foldlM f b).run s = (.ok b', s')) :
    P l b' s' := by
  -- by induction on what is left, with what has been passed over kept apart
  have hfrom : ∀ (rest done : List γ) {b : β} {s : σ},
      l = done ++ rest → P done b s →
      (rest.foldlM f b).run s = (.ok b', s') → P l b' s' := by
    intro rest
    induction rest with
    | nil =>
      intro done b s hl hdone hrun
      cases hrun
      rwa [hl, List.append_nil]
    | cons x rest ih =>
      intro done b s hl hdone hrun
      rw [List.foldlM_cons] at hrun
      obtain ⟨b₁, s₁, hx, hrest⟩ := run_bind_ok hrun
      exact ih (done ++ [x]) (by rw [hl, List.append_assoc]; rfl)
        (hstep done x rest b s b₁ s₁ hl hdone hx) hrest
  exact hfrom l [] rfl hstart h

/-- A loop whose body always goes on ends well. -/
theorem run_forIn_ok {γ : Type} (l : List γ)
    {f : γ → PUnit → ExceptT ε (StateM σ) (ForInStep PUnit)}
    (hf : ∀ x s, ∃ s', (f x ⟨⟩).run s = (.ok (.yield ⟨⟩), s')) (s : σ) :
    ∃ s', (forIn l ⟨⟩ f).run s = (.ok ⟨⟩, s') := by
  induction l generalizing s with
  | nil => exact ⟨s, rfl⟩
  | cons x rest ih =>
    obtain ⟨s₁, hx⟩ := hf x s
    obtain ⟨s₂, hrest⟩ := ih s₁
    refine ⟨s₂, ?_⟩
    rw [List.forIn_cons, run_bind, hx]
    exact hrest

/-! ## Moving along a relation -/

/-- However it ends, the computation leaves a state that is related to
the one it found. -/
def Along (R : σ → σ → Prop) (x : ExceptT ε (StateM σ) α) : Prop :=
  ∀ s, R s (x.run s).2

/-- A relation that holds over standing still and over one move after the other. -/
structure Chains (R : σ → σ → Prop) : Prop where
  refl : ∀ s, R s s
  trans : ∀ {a b c}, R a b → R b c → R a c

namespace Along

variable {R : σ → σ → Prop}

theorem pure (hR : Chains R) (a : α) :
    Along R (Pure.pure a : ExceptT ε (StateM σ) α) := fun s => hR.refl s

theorem throw (hR : Chains R) (e : ε) :
    Along R (throw e : ExceptT ε (StateM σ) α) := fun s => hR.refl s

theorem get (hR : Chains R) :
    Along R (MonadState.get : ExceptT ε (StateM σ) σ) := fun s => hR.refl s

theorem liftM (hR : Chains R) (e : Except ε α) :
    Along R (liftM e : ExceptT ε (StateM σ) α) := fun s => hR.refl s

theorem modify {f : σ → σ} (h : ∀ s, R s (f s)) :
    Along R (modify f : ExceptT ε (StateM σ) Unit) := h

/-- Only the first part of a sequence depends on the state that
the sequence finds. -/
theorem bind_at (hR : Chains R) {x : ExceptT ε (StateM σ) α}
    {f : α → ExceptT ε (StateM σ) β} {s : σ} (hx : R s (x.run s).2)
    (hf : ∀ a, Along R (f a)) : R s ((x >>= f).run s).2 := by
  rw [run_bind]
  rcases hrun : x.run s with ⟨e | a, s₁⟩
  · rw [hrun] at hx
    exact hx
  · rw [hrun] at hx
    exact hR.trans hx (hf a s₁)

theorem bind (hR : Chains R) {x : ExceptT ε (StateM σ) α}
    {f : α → ExceptT ε (StateM σ) β} (hx : Along R x)
    (hf : ∀ a, Along R (f a)) : Along R (x >>= f) :=
  fun s => bind_at hR (hx s) hf

/-- The second part of a sequence starts from a result of the first. -/
theorem bind_gives (hR : Chains R) {x : ExceptT ε (StateM σ) α}
    {f : α → ExceptT ε (StateM σ) β} (hx : Along R x)
    (hf : ∀ a, Gives x a → Along R (f a)) : Along R (x >>= f) := by
  intro s
  have hxs := hx s
  rw [run_bind]
  rcases hrun : x.run s with ⟨e | a, s₁⟩
  · rw [hrun] at hxs
    exact hxs
  · rw [hrun] at hxs
    exact hR.trans hxs (hf a ⟨s, s₁, hrun⟩ s₁)

theorem map {f : α → β} {x : ExceptT ε (StateM σ) α} (hx : Along R x) :
    Along R (f <$> x) := by
  intro s
  have hxs := hx s
  rw [run_map]
  rcases hrun : x.run s with ⟨e | a, s₁⟩ <;> rw [hrun] at hxs <;> exact hxs

theorem ite {c : Prop} [Decidable c] {x y : ExceptT ε (StateM σ) α}
    (hx : Along R x) (hy : Along R y) :
    Along R (if c then x else y) := by
  split
  · exact hx
  · exact hy

theorem foldlM (hR : Chains R) {γ : Type} (l : List γ) (init : β)
    {f : β → γ → ExceptT ε (StateM σ) β} (hf : ∀ b x, Along R (f b x)) :
    Along R (l.foldlM f init) := by
  induction l generalizing init with
  | nil => exact pure hR _
  | cons x rest ih =>
    rw [List.foldlM_cons]
    exact bind hR (hf init x) ih

theorem mapM (hR : Chains R) {γ : Type} (l : List γ)
    {f : γ → ExceptT ε (StateM σ) β} (hf : ∀ x, Along R (f x)) :
    Along R (l.mapM f) := by
  induction l with
  | nil => exact pure hR _
  | cons x rest ih =>
    rw [List.mapM_cons]
    exact bind hR (hf x) fun _ => bind hR ih fun _ => pure hR _

end Along

/-! ## Results of lists -/

/-- What comes out of a list of results came from one of them. -/
theorem exists_of_mem_mapM {f : α → Except ε β} {l : List α} {r : List β}
    (h : l.mapM f = .ok r) {b : β} (hb : b ∈ r) :
    ∃ a ∈ l, f a = .ok b := by
  induction l generalizing r with
  | nil =>
    cases h
    cases hb
  | cons x rest ih =>
    rw [List.mapM_cons] at h
    cases hx : f x with
    | error e =>
      rw [hx] at h
      cases h
    | ok y =>
      cases hr : rest.mapM f with
      | error e =>
        rw [hx, hr] at h
        cases h
      | ok ys =>
        rw [hx, hr] at h
        cases h
        rcases List.mem_cons.mp hb with rfl | hrest
        · exact ⟨x, List.mem_cons_self .., hx⟩
        · obtain ⟨a, ha, hfa⟩ := ih hr hrest
          exact ⟨a, List.mem_cons_of_mem _ ha, hfa⟩

/-- What all results say of what they came from, a list of results
says of the list. -/
theorem map_of_mapM {γ : Type} {f : α → Except ε β} {g : β → γ} {k : α → γ}
    (hf : ∀ a b, f a = .ok b → g b = k a) {l : List α} {r : List β}
    (h : l.mapM f = .ok r) : r.map g = l.map k := by
  induction l generalizing r with
  | nil =>
    cases h
    rfl
  | cons x rest ih =>
    rw [List.mapM_cons] at h
    cases hx : f x with
    | error e =>
      rw [hx] at h
      cases h
    | ok y =>
      cases hr : rest.mapM f with
      | error e =>
        rw [hx, hr] at h
        cases h
      | ok ys =>
        rw [hx, hr] at h
        cases h
        rw [List.map_cons, List.map_cons, hf x y hx, ih hr]

/-! ## Lists of computations -/

section

variable {m : Type → Type} [Monad m] [LawfulMonad m] {γ δ κ ι : Type} {f : γ → m δ}

/-- Of the results of a list of computations it is known beforehand
how many there are. -/
theorem mapM_bind_congr {l : List γ} {g g' : List δ → m κ}
    (h : ∀ ys, ys.length = l.length → g ys = g' ys) :
    l.mapM f >>= g = l.mapM f >>= g' := by
  induction l generalizing g g' with
  | nil =>
    rw [List.mapM_nil, pure_bind, pure_bind]
    exact h [] rfl
  | cons x l ih =>
    simp only [List.mapM_cons, bind_assoc, pure_bind]
    exact congrArg _ (funext fun y => ih fun ys hys =>
      h (y :: ys) (congrArg (· + 1) hys))

theorem map_mapM_singleton (x : γ) (g : List δ → κ) :
    g <$> [x].mapM f = (fun y => g [y]) <$> f x := by
  simp only [List.mapM_cons, List.mapM_nil, map_eq_pure_bind, bind_assoc, pure_bind]

/-- What is made of the results for two lists, one after the other, is made of
the results for both together. -/
theorem map_mapM_append {θ : Type} {l l' : List γ} {g : List δ → κ}
    {first : List δ → ι} {rest : List δ → θ} (join : ι → θ → κ)
    (h : ∀ ys ys', ys.length = l.length →
      g (ys ++ ys') = join (first ys) (rest ys')) :
    g <$> (l ++ l').mapM f = (do
      let x ← first <$> l.mapM f
      let xs ← rest <$> l'.mapM f
      return join x xs) := by
  simp only [List.mapM_append, map_eq_pure_bind, bind_assoc, pure_bind]
  refine mapM_bind_congr fun ys hys => congrArg _ (funext fun ys' => ?_)
  rw [h ys ys' hys]

end

/-! ## Computations that end alike -/

/-- Both computations ended well, with results and states that
correspond, or both failed. -/
inductive Both (Q : α → β → Prop) (S : σ → σ → Prop) :
    Except ε α × σ → Except ε β × σ → Prop
  | ok {a : α} {b : β} {s t : σ} (hresult : Q a b) (hstate : S s t) :
      Both Q S (.ok a, s) (.ok b, t)
  | error {e f : ε} {s t : σ} : Both Q S (.error e, s) (.error f, t)

namespace Both

variable {γ δ : Type} {Q : α → β → Prop} {R : γ → δ → Prop} {S : σ → σ → Prop}
  {x : ExceptT ε (StateM σ) α} {y : ExceptT ε (StateM σ) β} {s t : σ}

theorem pure {a : α} {b : β} (hresult : Q a b) (hstate : S s t) :
    Both Q S ((Pure.pure a : ExceptT ε (StateM σ) α).run s)
      ((Pure.pure b : ExceptT ε (StateM σ) β).run t) :=
  .ok hresult hstate

theorem bind {f : α → ExceptT ε (StateM σ) γ} {g : β → ExceptT ε (StateM σ) δ}
    (h : Both Q S (x.run s) (y.run t))
    (hnext : ∀ a b s t, Q a b → S s t → Both R S ((f a).run s) ((g b).run t)) :
    Both R S ((x >>= f).run s) ((y >>= g).run t) := by
  rw [run_bind, run_bind]
  generalize x.run s = p at h
  generalize y.run t = q at h
  cases h with
  | ok hresult hstate => exact hnext _ _ _ _ hresult hstate
  | error => exact .error

theorem map {f : α → γ} {g : β → δ} (h : Both Q S (x.run s) (y.run t))
    (hresults : ∀ a b, Q a b → R (f a) (g b)) :
    Both R S ((f <$> x).run s) ((g <$> y).run t) := by
  rw [map_eq_pure_bind, map_eq_pure_bind]
  exact h.bind fun a b _ _ hresult hstate => .pure (hresults a b hresult) hstate

theorem refl {p : Except ε α × σ} (hstate : S p.2 p.2) : Both Eq S p p := by
  obtain ⟨e | a, s⟩ := p
  · exact .error
  · exact .ok rfl hstate

theorem isOk_iff {p : Except ε α × σ} {q : Except ε β × σ} (h : Both Q S p q) :
    p.1.isOk = true ↔ q.1.isOk = true := by
  cases h <;> exact Iff.rfl

end Both

end Playbook.Effect
