import Playbook.Proofs.Output

/-!
# Playbook — binding a list of names

A list of names is bound to the items of a list, place by place, or to what
stands under the names in a mapping. Either way a name that is listed more than
once should be no trouble, and from a list it gets the item at its last place.
Out of a mapping, though, a value is taken when it is bound, so that a name that
is listed again is reported missing although the mapping has it.

Main results:

* `Namespace.taken_eq_none_iff` — a mapping lacks no name exactly if it has all
  of them and none is repeated.
* `Namespace.bind_names_exact` — when a list of names can be bound, and to what.
-/

namespace Playbook

namespace Namespace

/-! ## Taking values out of a mapping -/

/-- If nothing is missing, every name takes out a value. -/
theorem keys_taken {entries : Dict Value} {names : List String}
    (h : (taken entries names).2 = none) :
    Dict.keys (taken entries names).1 = names := by
  induction names generalizing entries with
  | nil => rfl
  | cons name names ih =>
    unfold taken at h ⊢
    cases hget : entries.get? name with
    | none =>
      rw [hget] at h
      cases h
    | some value =>
      rw [hget] at h
      exact congrArg (name :: ·) (ih h)

/-- A mapping lacks no name exactly if it has all of them and none is repeated:
a value can be taken once. -/
theorem taken_eq_none_iff {entries : Dict Value} (hkeys : entries.Distinct)
    {names : List String} :
    (taken entries names).2 = none ↔ names.Nodup ∧ ∀ name ∈ names,
    name ∈ entries.keys := by
  induction names generalizing entries with
  | nil => simp [taken]
  | cons name names ih =>
    rw [List.nodup_cons, List.forall_mem_cons]
    unfold taken
    cases hget : entries.get? name with
    | none =>
      exact iff_of_false (fun h => by cases h) fun h =>
        Dict.get?_eq_none.mp hget h.2.1
    | some value =>
      have hname : name ∈ entries.keys := Dict.mem_keys_of_get? hget
      -- the other names find what is left, which is everything but the name
      -- that was just bound
      show (taken (entries.erase name) names).2 = none ↔ _
      rw [ih (hkeys.erase name)]
      constructor
      · rintro ⟨hnodup, hrest⟩
        have hleft : ∀ other ∈ names, other ≠ name ∧ other ∈ entries.keys := by
          intro other hother
          exact hkeys.mem_keys_erase.mp (hrest other hother)
        exact ⟨⟨fun hmem => (hleft name hmem).1 rfl, hnodup⟩, hname,
          fun other hother => (hleft other hother).2⟩
      · rintro ⟨⟨hnew, hnodup⟩, -, hrest⟩
        refine ⟨hnodup, ?_⟩
        intro other hother
        have hne : other ≠ name := by
          rintro rfl
          exact hnew hother
        exact hkeys.mem_keys_erase.mpr ⟨hne, hrest other hother⟩

/-- Names that lack nothing are bound to what stands under them. -/
theorem get?_extend_taken {entries : Dict Value} (hkeys : entries.Distinct)
    {names : List String} (h : (taken entries names).2 = none) (n : Namespace)
    {name : String} (hname : name ∈ names) :
    (n.extend (taken entries names).1).get? name = entries.get? name := by
  have hnames := keys_taken h
  -- every name was taken out once, so that what was taken is a dictionary
  have hdistinct : Dict.Distinct (taken entries names).1 := by
    unfold Dict.Distinct
    rw [hnames]
    exact ((taken_eq_none_iff hkeys).mp h).1
  have hmem : name ∈ Dict.keys (taken entries names).1 := hnames.symm ▸ hname
  obtain ⟨value, hvalue⟩ := Dict.exists_get?_of_mem_keys hmem
  rw [Dict.get?_extend_of_mem hdistinct hmem, hvalue]
  exact (Dict.get?_of_mem hkeys (mem_of_mem_taken (Dict.mem_of_get? hvalue)).2).symm

theorem bindKeys_eq_ok_iff (n : Namespace) (entries : Dict Value)
    (names : List String) :
    (bindKeys n entries names).1 = .ok () ↔ (taken entries names).2 = none := by
  rw [bindKeys_eq]
  cases (taken entries names).2 <;> simp

/-! ## Binding -/

theorem bind_names_of_sequence (n : Namespace) (names : List String)
    {value : Value} {items : List Value} (h : value.sequence? = some items) :
    n.bind (.names names) value =
      if items.length < names.length then (.error
        (Cause.outputBinding (.tooFew names.length items.length)), n)
      else (.ok (), n.extend (names.zip items)) := by
  unfold bind
  rw [h]

theorem sequence?_of_mapping? {value : Value} {entries : Dict Value}
    (h : value.mapping? = some entries) :
    value.sequence? = none := by
  cases value with
  | map entries => rfl
  | json j =>
    cases j with
    | obj fields => rfl
    | _ => cases h
  | _ => cases h

theorem bind_names_of_mapping (n : Namespace) (names : List String)
    {value : Value} {entries : Dict Value} (h : value.mapping? = some entries) :
    n.bind (.names names) value = bindKeys n entries names := by
  unfold bind
  rw [sequence?_of_mapping? h, h]

theorem bind_names_of_neither (n : Namespace) (names : List String)
    {value : Value} (hsequence : value.sequence? = none)
    (hmapping : value.mapping? = none) :
    n.bind (.names names) value =
    (.error (Cause.outputBinding .notACollection), n) := by
  unfold bind
  rw [hsequence, hmapping]

/-- **Binding a list of names.** To a mapping it succeeds exactly if the mapping
has every name and no name is repeated, and then each name is bound to what
stands under it. To a list it succeeds exactly if there are as many items as
names, and then each name is bound to the item at its last place. What is
neither cannot be bound. Whatever is not listed is as it was, and what was there
keeps its place. -/
theorem bind_names_exact (n : Namespace) (names : List String) {value : Value}
    (hkeys : ∀ entries, value.mapping? = some entries → entries.Distinct) :
    let bound := n.bind (.names names) value
    (∀ entries, value.mapping? = some entries →
      (bound.1 = .ok () ↔ names.Nodup ∧ ∀ name ∈ names, name ∈ entries.keys) ∧
      (bound.1 = .ok () → ∀ name ∈ names, bound.2.get? name = entries.get? name)) ∧
    (∀ items, value.sequence? = some items →
      (bound.1 = .ok () ↔ names.length ≤ items.length) ∧
      (bound.1 = .ok () → ∀ (i : Nat) name, names[i]? = some name →
        (∀ j, i < j → names[j]? ≠ some name) →
        bound.2.get? name = items[i]?)) ∧
    (value.mapping? = none → value.sequence? = none →
      bound.1 = .error (Cause.outputBinding .notACollection)) ∧
    (∀ key, key ∉ names → bound.2.get? key = n.get? key) ∧
    n.keys <+: bound.2.keys := by
  intro bound
  have hbound : bound.2 = n.extend ((OutputSpec.names names).written value) :=
    bind_eq n (.names names) value
  refine ⟨?_, ?_, ?_, ?_, ?_⟩
  · -- a mapping: what the names take out of it decides
    intro entries hmapping
    have htaken : bound = bindKeys n entries names :=
      bind_names_of_mapping n names hmapping
    have hdistinct := hkeys entries hmapping
    have hok : bound.1 = .ok () ↔ (taken entries names).2 = none := by
      rw [htaken]
      exact bindKeys_eq_ok_iff n entries names
    refine ⟨hok.trans (taken_eq_none_iff hdistinct), ?_⟩
    intro h name hname
    rw [htaken, bindKeys_eq]
    exact get?_extend_taken hdistinct (hok.mp h) n hname
  · -- a list: its length decides, before anything is bound
    intro items hsequence
    have hzip : bound = _ := bind_names_of_sequence n names hsequence
    by_cases hfew : items.length < names.length
    · rw [if_pos hfew] at hzip
      rw [hzip]
      simp [hfew]
    · rw [if_neg hfew] at hzip
      rw [hzip]
      have hlength : names.length ≤ items.length := by omega
      refine ⟨by simp [hlength], ?_⟩
      intro _ i name hi hlast
      exact Dict.get?_extend_zip n hlength hi hlast
  · intro hmapping hsequence
    exact congrArg Prod.fst (bind_names_of_neither n names hsequence hmapping)
  · intro key hkey
    rw [hbound]
    exact Dict.get?_extend_of_not_mem fun hmem =>
      hkey (OutputSpec.selects_of_written hmem)
  · rw [hbound]
    exact Dict.keys_prefix_extend n _

/-- Two names are bound to a mapping of three keys, one of them
over an old value. -/
theorem two_names_of_three_keys :
    let n : Namespace := [("a", .ofText "old"), ("z", .ofText "other")]
    let value :=
      Value.json (.obj [("a", .ofInt 1), ("b", .ofInt 2), ("c", .ofInt 3)])
    let bound := n.bind (.names ["b", "a"]) value
    (∀ entries, value.mapping? = some entries → entries.Distinct) ∧
      bound.1 = .ok () ∧
      bound.2.get? "a" = some (.json (.ofInt 1)) ∧
      bound.2.get? "z" = n.get? "z" := by
  intro n value bound
  have hkeys : ∀ entries, value.mapping? = some entries → entries.Distinct := by
    rintro entries ⟨⟩
    decide
  obtain ⟨hmapping, -, -, hothers, -⟩ := bind_names_exact n ["b", "a"] hkeys
  obtain ⟨hok, hnames⟩ := hmapping _ rfl
  have hbound := hok.mpr ⟨by decide, by decide⟩
  exact ⟨hkeys, hbound, hnames hbound "a" (by decide), hothers "z" (by decide)⟩

/-- A name that is listed twice is said to be missing from a mapping that has it. -/
theorem value_taken_once :
    let value := Value.json (.obj [("a", .ofInt 1)])
    value.mapping? = some [("a", .json (.ofInt 1))] ∧
      (∀ name ∈ ["a", "a"], name ∈ Dict.keys [("a", Value.json (.ofInt 1))]) ∧
      (bind [] (.names ["a", "a"]) value).1 =
      .error (Cause.outputBinding (.noKey "a")) :=
  ⟨rfl, by decide, rfl⟩

end Namespace

end Playbook
