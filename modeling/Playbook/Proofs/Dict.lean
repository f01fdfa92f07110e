import Mathlib.Data.List.Nodup
import Mathlib.Data.List.Perm.Subperm
import Playbook.Dict

/-!
# Playbook — laws of dictionaries

A dictionary that was built by writing has distinct keys, and with distinct keys the
list of entries and the look-ups say the same. Writing on top of a dictionary never
moves a key that is there: the old keys stay a prefix of the new ones.

Main results:

* `extend_eq_append` — entries whose keys are all new are appended as they are.
* `ofList_eq_self` — entries with distinct keys are a dictionary already.
* `keys_prefix_extend` — writing keeps the keys that are there in their places.
* `get?_extend` — the last write to a key counts.
* `get?_extend_zip` — so of the values that a list of keys is given, the one at
  the last place of a key stays.
* `extend_extend` — writing over a dictionary what was written over another is
  one writing after the other.
-/

namespace Playbook.Dict

variable {α β : Type}

instance (d : Dict α) : Decidable d.Distinct :=
  inferInstanceAs (Decidable d.keys.Nodup)

/-! ## Keys and look-ups -/

@[simp] theorem keys_nil : keys ([] : Dict α) = [] := rfl

@[simp] theorem keys_cons (entry : String × α) (d : Dict α) :
    keys (entry :: d) = entry.1 :: keys d := rfl

@[simp] theorem keys_append (d e : Dict α) :
    keys (d ++ e) = keys d ++ keys e := List.map_append ..

@[simp] theorem keys_mapValues (f : α → β) (d : Dict α) :
    keys (mapValues f d) = keys d := by
  simp [keys, mapValues, List.map_map, Function.comp_def]

theorem mem_keys_of_mem {d : Dict α} {key : String} {value : α}
    (h : (key, value) ∈ d) : key ∈ d.keys :=
  List.mem_map_of_mem (f := (·.1)) h

theorem contains_eq_true {d : Dict α} {key : String} :
    d.contains key = true ↔ key ∈ d.keys := contains_iff_mem_keys

theorem contains_eq_false {d : Dict α} {key : String} :
    d.contains key = false ↔ key ∉ d.keys := by
  rw [← contains_iff_mem_keys, Bool.not_eq_true]

theorem get?_eq_none {d : Dict α} {key : String} :
    d.get? key = none ↔ key ∉ d.keys := by
  rw [← contains_eq_false, contains, Option.isSome_eq_false_iff,
    Option.isNone_iff_eq_none]

theorem mem_of_get? {d : Dict α} {key : String} {value : α}
    (h : d.get? key = some value) : (key, value) ∈ d := by
  induction d with
  | nil => simp at h
  | cons entry rest ih =>
    obtain ⟨k, v⟩ := entry
    rw [get?] at h
    split at h
    · next hk =>
      cases h
      simp [hk]
    · exact List.mem_cons_of_mem _ (ih h)

theorem exists_get?_of_mem_keys {d : Dict α} {key : String} (h : key ∈ d.keys) :
    ∃ value, d.get? key = some value :=
  Option.isSome_iff_exists.mp (contains_eq_true.mpr h)

theorem mem_keys_of_get? {d : Dict α} {key : String} {value : α}
    (h : d.get? key = some value) : key ∈ d.keys :=
  mem_keys_of_mem (mem_of_get? h)

theorem mem_values_of_get? {d : Dict α} {key : String} {value : α}
    (h : d.get? key = some value) : value ∈ d.values :=
  List.mem_map_of_mem (f := (·.2)) (mem_of_get? h)

/-- With distinct keys a look-up finds every entry. -/
theorem get?_of_mem {d : Dict α} (hd : d.Distinct) {key : String} {value : α}
    (h : (key, value) ∈ d) :
    d.get? key = some value := by
  induction d with
  | nil => simp at h
  | cons entry rest ih =>
    obtain ⟨k, v⟩ := entry
    have hd' := List.nodup_cons.mp hd
    rw [get?]
    rcases List.mem_cons.mp h with heq | hrest
    · cases heq
      simp
    · have hne : k ≠ key := fun hk => hd'.1 (hk ▸ mem_keys_of_mem hrest)
      rw [if_neg hne]
      exact ih hd'.2 hrest

/-- A key splits a dictionary into what is before its entry, the entry, and
what is after it. -/
theorem split_of_get? {d : Dict α} {key : String} {value : α}
    (h : d.get? key = some value) :
    ∃ rest, d = d.takeWhile (·.1 ≠ key) ++ (key, value) :: rest := by
  induction d with
  | nil => simp at h
  | cons entry rest ih =>
    obtain ⟨k, v⟩ := entry
    rw [get?] at h
    by_cases hk : k = key
    · rw [if_pos hk] at h
      cases h
      exact ⟨rest, by simp [hk]⟩
    · rw [if_neg hk] at h
      obtain ⟨rest', hrest⟩ := ih h
      refine ⟨rest', ?_⟩
      rw [List.takeWhile_cons_of_pos (by simpa using hk), List.cons_append, ← hrest]

/-- Looking up all keys gives all values. -/
theorem map_get?_keys {d : Dict α} (hd : d.Distinct) :
    d.keys.map d.get? = d.values.map some := by
  unfold keys values
  rw [List.map_map, List.map_map]
  exact List.map_congr_left fun entry hentry => get?_of_mem hd hentry

/-- Under distinct keys, the order of the entries does not matter to look-ups. -/
theorem get?_reverse {d : Dict α} (h : d.Distinct) (key : String) :
    get? d.reverse key = d.get? key := by
  have hkeys : keys d.reverse = d.keys.reverse := List.map_reverse
  have hreverse : Distinct d.reverse := by
    unfold Distinct
    rw [hkeys]
    exact List.nodup_reverse.mpr h
  cases hget : d.get? key with
  | some value =>
    exact get?_of_mem hreverse (List.mem_reverse.mpr (mem_of_get? hget))
  | none =>
    refine get?_eq_none.mpr fun hmem => get?_eq_none.mp hget ?_
    rw [hkeys] at hmem
    exact List.mem_reverse.mp hmem

theorem get?_append (d e : Dict α) (key : String) :
    (d ++ e).get? key = (d.get? key).or (e.get? key) := by
  induction d with
  | nil => rfl
  | cons entry rest ih =>
    obtain ⟨k, v⟩ := entry
    rw [List.cons_append, get?, get?]
    split
    · rfl
    · exact ih

@[simp] theorem get?_mapValues (f : α → β) (d : Dict α) (key : String) :
    (d.mapValues f).get? key = (d.get? key).map f := by
  induction d with
  | nil => rfl
  | cons entry rest ih =>
    obtain ⟨k, v⟩ := entry
    show get? ((k, f v) :: mapValues f rest) key = _
    rw [get?, get?]
    split
    · rfl
    · exact ih

@[simp] theorem values_mapValues (f : α → β) (d : Dict α) :
    values (mapValues f d) = (values d).map f := by
  simp [values, mapValues, List.map_map, Function.comp_def]

theorem Distinct.not_mem_of_append {d rest : Dict α} {entry : String × α}
    (h : (d ++ entry :: rest).Distinct) :
    entry.1 ∉ d.keys := by
  unfold Distinct at h
  rw [keys_append, keys_cons, List.nodup_append] at h
  intro hmem
  exact h.2.2 _ hmem _ (List.mem_cons_self ..) rfl

/-- Only the keys of a dictionary matter for whether they are distinct. -/
theorem distinct_congr {d : Dict α} {e : Dict β} (h : d.keys = e.keys) :
    d.Distinct ↔ e.Distinct := by
  unfold Distinct
  rw [h]

/-- Dictionaries with the same keys in the same order and the same values under
them are equal. -/
theorem eq_of_get? {d e : Dict α} (hd : d.Distinct) (hkeys : e.keys = d.keys)
    (h : ∀ key ∈ d.keys, e.get? key = d.get? key) :
    e = d := by
  have he : e.Distinct := (distinct_congr hkeys).mpr hd
  have hsome : e.values.map some = d.values.map some := by
    rw [← map_get?_keys he, ← map_get?_keys hd, hkeys]
    exact List.map_congr_left h
  have hvalues : e.values = d.values :=
    (List.map_inj_right fun _ _ => Option.some.inj).mp hsome
  -- a dictionary is its keys and its values
  have hzip : ∀ f : Dict α, f.keys.zip f.values = f := fun f => by
    unfold keys values
    rw [← List.unzip_fst, ← List.unzip_snd, List.zip_unzip]
  rw [← hzip e, ← hzip d, hkeys, hvalues]

@[simp] theorem length_mapValues (f : α → β) (d : Dict α) :
    (d.mapValues f).length = d.length := List.length_map _

/-- Mappings have the same keys exactly if they are of one size and one has the
keys of the other. -/
theorem same_keys_iff {d : Dict α} {e : Dict β} (hd : d.Distinct)
    (he : e.Distinct) :
    (d.length = e.length ∧ ∀ key ∈ d.keys, key ∈ e.keys) ↔ ∀ key, key ∈ d.keys ↔
    key ∈ e.keys := by
  have hlength : ∀ {γ : Type} (f : Dict γ), f.keys.length = f.length :=
    fun _ => List.length_map _
  constructor
  · rintro ⟨hsize, hsub⟩ key
    have hperm : d.keys.Perm e.keys :=
      (List.subperm_of_subset hd hsub).perm_of_length_le
        (Nat.le_of_eq (by rw [hlength, hlength, hsize]))
    exact hperm.mem_iff
  · intro hkeys
    have hperm : d.keys.Perm e.keys := (List.perm_ext_iff_of_nodup hd he).mpr hkeys
    refine ⟨?_, fun key hkey => (hkeys key).mp hkey⟩
    rw [← hlength, ← hlength, hperm.length_eq]

/-- What is left when a key is dropped was there. -/
theorem mem_of_mem_erase {d : Dict α} {key : String} {entry : String × α}
    (h : entry ∈ d.erase key) : entry ∈ d := by
  induction d with
  | nil => cases h
  | cons head rest ih =>
    rw [erase] at h
    split at h
    · exact List.mem_cons_of_mem _ h
    · rcases List.mem_cons.mp h with rfl | hrest
      · exact List.mem_cons_self ..
      · exact List.mem_cons_of_mem _ (ih hrest)

theorem keys_erase (d : Dict α) (key : String) :
    (d.erase key).keys = d.keys.erase key := by
  induction d with
  | nil => rfl
  | cons head rest ih =>
    obtain ⟨k, v⟩ := head
    rw [erase, keys_cons, List.erase_cons]
    by_cases hk : k = key
    · rw [if_pos hk, if_pos (beq_iff_eq.mpr hk)]
    · rw [if_neg hk, if_neg fun heq => hk (beq_iff_eq.mp heq), keys_cons, ih]

theorem Distinct.erase {d : Dict α} (h : d.Distinct) (key : String) :
    (d.erase key).Distinct := by
  unfold Distinct
  rw [keys_erase]
  exact List.Nodup.erase key h

theorem Distinct.mem_keys_erase {d : Dict α} (h : d.Distinct) {key other : String} :
    other ∈ (d.erase key).keys ↔ other ≠ key ∧ other ∈ d.keys := by
  rw [keys_erase]
  exact List.Nodup.mem_erase_iff h

theorem distinct_mapValues {f : α → β} {d : Dict α} :
    (d.mapValues f).Distinct ↔ d.Distinct :=
  distinct_congr (keys_mapValues f d)

/-! ## Writing one key -/

/-- A key that is not in the first part is written into the second. -/
theorem insert_append {d : Dict α} {key : String} (h : key ∉ d.keys)
    (e : Dict α) (value : α) :
    (d ++ e).insert key value = d ++ e.insert key value := by
  induction d with
  | nil => rfl
  | cons entry rest ih =>
    obtain ⟨k, v⟩ := entry
    rw [keys_cons, List.mem_cons, not_or] at h
    rw [List.cons_append, insert, if_neg (fun hk => h.1 hk.symm), ih h.2]
    rfl

/-- A new key goes to the end. -/
theorem insert_of_not_mem {d : Dict α} {key : String} {value : α}
    (h : key ∉ d.keys) :
    d.insert key value = d ++ [(key, value)] := by
  have hend := insert_append h [] value
  rw [List.append_nil] at hend
  exact hend

/-- Writing what is there changes nothing. -/
theorem insert_of_get? {d : Dict α} {key : String} {value : α}
    (h : d.get? key = some value) :
    d.insert key value = d := by
  induction d with
  | nil => simp at h
  | cons entry rest ih =>
    obtain ⟨k, v⟩ := entry
    rw [get?] at h
    rw [insert]
    split at h
    · next hk =>
      cases h
      rw [if_pos hk, hk]
    · next hk => rw [if_neg hk, ih h]

theorem keys_insert (d : Dict α) (key : String) (value : α) :
    (d.insert key value).keys = if key ∈ d.keys then d.keys
    else d.keys ++ [key] := by
  split
  · next h => exact keys_insert_of_contains (contains_eq_true.mpr h)
  · next h => exact keys_insert_of_not_contains (contains_eq_false.mpr h)

theorem keys_prefix_insert (d : Dict α) (key : String) (value : α) :
    d.keys <+: (d.insert key value).keys := by
  rw [keys_insert]
  split
  · exact List.prefix_refl _
  · exact List.prefix_append _ _

theorem mem_keys_insert {d : Dict α} {key other : String} {value : α} :
    other ∈ (d.insert key value).keys ↔ other ∈ d.keys ∨ other = key := by
  rw [keys_insert]
  split
  · next h => exact ⟨Or.inl, fun ho => ho.elim id fun he => he ▸ h⟩
  · simp

theorem Distinct.insert {d : Dict α} (h : d.Distinct) (key : String)
    (value : α) : (d.insert key value).Distinct := by
  unfold Distinct
  rw [keys_insert]
  split
  · exact h
  · next hnew => exact List.nodup_middle.mpr (by simpa using ⟨hnew, h⟩)

/-- An entry of a dictionary after writing is the written one or was there. -/
theorem mem_insert {d : Dict α} {key : String} {value : α} {entry : String × α}
    (h : entry ∈ d.insert key value) :
    entry = (key, value) ∨ entry ∈ d := by
  induction d with
  | nil => exact Or.inl (by simpa [Dict.insert] using h)
  | cons head rest ih =>
    rw [Dict.insert] at h
    split at h
    · next hk =>
      rcases List.mem_cons.mp h with rfl | hr
      · exact Or.inl (by rw [hk])
      · exact Or.inr (List.mem_cons_of_mem _ hr)
    · rcases List.mem_cons.mp h with rfl | hr
      · exact Or.inr (List.mem_cons_self ..)
      · exact (ih hr).imp_right (List.mem_cons_of_mem _)

theorem insert_insert_self (d : Dict α) (key : String) (first second : α) :
    (d.insert key first).insert key second = d.insert key second := by
  induction d with
  | nil => simp [Dict.insert]
  | cons entry rest ih =>
    obtain ⟨k, v⟩ := entry
    by_cases hk : k = key
    · simp [Dict.insert, hk]
    · simp [Dict.insert, hk, ih]

/-- Writing in place and writing another key can be done in either order. -/
theorem insert_insert_of_mem {d : Dict α} {key other : String}
    (hkey : key ∈ d.keys) (hne : other ≠ key) (value value' : α) :
    (d.insert other value').insert key value =
    (d.insert key value).insert other value' := by
  induction d with
  | nil => cases hkey
  | cons entry rest ih =>
    obtain ⟨k, v⟩ := entry
    by_cases hk : k = key
    · simp [Dict.insert, hk, hne.symm]
    · have hrest : key ∈ keys rest := by
        rcases List.mem_cons.mp hkey with heq | hmem
        · exact absurd heq.symm hk
        · exact hmem
      by_cases hko : k = other
      · simp [Dict.insert, hko, hne]
      · simp [Dict.insert, hk, hko, ih hrest]

theorem mapValues_insert (f : α → β) (d : Dict α) (key : String) (value : α) :
    (d.insert key value).mapValues f = (d.mapValues f).insert key (f value) := by
  induction d with
  | nil => rfl
  | cons entry rest ih =>
    obtain ⟨k, v⟩ := entry
    show mapValues f (if k = key then (k, value) :: rest
      else (k, v) :: Dict.insert rest key value) =
      if k = key then (k, f value) :: mapValues f rest
        else (k, f v) :: Dict.insert (mapValues f rest) key (f value)
    split
    · rfl
    · rw [← ih]
      rfl

/-! ## Writing many keys -/

@[simp] theorem extend_nil (d : Dict α) : d.extend [] = d := rfl

@[simp] theorem extend_cons (d : Dict α) (entry : String × α) (more : Dict α) :
    d.extend (entry :: more) = (d.insert entry.1 entry.2).extend more := rfl

theorem Distinct.extend {d : Dict α} (h : d.Distinct) (more : Dict α) :
    (d.extend more).Distinct := by
  induction more generalizing d with
  | nil => exact h
  | cons entry rest ih => exact ih (h.insert ..)

theorem distinct_ofList (entries : List (String × α)) : (ofList entries).Distinct :=
  Distinct.extend (d := []) List.nodup_nil entries

/-- Entries whose keys are all new are appended as they are. -/
theorem extend_eq_append {d more : Dict α} (h : (d ++ more).Distinct) :
    d.extend more = d ++ more := by
  induction more generalizing d with
  | nil => simp
  | cons entry rest ih =>
    rw [extend_cons, insert_of_not_mem h.not_mem_of_append, ih (by simpa using h)]
    simp

theorem extend_append (d e f : Dict α) :
    d.extend (e ++ f) = (d.extend e).extend f := List.foldl_append

/-- The last write to a key counts; a key that was not written keeps its value. -/
theorem get?_extend (d more : Dict α) (key : String) :
    (d.extend more).get? key = (get? more.reverse key).or (d.get? key) := by
  induction more generalizing d with
  | nil => rfl
  | cons entry rest ih =>
    obtain ⟨k, v⟩ := entry
    rw [extend_cons, ih, List.reverse_cons, get?_append, get?_insert,
      Option.or_assoc, get?]
    congr 1
    split
    · rfl
    · rw [get?_nil, Option.none_or]

/-- Under a key of a dictionary that was written stands what the
dictionary has there. -/
theorem get?_extend_of_mem {d e : Dict α} (he : e.Distinct) {key : String}
    (hkey : key ∈ e.keys) :
    (d.extend e).get? key = e.get? key := by
  obtain ⟨value, hvalue⟩ := exists_get?_of_mem_keys hkey
  rw [get?_extend, get?_reverse he, hvalue, Option.some_or]

/-- Of a dictionary and one that is written over it, the latter
is looked up first. -/
theorem get?_extend_of_distinct {d e : Dict α} (he : e.Distinct) (key : String) :
    (d.extend e).get? key = (e.get? key).or (d.get? key) := by
  rw [get?_extend, get?_reverse he]

/-- A key that was not written keeps its value. -/
theorem get?_extend_of_not_mem {d more : Dict α} {key : String}
    (hkey : key ∉ more.keys) :
    (d.extend more).get? key = d.get? key := by
  have hreverse : key ∉ keys more.reverse := by
    unfold keys
    rw [List.map_reverse]
    exact fun hmem => hkey (List.mem_reverse.mp hmem)
  rw [get?_extend, get?_eq_none.mpr hreverse, Option.none_or]

/-- Writing what is there changes nothing. -/
theorem extend_of_get? {d more : Dict α}
    (h : ∀ key value, (key, value) ∈ more → d.get? key = some value) :
    d.extend more = d := by
  induction more with
  | nil => rfl
  | cons entry rest ih =>
    rw [extend_cons, insert_of_get? (h entry.1 entry.2 (List.mem_cons_self ..))]
    exact ih fun key value hmem => h key value (List.mem_cons_of_mem _ hmem)

/-- Writing a dictionary changes nothing exactly if all of it is there. -/
theorem extend_eq_self_iff {d e : Dict α} (he : e.Distinct) :
    d.extend e = d ↔ ∀ key value, (key, value) ∈ e → d.get? key = some value := by
  refine ⟨fun h key value hmem => ?_, extend_of_get?⟩
  have hwritten : (d.extend e).get? key = e.get? key :=
    get?_extend_of_mem he (mem_keys_of_mem hmem)
  rw [← h, hwritten]
  exact get?_of_mem he hmem

/-- Writing a dictionary once more changes nothing. -/
theorem extend_extend_self {e : Dict α} (he : e.Distinct) (d : Dict α) :
    (d.extend e).extend e = d.extend e := by
  refine (extend_eq_self_iff he).mpr fun key value hmem => ?_
  rw [get?_extend_of_mem he (mem_keys_of_mem hmem)]
  exact get?_of_mem he hmem

/-- Entries with distinct keys are a dictionary already. -/
theorem ofList_eq_self {d : Dict α} (h : d.Distinct) :
    ofList d = d := extend_eq_append (d := []) h

theorem keys_prefix_extend (d more : Dict α) : d.keys <+: (d.extend more).keys := by
  induction more generalizing d with
  | nil => exact List.prefix_refl _
  | cons entry rest ih => exact (keys_prefix_insert ..).trans (ih _)

theorem mem_keys_extend {d more : Dict α} {key : String} :
    key ∈ (d.extend more).keys ↔ key ∈ d.keys ∨ key ∈ more.keys := by
  induction more generalizing d with
  | nil => simp
  | cons entry rest ih =>
    rw [extend_cons, ih, mem_keys_insert, keys_cons, List.mem_cons, or_assoc]

theorem mem_keys_ofList {entries : List (String × α)} {key : String} :
    key ∈ (ofList entries).keys ↔ key ∈ keys entries := by
  unfold ofList
  rw [mem_keys_extend, keys_nil]
  simp

/-- An entry of a dictionary after writing was there or was written. -/
theorem mem_extend {d more : Dict α} {entry : String × α}
    (h : entry ∈ d.extend more) : entry ∈ d ∨ entry ∈ more := by
  induction more generalizing d with
  | nil => exact Or.inl h
  | cons head rest ih =>
    rcases ih h with hd | hr
    · rcases mem_insert hd with rfl | hold
      · exact Or.inr (List.mem_cons_self ..)
      · exact Or.inl hold
    · exact Or.inr (List.mem_cons_of_mem _ hr)

/-- What all writes to a key agree on stands under the key in the end. -/
theorem get?_ofList {entries : List (String × α)} {key : String} {value : α}
    (hmem : (key, value) ∈ entries)
    (hall : ∀ other, (key, other) ∈ entries → other = value) :
    (ofList entries).get? key = some value := by
  have hkey : key ∈ (ofList entries).keys :=
    mem_keys_extend.mpr (Or.inr (mem_keys_of_mem hmem))
  cases hget : (ofList entries).get? key with
  | none => exact absurd hkey (get?_eq_none.mp hget)
  | some other =>
    rcases mem_extend (mem_of_get? hget) with hnil | hother
    · cases hnil
    · rw [hall other hother]

/-! ## Writing values to a list of keys -/

theorem keys_zip {keys : List String} {items : List α}
    (h : keys.length ≤ items.length) :
    Dict.keys (keys.zip items) = keys := List.map_fst_zip h

/-- Of the values that a repeated key is given, the one at its last place stays. -/
theorem get?_extend_zip (d : Dict α) {keys : List String} {items : List α}
    (h : keys.length ≤ items.length) {i : Nat} {key : String}
    (hi : keys[i]? = some key) (hlast : ∀ j, i < j → keys[j]? ≠ some key) :
    (d.extend (keys.zip items)).get? key = items[i]? := by
  induction keys generalizing d items i with
  | nil => cases hi
  | cons first keys ih =>
    cases items with
    | nil => cases h
    | cons item items =>
      have hrest : keys.length ≤ items.length := Nat.le_of_succ_le_succ h
      rw [List.zip_cons_cons, extend_cons]
      cases i with
      | zero =>
        obtain rfl : first = key := Option.some.inj hi
        have hnot : first ∉ Dict.keys (keys.zip items) := by
          rw [keys_zip hrest]
          intro hmem
          obtain ⟨j, hj⟩ := List.getElem?_of_mem hmem
          exact hlast (j + 1) (Nat.zero_lt_succ j) hj
        rw [get?_extend_of_not_mem hnot, get?_insert, if_pos rfl]
        rfl
      | succ i =>
        exact ih _ hrest hi fun j hj => hlast (j + 1) (Nat.succ_lt_succ hj)

/-! ## Writing a dictionary that was itself written -/

/-- A write in place can be moved before writes to other keys. -/
theorem insert_extend {d more : Dict α} {key : String} (hkey : key ∈ d.keys)
    (hmore : key ∉ more.keys) (value : α) :
    (d.extend more).insert key value = (d.insert key value).extend more := by
  induction more generalizing d with
  | nil => rfl
  | cons entry rest ih =>
    rw [keys_cons, List.mem_cons, not_or] at hmore
    have hthere : key ∈ (d.insert entry.1 entry.2).keys :=
      mem_keys_insert.mpr (Or.inl hkey)
    rw [extend_cons, extend_cons, ih hthere hmore.2,
      insert_insert_of_mem hkey (Ne.symm hmore.1)]

/-- Writing a dictionary into which a key was written is writing the dictionary
and then the key. -/
theorem extend_insert {d e : Dict α} (he : e.Distinct) (key : String) (value : α) :
    d.extend (e.insert key value) = (d.extend e).insert key value := by
  induction e generalizing d with
  | nil => rfl
  | cons entry rest ih =>
    obtain ⟨k, v⟩ := entry
    have hrest := List.nodup_cons.mp he
    by_cases hk : k = key
    · subst hk
      have hthere : k ∈ (d.insert k v).keys := mem_keys_insert.mpr (Or.inr rfl)
      rw [Dict.insert, if_pos rfl, extend_cons, extend_cons,
        insert_extend hthere hrest.1, insert_insert_self]
    · rw [Dict.insert, if_neg hk, extend_cons, extend_cons, ih hrest.2]

/-- Writing a dictionary that was itself written over another is one writing
after the other. -/
theorem extend_extend {d e : Dict α} (he : e.Distinct) (more : Dict α) :
    d.extend (e.extend more) = (d.extend e).extend more := by
  induction more generalizing e with
  | nil => rfl
  | cons entry rest ih =>
    rw [extend_cons, ih (he.insert ..), extend_insert he, extend_cons]

/-- Writing entries one after the other is writing the dictionary that they
leave behind. -/
theorem extend_ofList (d : Dict α) (entries : List (String × α)) :
    d.extend (ofList entries) = d.extend entries :=
  extend_extend (e := []) List.nodup_nil entries

end Playbook.Dict
