import Playbook.Proofs.Value

/-!
# Playbook — equality of values

Two values are alike if they have the same structure: equal leaves, the same
item, lists with like items in the same places, or mappings with the same keys
and like values under them, in whatever order. Structure is seen through
`Value.sequence?` and `Value.mapping?` only, so that it does not matter in which
form a list or mapping is held. Equality of values compares each form by its own
rules and takes different forms for different. For values that can come about it
says nevertheless exactly which are alike, since like values have items in the
same places and so are of one form.

Main results:

* `Value.handles_of_alike` — like values both have items in them or both have none.
* `Value.same_iff_alike` — sound values are equal exactly if they are alike.
* `Value.one_form` — what all this means for values that can come about.
-/

namespace Playbook

namespace Value

/-- The values have the same structure with equal leaves. -/
inductive Alike : Value → Value → Prop
  | null : Alike (json .null) (json .null)
  | bool (b : Bool) : Alike (json (.bool b)) (json (.bool b))
  | integer (n : Int) : Alike (json (.num (.integer n))) (json (.num (.integer n)))
  | real {x y : Double} (h : x.same y = true) :
      Alike (json (.num (.real x))) (json (.num (.real y)))
  | str (s : String) : Alike (json (.str s)) (json (.str s))
  | item {h k : Handle} (hslot : h.slot = k.slot) : Alike (item h) (item k)
  | sequence {v w : Value} {xs ys : List Value} (hv : v.sequence? = some xs)
    (hw : w.sequence? = some ys)
    (hlength : xs.length = ys.length)
    (hparts : ∀ (i : Nat) x y, xs[i]? = some x → ys[i]? = some y → Alike x y) :
    Alike v w
  | mapping {v w : Value} {d e : Dict Value} (hv : v.mapping? = some d)
    (hw : w.mapping? = some e)
    (hkeys : ∀ key, key ∈ d.keys ↔ key ∈ e.keys)
    (hentries : ∀ key x y, d.get? key = some x → e.get? key = some y →
      Alike x y) : Alike v w

theorem mapping?_of_sequence? {v : Value} {parts : List Value}
    (h : v.sequence? = some parts) : v.mapping? = none := by
  cases v with
  | list items => rfl
  | json j =>
    cases j with
    | arr items => rfl
    | _ => cases h
  | _ => cases h

theorem alike_sequence_iff {v w : Value} {xs : List Value}
    (hv : v.sequence? = some xs) :
    Alike v w ↔ ∃ ys, w.sequence? = some ys ∧ xs.length = ys.length ∧
      ∀ (i : Nat) x y, xs[i]? = some x → ys[i]? = some y → Alike x y := by
  constructor
  · intro h
    cases h with
    | sequence hv' hw hlength hparts =>
      rw [hv] at hv'
      cases hv'
      exact ⟨_, hw, hlength, hparts⟩
    | mapping hv' =>
      rw [mapping?_of_sequence? hv] at hv'
      cases hv'
    | _ => cases hv
  · rintro ⟨ys, hw, hlength, hparts⟩
    exact .sequence hv hw hlength hparts

theorem alike_mapping_iff {v w : Value} {d : Dict Value}
    (hv : v.mapping? = some d) :
    Alike v w ↔ ∃ e, w.mapping? = some e ∧ (∀ key, key ∈ d.keys ↔ key ∈ e.keys) ∧
      ∀ key x y, d.get? key = some x → e.get? key = some y → Alike x y := by
  constructor
  · intro h
    cases h with
    | sequence hv' =>
      rw [mapping?_of_sequence? hv'] at hv
      cases hv
    | mapping hv' hw hkeys hentries =>
      rw [hv] at hv'
      cases hv'
      exact ⟨_, hw, hkeys, hentries⟩
    | _ => cases hv
  · rintro ⟨e, hw, hkeys, hentries⟩
    exact .mapping hv hw hkeys hentries

/-! ## Items in like values -/

/-- What is so in all places of a list is so in all places of another of that
length, if it passes from place to place. -/
theorem forall_of_places {P Q : Value → Prop} {xs ys : List Value}
    (hlength : xs.length = ys.length)
    (h : ∀ (i : Nat) x y, xs[i]? = some x → ys[i]? = some y → P x → Q y)
    (hall : ∀ x ∈ xs, P x) : ∀ y ∈ ys, Q y := by
  intro y hmem
  obtain ⟨i, hi⟩ := List.mem_iff_getElem?.mp hmem
  have hlt : i < xs.length := hlength ▸ (List.getElem?_eq_some_iff.mp hi).1
  exact h i xs[i] y (List.getElem?_eq_getElem hlt) hi
    (hall _ (List.getElem_mem hlt))

theorem forall_of_keys {P Q : Value → Prop} {d e : Dict Value} (he : e.Distinct)
    (hkeys : ∀ key ∈ e.keys, key ∈ d.keys)
    (h : ∀ key x y, d.get? key = some x → e.get? key = some y → P x → Q y)
    (hall : ∀ entry ∈ d, P entry.2) :
    ∀ entry ∈ e, Q entry.2 := by
  rintro ⟨key, y⟩ hmem
  obtain ⟨x, hx⟩ := Dict.exists_get?_of_mem_keys
    (hkeys key (Dict.mem_keys_of_mem hmem))
  exact h key x y hx (Dict.get?_of_mem he hmem)
    (hall (key, x) (Dict.mem_of_get? hx))

/-- Of like values both have items in them, or both have none. -/
theorem handles_of_alike {v w : Value} (h : Alike v w) (hv : v.Sound)
    (hw : w.Sound) : v.handles = [] ↔ w.handles = [] := by
  induction h with
  | item => exact iff_of_false (List.cons_ne_nil _ _) (List.cons_ne_nil _ _)
  | @sequence v w xs ys hxs hys hlength _ ih =>
    have hplaces : ∀ (i : Nat) x y, xs[i]? = some x → ys[i]? = some y →
        (x.handles = [] ↔ y.handles = []) :=
      fun i x y hx hy =>
        ih i x y hx hy (hv.of_sequence? hxs x (List.mem_of_getElem? hx))
          (hw.of_sequence? hys y (List.mem_of_getElem? hy))
    rw [handles_of_sequence? hxs, handles_of_sequence? hys, itemHandles_eq_nil,
      itemHandles_eq_nil]
    constructor
    · exact forall_of_places hlength fun i x y hx hy => (hplaces i x y hx hy).mp
    · exact forall_of_places hlength.symm fun i y x hy hx =>
        (hplaces i x y hx hy).mpr
  | @mapping v w d e hd he hkeys _ ih =>
    obtain ⟨hdKeys, hdEntries⟩ := hv.of_mapping? hd
    obtain ⟨heKeys, heEntries⟩ := hw.of_mapping? he
    have hentries : ∀ key x y, d.get? key = some x → e.get? key = some y →
        (x.handles = [] ↔ y.handles = []) :=
      fun key x y hx hy => ih key x y hx hy
        (hdEntries (key, x) (Dict.mem_of_get? hx))
      (heEntries (key, y) (Dict.mem_of_get? hy))
    rw [handles_of_mapping? hd, handles_of_mapping? he, entryHandles_eq_nil,
      entryHandles_eq_nil]
    constructor
    · exact forall_of_keys heKeys (fun key => (hkeys key).mpr)
        fun key x y hx hy => (hentries key x y hx hy).mp
    · exact forall_of_keys hdKeys (fun key => (hkeys key).mp)
        fun key y x hy hx => (hentries key x y hx hy).mpr
  | _ => exact Iff.rfl

/-- A value without items is like no value with some. -/
theorem not_alike_of_handles {v w : Value} (hv : v.Sound) (hw : w.Sound)
    (hnone : v.handles = []) (hsome : w.handles ≠ []) :
    ¬ Alike v w ∧ ¬ Alike w v :=
  ⟨fun h => hsome ((handles_of_alike h hv hw).mp hnone), fun h =>
    hsome ((handles_of_alike h hw hv).mpr hnone)⟩

/-! ## Comparing parts -/

theorem sameItems_iff {xs ys : List Value} :
    sameItems xs ys = true ↔ xs.length = ys.length ∧
    ∀ (i : Nat) x y, xs[i]? = some x → ys[i]? = some y → x.same y = true := by
  induction xs generalizing ys with
  | nil => cases ys <;> simp [sameItems]
  | cons x xs ih =>
    cases ys with
    | nil => simp [sameItems]
    | cons y ys =>
      rw [sameItems, Bool.and_eq_true, ih, List.length_cons, List.length_cons,
        Nat.add_right_cancel_iff]
      constructor
      · rintro ⟨hfirst, hlength, hrest⟩
        refine ⟨hlength, fun i a b ha hb => ?_⟩
        cases i with
        | zero =>
          cases ha
          cases hb
          exact hfirst
        | succ i => exact hrest i a b ha hb
      · rintro ⟨hlength, hall⟩
        exact ⟨hall 0 x y rfl rfl, hlength, fun i a b => hall (i + 1) a b⟩

theorem sameEntries_iff {d e : Dict Value} :
    sameEntries d e = true ↔ ∀ key x, (key, x) ∈ d →
    ∃ y, e.get? key = some y ∧ x.same y = true := by
  induction d with
  | nil => simp [sameEntries]
  | cons entry d ih =>
    obtain ⟨k, v⟩ := entry
    rw [sameEntries, Bool.and_eq_true, ih]
    cases hget : e.get? k with
    | none =>
      refine iff_of_false (fun h => Bool.noConfusion h.1) fun hall => ?_
      obtain ⟨y, hy, -⟩ := hall k v (List.mem_cons_self ..)
      rw [hget] at hy
      cases hy
    | some y =>
      constructor
      · rintro ⟨hfirst, hrest⟩ key x hmem
        rcases List.mem_cons.mp hmem with heq | hold
        · cases heq
          exact ⟨y, hget, hfirst⟩
        · exact hrest key x hold
      · intro hall
        obtain ⟨y', hy', hfirst⟩ := hall k v (List.mem_cons_self ..)
        rw [hget] at hy'
        cases hy'
        exact ⟨hfirst, fun key x hmem => hall key x (List.mem_cons_of_mem _ hmem)⟩

/-- Lists whose parts are compared rightly are. -/
theorem same_places_iff {xs ys : List Value}
    (h : ∀ x ∈ xs, ∀ y ∈ ys, (x.same y = true ↔ Alike x y)) :
    sameItems xs ys = true ↔ xs.length = ys.length ∧
      ∀ (i : Nat) x y, xs[i]? = some x → ys[i]? = some y → Alike x y := by
  rw [sameItems_iff]
  refine and_congr_right fun _ => forall_congr' fun i => forall₂_congr fun x y => ?_
  refine forall₂_congr fun hx hy =>
    h x (List.mem_of_getElem? hx) y (List.mem_of_getElem? hy)

/-- Mappings whose values are compared rightly are. -/
theorem same_entries_iff {d e : Dict Value} (hd : d.Distinct) (he : e.Distinct)
    (h : ∀ x ∈ d, ∀ y ∈ e, (x.2.same y.2 = true ↔ Alike x.2 y.2)) :
    (d.length == e.length && sameEntries d e) = true ↔
      (∀ key, key ∈ d.keys ↔ key ∈ e.keys) ∧
      ∀ key x y, d.get? key = some x → e.get? key = some y → Alike x y := by
  rw [Bool.and_eq_true, beq_iff_eq, sameEntries_iff, ← Dict.same_keys_iff hd he]
  constructor
  · rintro ⟨hsize, hall⟩
    refine ⟨⟨hsize, fun key hkey => ?_⟩, fun key x y hx hy => ?_⟩
    · obtain ⟨x, hx⟩ := Dict.exists_get?_of_mem_keys hkey
      obtain ⟨y, hy, -⟩ := hall key x (Dict.mem_of_get? hx)
      exact Dict.mem_keys_of_get? hy
    · obtain ⟨y', hy', hsame⟩ := hall key x (Dict.mem_of_get? hx)
      rw [hy] at hy'
      cases hy'
      exact (h (key, x) (Dict.mem_of_get? hx) (key, y) (Dict.mem_of_get? hy)).mp
        hsame
  · rintro ⟨⟨hsize, hkeys⟩, hall⟩
    refine ⟨hsize, fun key x hmem => ?_⟩
    obtain ⟨y, hy⟩ := Dict.exists_get?_of_mem_keys
      (hkeys key (Dict.mem_keys_of_mem hmem))
    have halike := hall key x y (Dict.get?_of_mem hd hmem) hy
    exact ⟨y, hy, (h (key, x) hmem (key, y) (Dict.mem_of_get? hy)).mpr halike⟩

/-! ## Plain data -/

/-- Lists of plain data are compared as lists of values. -/
theorem sameItems_plain (as bs : List Json) :
    sameItems (as.map json) (bs.map json) = Json.sameItems as bs := by
  induction as generalizing bs with
  | nil => cases bs <;> rfl
  | cons a as ih =>
    cases bs with
    | nil => rfl
    | cons b bs =>
      show (same (json a) (json b) && sameItems (as.map json) (bs.map json)) =
        (a.same b && Json.sameItems as bs)
      rw [ih]
      rfl

theorem sameEntries_plain (as bs : List (String × Json)) :
    sameEntries (Dict.mapValues json as) (Dict.mapValues json bs) =
    Json.sameFields as bs := by
  induction as with
  | nil => rfl
  | cons field as ih =>
    obtain ⟨k, a⟩ := field
    show sameEntries ((k, json a) :: Dict.mapValues json as)
      (Dict.mapValues json bs) = _
    rw [sameEntries, ih, Dict.get?_mapValues, Json.sameFields]
    cases Dict.get? bs k <;> rfl

mutual
/-- Plain data is equal as data exactly if it is alike. -/
theorem same_iff_alike_json : (a : Json) → {b : Json} → a.keysOnce = true →
    b.keysOnce = true →
    (a.same b = true ↔ Alike (json a) (json b))
  | .null, b, _, _ => by
    constructor
    · intro h
      cases b with
      | null => exact .null
      | _ => cases h
    · intro h
      cases h with
      | null => rfl
      | sequence hv => cases hv
      | mapping hv => cases hv
  | .bool x, b, _, _ => by
    constructor
    · intro h
      cases b with
      | bool y =>
        cases beq_iff_eq.mp h
        exact .bool x
      | _ => cases h
    · intro h
      cases h with
      | bool => exact beq_self_eq_true x
      | sequence hv => cases hv
      | mapping hv => cases hv
  | .num n, b, _, _ => by
    constructor
    · intro h
      cases b with
      | num m =>
        cases n with
        | integer i =>
          cases m with
          | integer k =>
            cases beq_iff_eq.mp h
            exact .integer i
          | real y => cases h
        | real x =>
          cases m with
          | integer k => cases h
          | real y => exact .real h
      | _ => cases h
    · intro h
      cases h with
      | integer i => exact beq_self_eq_true i
      | real h => exact h
      | sequence hv => cases hv
      | mapping hv => cases hv
  | .str s, b, _, _ => by
    constructor
    · intro h
      cases b with
      | str t =>
        cases beq_iff_eq.mp h
        exact .str s
      | _ => cases h
    · intro h
      cases h with
      | str => exact beq_self_eq_true s
      | sequence hv => cases hv
      | mapping hv => cases hv
  | .arr as, b, ha, hb => by
    have hself : (json (.arr as)).sequence? = some (as.map json) := rfl
    rw [alike_sequence_iff hself]
    cases b with
    | arr bs =>
      have hparts : ∀ x ∈ as.map json, ∀ y ∈ bs.map json,
          (x.same y = true ↔ Alike x y) := by
        intro x hx y hy
        obtain ⟨a, hmem, rfl⟩ := List.mem_map.mp hx
        obtain ⟨b, hmem', rfl⟩ := List.mem_map.mp hy
        exact same_iff_alike_items as a hmem (Json.keysOnce_arr.mp ha a hmem)
          (Json.keysOnce_arr.mp hb b hmem')
      show Json.sameItems as bs = true ↔ _
      rw [← sameItems_plain, same_places_iff hparts]
      constructor
      · intro h
        exact ⟨bs.map json, rfl, h⟩
      · rintro ⟨ys, hys, h⟩
        cases hys
        exact h
    | _ =>
      exact iff_of_false (fun h => Bool.noConfusion h)
        fun ⟨_, hys, _⟩ => by cases hys
  | .obj as, b, ha, hb => by
    have hself : (json (.obj as)).mapping? = some (Dict.mapValues json as) := rfl
    rw [alike_mapping_iff hself]
    cases b with
    | obj bs =>
      obtain ⟨haKeys, haFields⟩ := Json.keysOnce_obj.mp ha
      obtain ⟨hbKeys, hbFields⟩ := Json.keysOnce_obj.mp hb
      have hparts : ∀ x ∈ Dict.mapValues json as, ∀ y ∈ Dict.mapValues json bs,
          (x.2.same y.2 = true ↔ Alike x.2 y.2) := by
        intro x hx y hy
        obtain ⟨a, hmem, rfl⟩ := List.mem_map.mp hx
        obtain ⟨b, hmem', rfl⟩ := List.mem_map.mp hy
        exact same_iff_alike_fields as a hmem (haFields a hmem) (hbFields b hmem')
      have hsame := same_entries_iff (Dict.distinct_mapValues.mpr haKeys)
          (Dict.distinct_mapValues.mpr hbKeys) hparts
      rw [sameEntries_plain, Dict.length_mapValues, Dict.length_mapValues] at hsame
      show (as.length == bs.length && Json.sameFields as bs) = true ↔ _
      rw [hsame]
      constructor
      · intro h
        exact ⟨Dict.mapValues json bs, rfl, h⟩
      · rintro ⟨e, he, h⟩
        cases he
        exact h
    | _ =>
      exact iff_of_false (fun h => Bool.noConfusion h)
        fun ⟨_, hys, _⟩ => by cases hys

theorem same_iff_alike_items : (as : List Json) →
    ∀ a ∈ as, ∀ {b : Json}, a.keysOnce = true → b.keysOnce = true →
    (a.same b = true ↔ Alike (json a) (json b))
  | [], _, h, _ => (List.not_mem_nil h).elim
  | x :: as, a, h, _ => by
    rcases List.mem_cons.mp h with heq | hrest
    · rw [heq]
      exact same_iff_alike_json x
    · exact same_iff_alike_items as a hrest

theorem same_iff_alike_fields : (as : List (String × Json)) →
    ∀ a ∈ as, ∀ {b : Json}, a.2.keysOnce = true →
    b.keysOnce = true → (a.2.same b = true ↔ Alike (json a.2) (json b))
  | [], _, h, _ => (List.not_mem_nil h).elim
  | (k, x) :: as, a, h, _ => by
    rcases List.mem_cons.mp h with heq | hrest
    · rw [heq]
      exact same_iff_alike_json x
    · exact same_iff_alike_fields as a hrest
end

/-! ## All values -/

/-- Values are equal exactly if they are alike. -/
theorem same_iff_alike {v w : Value} (hv : v.Sound) (hw : w.Sound) :
    v.same w = true ↔ Alike v w := by
  induction hv generalizing w with
  | @json j hj =>
    cases hw with
    | @json k hk => exact same_iff_alike_json j hj hk
    -- the other forms have items in them, so they are not alike
    | item h =>
      exact iff_of_false Bool.false_ne_true
        (not_alike_of_handles (.json hj) (.item h) rfl (List.cons_ne_nil _ _)).1
    | list hitems hsome =>
      exact iff_of_false Bool.false_ne_true
        (not_alike_of_handles (.json hj) (.list hitems hsome) rfl hsome).1
    | map hentries hkeys hsome =>
      exact iff_of_false Bool.false_ne_true
        (not_alike_of_handles (.json hj)
          (.map hentries hkeys hsome) rfl hsome).1
  | item h =>
    constructor
    · intro hsame
      cases w with
      | item k => exact .item (beq_iff_eq.mp hsame)
      | _ => cases hsame
    · intro halike
      cases halike with
      | item hslot => exact beq_iff_eq.mpr hslot
      | sequence hs => cases hs
      | mapping hm => cases hm
  | @list xs hxs hsome ih =>
    have hself : (list xs).sequence? = some xs := rfl
    rw [alike_sequence_iff hself]
    have hv : (list xs).Sound := .list hxs hsome
    cases hw with
    | @json k hk =>
      refine iff_of_false Bool.false_ne_true fun ⟨ys, hys, hlike⟩ => ?_
      exact (not_alike_of_handles (.json hk) hv rfl hsome).2
        ((alike_sequence_iff hself).mpr ⟨ys, hys, hlike⟩)
    | @list ys hys _ =>
      show sameItems xs ys = true ↔ _
      rw [same_places_iff fun x hx y hy => ih x hx (hys y hy)]
      constructor
      · intro h
        exact ⟨ys, rfl, h⟩
      · rintro ⟨zs, hzs, h⟩
        cases hzs
        exact h
    | _ => exact iff_of_false Bool.false_ne_true fun ⟨_, hys, _⟩ => by cases hys
  | @map d hd hkeys hsome ih =>
    have hself : (map d).mapping? = some d := rfl
    rw [alike_mapping_iff hself]
    have hv : (map d).Sound := .map hd hkeys hsome
    cases hw with
    | @json k hk =>
      refine iff_of_false Bool.false_ne_true fun ⟨e, he, hlike⟩ => ?_
      exact (not_alike_of_handles (.json hk) hv rfl hsome).2
        ((alike_mapping_iff hself).mpr ⟨e, he, hlike⟩)
    | @map e he hkeys' _ =>
      show (d.length == e.length && sameEntries d e) = true ↔ _
      rw [same_entries_iff hkeys hkeys' fun x hx y hy => ih x hx (he y hy)]
      constructor
      · intro h
        exact ⟨e, rfl, h⟩
      · rintro ⟨f, hf, h⟩
        cases hf
        exact h
    | _ => exact iff_of_false Bool.false_ne_true fun ⟨_, he, _⟩ => by cases he

/-- **Each value has one form.** A value that can come about is plain data
exactly if no item occurs in it. It is equal to another exactly if both have the
same structure with equal leaves. Lists and mappings give back what they are
built of, and building one again from its parts gives the same value. Navigation
finds the same in the value as in the value with its items replaced by their
names, up to that replacement. -/
theorem one_form {v : Value} (hv : v.Obtained) :
    ((∃ j, json j = v) ↔ v.handles = []) ∧
      (∀ w : Value, w.Obtained → (v.same w = true ↔ Alike v w)) ∧
      ((∀ parts, (ofList parts).sequence? = some parts) ∧
        (∀ entries, (ofMap entries).mapping? = some entries) ∧
        (∀ parts, v.sequence? = some parts → ofList parts = v) ∧ ∀ entries,
        v.mapping? = some entries → ofMap entries = v) ∧
      ∀ segment, (v.child? segment).map lossy =
      ((json v.lossy).child? segment).map lossy := by
  have hsound := sound_of_obtained hv
  refine ⟨hsound.plain_iff, fun w hw =>
    same_iff_alike hsound (sound_of_obtained hw),
    ⟨sequence?_ofList, mapping?_ofMap, ?_, ?_⟩,
    lossy_child? v⟩
  · exact fun parts hparts => hsound.ofList_of_sequence? hparts
  · exact fun entries hentries => hsound.ofMap_of_mapping? hentries

/-- A list with an item in it is not plain data, but what is taken
out of it may be. -/
theorem one_form_of_item_and_list :
    (∀ j, json j ≠ ofList [item ⟨"db", 0⟩, ofList [json (.bool true)]]) ∧
      ofList [ofList [json (.bool true)]] = json (.arr [.arr [.bool true]]) ∧
      ((ofList [item ⟨"db", 0⟩, ofList [json (.bool true)]]).child? "0").map
      lossy = some (.str "@db") := by
  have hlist : (ofList [json (.bool true)]).Obtained := .list fun v hv => by
    cases List.mem_singleton.mp hv
    exact .json rfl
  have hpair : (ofList [item ⟨"db", 0⟩, ofList [json (.bool true)]]).Obtained :=
    .list fun v hv => by
    rcases List.mem_cons.mp hv with rfl | hv
    · exact .item _
    · cases List.mem_singleton.mp hv
      exact hlist
  obtain ⟨hplain, -, -, hchild⟩ := one_form hpair
  refine ⟨fun j hj => ?_, rfl, ?_⟩
  · exact absurd (hplain.mp ⟨j, hj⟩) (List.cons_ne_nil _ _)
  · rw [hchild]
    rfl

end Value

end Playbook
