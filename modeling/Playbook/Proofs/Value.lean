import Mathlib.Data.Set.List
import Playbook.Proofs.Congruence
import Playbook.Proofs.Json.Distinct
import Playbook.Proofs.Output
import Playbook.Proofs.Sequence

/-!
# Playbook — one form for the same data

A list or mapping can be held in two ways: as plain data, or as a list or
mapping of values. The builders take the second way only if an item occurs in
it, so that among the values that can come about (`Obtained`) each has one form:
taking a value apart and building it again gives the same value, equality need
not look across the forms, and navigation finds in a value what it finds in the
value with its items replaced by their names.

Main results:

* `Value.sound_of_obtained` — no value that can come about is a list or mapping
  without an item, or repeats a key.
* `Value.ofList_of_sequence?`, `Value.ofMap_of_mapping?` — building a value
  again from its parts.
* `Value.lossy_child?` — navigation does not depend on the form.
-/

namespace Playbook

namespace Value

/-! ## Items in parts -/

theorem itemHandles_eq_nil {vs : List Value} :
    itemHandles vs = [] ↔ ∀ v ∈ vs, v.handles = [] := by
  induction vs with
  | nil => simp [itemHandles]
  | cons v vs ih => simp [itemHandles, ih]

theorem entryHandles_eq_nil {entries : Dict Value} :
    entryHandles entries = [] ↔ ∀ entry ∈ entries, entry.2.handles = [] := by
  induction entries with
  | nil => simp [entryHandles]
  | cons entry entries ih => simp [entryHandles, ih]

/-- The items in a list are those in its parts. -/
theorem handles_of_sequence? {v : Value} {parts : List Value}
    (h : v.sequence? = some parts) :
    v.handles = itemHandles parts := by
  cases v with
  | list items =>
    cases h
    rfl
  | json j =>
    cases j with
    | arr items =>
      cases h
      have hnone : itemHandles (items.map json) = [] :=
        itemHandles_eq_nil.mpr fun v hv => by
        obtain ⟨j, -, rfl⟩ := List.mem_map.mp hv
        rfl
      exact hnone.symm
    | _ => cases h
  | _ => cases h

/-- The items in a mapping are those in its entries. -/
theorem handles_of_mapping? {v : Value} {entries : Dict Value}
    (h : v.mapping? = some entries) :
    v.handles = entryHandles entries := by
  cases v with
  | map items =>
    cases h
    rfl
  | json j =>
    cases j with
    | obj fields =>
      cases h
      have hnone : entryHandles (Dict.mapValues json fields) = [] :=
        entryHandles_eq_nil.mpr fun entry hentry => by
        obtain ⟨field, -, rfl⟩ := List.mem_map.mp hentry
        rfl
      exact hnone.symm
    | _ => cases h
  | _ => cases h

/-! ## Builders -/

theorem mapM_json?_eq_some {items : List Value} {plain : List Json} :
    items.mapM json? = some plain ↔ items = plain.map json := by
  constructor
  · intro h
    induction items generalizing plain with
    | nil =>
      cases h
      rfl
    | cons v items ih =>
      rw [List.mapM_cons] at h
      obtain ⟨first, hfirst, hothers⟩ := Option.bind_eq_some_iff.mp h
      obtain ⟨rest, hrest, heq⟩ := Option.bind_eq_some_iff.mp hothers
      cases heq
      cases v with
      | json j =>
        cases hfirst
        exact congrArg (json first :: ·) (ih hrest)
      | _ => cases hfirst
  · rintro rfl
    induction plain with
    | nil => rfl
    | cons j plain ih =>
      rw [List.map_cons, List.mapM_cons, ih]
      rfl

theorem plainEntries?_eq_some {entries : Dict Value}
    {plain : List (String × Json)} :
    plainEntries? entries = some plain ↔ entries = Dict.mapValues json plain := by
  refine ⟨fun h => (mapValues_plainEntries h).symm, ?_⟩
  rintro rfl
  induction plain with
  | nil => rfl
  | cons field plain ih =>
    obtain ⟨key, j⟩ := field
    unfold plainEntries? at ih ⊢
    show List.mapM _ ((key, json j) :: Dict.mapValues json plain) = _
    rw [List.mapM_cons, ih]
    rfl

/-- Values that are all plain data are plain data, wrapped. -/
theorem exists_plain {items : List Value} (h : ∀ v ∈ items, ∃ j, json j = v) :
    ∃ plain : List Json, items = plain.map json := by
  have hrange : items ∈ Set.range (List.map json) := by
    rw [Set.range_list_map]
    exact h
  obtain ⟨plain, hplain⟩ := hrange
  exact ⟨plain, hplain.symm⟩

theorem exists_plainEntries {entries : Dict Value}
    (h : ∀ entry ∈ entries, ∃ j, json j = entry.2) :
    ∃ plain, entries = Dict.mapValues json plain := by
  have hrange : entries ∈ Set.range (List.map fun field : String × Json =>
      (field.1, json field.2)) := by
    rw [Set.range_list_map]
    intro entry hentry
    obtain ⟨j, hj⟩ := h entry hentry
    exact ⟨(entry.1, j), Prod.ext rfl hj⟩
  obtain ⟨plain, hplain⟩ := hrange
  exact ⟨plain, hplain.symm⟩

theorem ofList_plain (plain : List Json) :
    ofList (plain.map json) = json (.arr plain) := by
  unfold ofList
  rw [mapM_json?_eq_some.mpr rfl]

theorem ofMap_plain (plain : List (String × Json)) :
    ofMap (Dict.mapValues json plain) = json (.obj plain) := by
  unfold ofMap
  rw [plainEntries?_eq_some.mpr rfl]

/-- A list with an item in it is not plain data. -/
theorem ofList_of_handles {items : List Value} (h : itemHandles items ≠ []) :
    ofList items = list items := by
  unfold ofList
  cases hplain : items.mapM json? with
  | none => rfl
  | some plain =>
    rw [mapM_json?_eq_some.mp hplain] at h
    exact absurd (handles_of_sequence? (v := json (.arr plain)) rfl).symm h

theorem ofMap_of_handles {entries : Dict Value}
    (h : entryHandles entries ≠ []) : ofMap entries = map entries := by
  unfold ofMap
  cases hplain : plainEntries? entries with
  | none => rfl
  | some plain =>
    rw [plainEntries?_eq_some.mp hplain] at h
    exact absurd (handles_of_mapping? (v := json (.obj plain)) rfl).symm h

/-- A list gives back the items it was made of, in whichever form it is. -/
theorem sequence?_ofList (items : List Value) :
    (ofList items).sequence? = some items := by
  unfold ofList
  cases hplain : items.mapM json? with
  | none => rfl
  | some plain => exact congrArg some (mapM_json?_eq_some.mp hplain).symm

/-! ## Sound values -/

/-- No list or mapping of values is without an item, and no
mapping repeats a key. -/
inductive Sound : Value → Prop
  | json {j : Json} (honce : j.keysOnce = true) : Sound (json j)
  | item (h : Handle) : Sound (item h)
  | list {items : List Value} (hitems : ∀ v ∈ items, Sound v)
      (hsome : itemHandles items ≠ []) : Sound (list items)
  | map {entries : Dict Value} (hentries : ∀ entry ∈ entries, Sound entry.2)
    (hkeys : entries.Distinct)
    (hsome : entryHandles entries ≠ []) : Sound (map entries)

namespace Sound

variable {v : Value} (hv : v.Sound)

include hv

/-- A sound value without items is plain data. -/
theorem plain_iff : (∃ j, Value.json j = v) ↔ v.handles = [] := by
  refine ⟨fun ⟨j, hj⟩ => hj ▸ rfl, fun hnone => ?_⟩
  cases hv with
  | @json j _ => exact ⟨j, rfl⟩
  | item h => cases hnone
  | list _ hsome => exact absurd hnone hsome
  | map _ _ hsome => exact absurd hnone hsome

theorem of_sequence? {parts : List Value} (h : v.sequence? = some parts) :
    ∀ part ∈ parts, part.Sound := by
  cases hv with
  | @json j honce =>
    cases j with
    | arr items =>
      cases h
      intro part hpart
      obtain ⟨j, hj, rfl⟩ := List.mem_map.mp hpart
      exact .json (Json.keysOnce_arr.mp honce j hj)
    | _ => cases h
  | list hitems _ =>
    cases h
    exact hitems
  | _ => cases h

theorem of_mapping? {entries : Dict Value} (h : v.mapping? = some entries) :
    entries.Distinct ∧ ∀ entry ∈ entries, entry.2.Sound := by
  cases hv with
  | @json j honce =>
    cases j with
    | obj fields =>
      cases h
      obtain ⟨hkeys, hfields⟩ := Json.keysOnce_obj.mp honce
      refine ⟨Dict.distinct_mapValues.mpr hkeys, fun entry hentry => ?_⟩
      obtain ⟨field, hfield, rfl⟩ := List.mem_map.mp hentry
      exact .json (hfields field hfield)
    | _ => cases h
  | map hentries hkeys _ =>
    cases h
    exact ⟨hkeys, hentries⟩
  | _ => cases h

/-- Building a list again from its parts gives the list. -/
theorem ofList_of_sequence? {parts : List Value}
    (h : v.sequence? = some parts) : ofList parts = v := by
  cases hv with
  | @json j _ =>
    cases j with
    | arr items =>
      cases h
      exact ofList_plain items
    | _ => cases h
  | list _ hsome =>
    cases h
    exact ofList_of_handles hsome
  | _ => cases h

/-- Building a mapping again from its entries gives the mapping. -/
theorem ofMap_of_mapping? {entries : Dict Value}
    (h : v.mapping? = some entries) : ofMap entries = v := by
  cases hv with
  | @json j _ =>
    cases j with
    | obj fields =>
      cases h
      exact ofMap_plain fields
    | _ => cases h
  | map _ _ hsome =>
    cases h
    exact ofMap_of_handles hsome
  | _ => cases h

end Sound

theorem sound_ofList {items : List Value} (hitems : ∀ v ∈ items, v.Sound) :
    (ofList items).Sound := by
  by_cases hnone : itemHandles items = []
  · have hplain : ∀ v ∈ items, ∃ j, json j = v := fun v hv =>
      (hitems v hv).plain_iff.mpr (itemHandles_eq_nil.mp hnone v hv)
    obtain ⟨plain, rfl⟩ := exists_plain hplain
    rw [ofList_plain]
    refine .json (Json.keysOnce_arr.mpr fun j hj => ?_)
    cases hitems (json j) (List.mem_map_of_mem hj) with
    | json honce => exact honce
  · rw [ofList_of_handles hnone]
    exact .list hitems hnone

theorem sound_ofMap {entries : Dict Value} (hkeys : entries.Distinct)
    (hentries : ∀ entry ∈ entries, entry.2.Sound) :
    (ofMap entries).Sound := by
  by_cases hnone : entryHandles entries = []
  · have hplain : ∀ entry ∈ entries, ∃ j, json j = entry.2 := fun entry hentry =>
      (hentries entry hentry).plain_iff.mpr
        (entryHandles_eq_nil.mp hnone entry hentry)
    obtain ⟨plain, rfl⟩ := exists_plainEntries hplain
    rw [ofMap_plain]
    refine .json (Json.keysOnce_obj.mpr
      ⟨Dict.distinct_mapValues.mp hkeys, fun field hfield => ?_⟩)
    cases hentries (field.1, json field.2) (List.mem_map_of_mem hfield) with
    | json honce => exact honce
  · rw [ofMap_of_handles hnone]
    exact .map hentries hkeys hnone

/-! ## Navigation -/

/-- A step of navigation leads to a part of a list or to an entry of a mapping. -/
theorem child?_cases {v c : Value} {segment : String}
    (h : v.child? segment = some c) :
    (∃ parts, v.sequence? = some parts ∧ c ∈ parts) ∨
      ∃ entries, v.mapping? = some entries ∧ entries.get? segment = some c := by
  cases v with
  | item i => cases h
  | list items =>
    obtain ⟨index, -, hindex⟩ := Option.bind_eq_some_iff.mp h
    exact Or.inl ⟨items, rfl, List.mem_of_getElem? hindex⟩
  | map entries => exact Or.inr ⟨entries, rfl, h⟩
  | json j =>
    cases j with
    | arr items =>
      obtain ⟨part, hpart, rfl⟩ := Option.map_eq_some_iff.mp h
      obtain ⟨index, -, hindex⟩ := Option.bind_eq_some_iff.mp hpart
      exact Or.inl ⟨items.map json, rfl,
        List.mem_map_of_mem (List.mem_of_getElem? hindex)⟩
    | obj fields =>
      exact Or.inr ⟨Dict.mapValues json fields,
        rfl, by rw [Dict.get?_mapValues]; exact h⟩
    | _ => cases h

theorem Sound.of_child? {v c : Value} {segment : String} (hv : v.Sound)
    (h : v.child? segment = some c) : c.Sound := by
  rcases child?_cases h with ⟨parts, hparts, hc⟩ | ⟨entries, hentries, hc⟩
  · exact hv.of_sequence? hparts c hc
  · exact (hv.of_mapping? hentries).2 (segment, c) (Dict.mem_of_get? hc)

theorem lossyItems_eq_map (vs : List Value) : lossyItems vs = vs.map lossy := by
  induction vs with
  | nil => rfl
  | cons v vs ih => rw [lossyItems, ih, List.map_cons]

theorem lossyEntries_eq_mapValues (entries : Dict Value) :
    lossyEntries entries = Dict.mapValues lossy entries := by
  induction entries with
  | nil => rfl
  | cons entry entries ih =>
    rw [lossyEntries, ih]
    rfl

/-- Navigation finds in a value what it finds in the value with its items
replaced by their names. -/
theorem lossy_child? (v : Value) (segment : String) :
    (v.child? segment).map lossy = ((json v.lossy).child? segment).map lossy := by
  cases v with
  | json j => rfl
  | item i => rfl
  | list items =>
    show ((Text.readWord? segment.toList).bind (items[·]?)).map lossy =
      (((Text.readWord? segment.toList).bind ((lossyItems items)[·]?)).map
        json).map lossy
    rw [lossyItems_eq_map]
    cases Text.readWord? segment.toList with
    | none => rfl
    | some index => simp [Function.comp_def, lossy]
  | map entries =>
    show (Dict.get? entries segment).map lossy =
      ((Dict.get? (lossyEntries entries) segment).map json).map lossy
    rw [lossyEntries_eq_mapValues, Dict.get?_mapValues]
    simp [Function.comp_def, lossy]

/-! ## Values that can come about -/

mutual
/-- The values that come about from plain data and items by building, navigating
and taking apart, and by what namespaces give back. -/
inductive Obtained : Value → Prop
  | json {j : Json} (honce : j.keysOnce = true) : Obtained (json j)
  | item (h : Handle) : Obtained (item h)
  | list {items : List Value} (hitems : ∀ v ∈ items, Obtained v) :
      Obtained (ofList items)
  | map {entries : Dict Value} (hkeys : entries.Distinct)
    (hentries : ∀ entry ∈ entries, Obtained entry.2) :
    Obtained (ofMap entries)
  | child {v c : Value} {segment : String} (hv : Obtained v)
      (h : v.child? segment = some c) : Obtained c
  | part {v c : Value} {parts : List Value} (hv : Obtained v)
      (h : v.sequence? = some parts) (hc : c ∈ parts) : Obtained c
  | entry {v c : Value} {entries : Dict Value} {key : String} (hv : Obtained v)
    (h : v.mapping? = some entries)
    (hc : (key, c) ∈ entries) : Obtained c
  | named {n : Namespace} {v : Value} {key : String} (hn : Held n)
      (h : n.get? key = some v) : Obtained v
  | found {n : Namespace} {v : Value} {path : String} (hn : Held n)
      (h : n.lookup path = some v) : Obtained v
  | resolved {n : Namespace} {r : Registry} {v : Value} {token : Json}
    (hn : Held n) (honce : token.keysOnce = true)
    (h : n.resolve r token = .ok v) : Obtained v

/-- The namespaces that come about by writing and binding such values, also
where a binding fails. -/
inductive Held : Namespace → Prop
  | new : Held []
  | insert {n : Namespace} {v : Value} (hn : Held n) (key : String)
      (hv : Obtained v) : Held (n.insert key v)
  | bind {n : Namespace} {v : Value} (hn : Held n) (output : OutputSpec)
      (hv : Obtained v) : Held (n.bind output v).2
end

/-- Following a path leads from a sound value to a sound value. -/
theorem Sound.of_follow {v c : Value} (hv : v.Sound) {steps : List String}
    (h : Namespace.follow v steps = some c) :
    c.Sound := by
  induction steps generalizing v with
  | nil =>
    cases h
    exact hv
  | cons step steps ih =>
    obtain ⟨inner, hinner, hrest⟩ := Option.bind_eq_some_iff.mp h
    exact ih (hv.of_child? hinner) hrest

end Value

namespace Namespace

/-- All values of a namespace are sound. -/
def Sound (n : Namespace) : Prop := ∀ entry ∈ n, entry.2.Sound

theorem Sound.of_lookup {n : Namespace} (hn : n.Sound) {path : String}
    {v : Value} (h : n.lookup path = some v) :
    v.Sound := by
  unfold lookup at h
  cases hget : n.get? path with
  | some value =>
    rw [hget] at h
    cases h
    exact hn (path, v) (Dict.mem_of_get? hget)
  | none =>
    rw [hget] at h
    cases hsegments : segments path with
    | nil =>
      rw [hsegments] at h
      cases h
    | cons first rest =>
      rw [hsegments] at h
      obtain ⟨root, hroot, hfollow⟩ := Option.bind_eq_some_iff.mp h
      exact (hn _ (Dict.mem_of_get? hroot)).of_follow hfollow

theorem Sound.of_resolve {n : Namespace} (hn : n.Sound) {r : Registry}
    {token : Json} (honce : token.keysOnce = true) {v : Value}
    (h : n.resolve r token = .ok v) : v.Sound := by
  cases token with
  | str text =>
    unfold resolve at h
    dsimp only at h
    split at h
    · -- an item
      rename_i name _
      cases hget : r.get (String.ofList name) with
      | error failure =>
        rw [hget] at h
        cases h
      | ok handle =>
        rw [hget] at h
        cases h
        exact .item handle
    · -- a path
      split at h
      · next value hvalue =>
        cases h
        exact hn.of_lookup hvalue
      · cases h
    · cases h
      exact .json honce
  | _ =>
    cases h
    exact .json honce

/-- What an output writes are parts of the value that it is given, or the value. -/
theorem sound_of_mem_written {output : OutputSpec} {v : Value} (hv : v.Sound)
    {entry : String × Value} (h : entry ∈ output.written v) :
    entry.2.Sound := by
  have hparts : ∀ {pairs : List (String × Value)}, entry ∈ Dict.ofList pairs →
      entry ∈ pairs := fun hmem =>
    (Dict.mem_extend hmem).resolve_left List.not_mem_nil
  have hentries : ∀ {e : String × Value}, e ∈ v.mapping?.getD [] → e.2.Sound := by
    intro e he
    cases hmapping : v.mapping? with
    | none =>
      rw [hmapping] at he
      cases he
    | some entries =>
      rw [hmapping] at he
      exact (hv.of_mapping? hmapping).2 e he
  cases output with
  | name key =>
    cases List.mem_singleton.mp h
    exact hv
  | names names =>
    unfold OutputSpec.written at h
    cases hsequence : v.sequence? with
    | none =>
      rw [hsequence] at h
      exact hentries (mem_of_mem_taken (hparts h)).2
    | some parts =>
      rw [hsequence] at h
      dsimp only at h
      split at h
      · cases h
      · exact hv.of_sequence? hsequence _ (List.of_mem_zip (hparts h)).2
  | copyDict enabled =>
    cases enabled with
    | false => cases h
    | true => exact hentries (hparts h)

theorem Sound.bind {n : Namespace} (hn : n.Sound) (output : OutputSpec)
    {v : Value} (hv : v.Sound) :
    Sound (n.bind output v).2 := by
  rw [bind_eq]
  intro entry hentry
  rcases Dict.mem_extend hentry with hold | hnew
  · exact hn entry hold
  · exact sound_of_mem_written hv hnew

end Namespace

namespace Value

mutual
theorem sound_of_obtained : {v : Value} → Obtained v → v.Sound
  | _, .json honce => .json honce
  | _, .item h => .item h
  | _, .list hitems => sound_ofList fun v hv => sound_of_obtained (hitems v hv)
  | _, .map hkeys hentries => sound_ofMap hkeys fun entry hentry =>
    sound_of_obtained (hentries entry hentry)
  | _, .child hv h => (sound_of_obtained hv).of_child? h
  | _, .part hv h hc => (sound_of_obtained hv).of_sequence? h _ hc
  | _, .entry hv h hc => ((sound_of_obtained hv).of_mapping? h).2 _ hc
  | _, .named hn h => sound_of_held hn _ (Dict.mem_of_get? h)
  | _, .found hn h => (sound_of_held hn).of_lookup h
  | _, .resolved hn honce h => (sound_of_held hn).of_resolve honce h

theorem sound_of_held : {n : Namespace} → Held n → n.Sound
  | _, .new => fun _ h => (List.not_mem_nil h).elim
  | _, .insert hn key hv => fun entry hentry => by
    rcases Dict.mem_insert hentry with rfl | hold
    · exact sound_of_obtained hv
    · exact sound_of_held hn entry hold
  | _, .bind hn output hv => (sound_of_held hn).bind output (sound_of_obtained hv)
end

end Value

end Playbook
