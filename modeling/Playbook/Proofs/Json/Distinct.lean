import Playbook.Proofs.Json.Codec

/-!
# Playbook — data without repeated keys

An object of a document may repeat a key; the data that is made of it does not.
Data in which no object repeats a key is exactly the data that can be written
and read again without loss, and whether it is such data can be computed.

Main results:

* `keysOnce_of_toJson` — whatever is read from a draft has every key once.
* `lossless_iff_keysOnce` — data reads back if and only if no object
  in it repeats a key.
-/

namespace Playbook

namespace Json

mutual
/-- Whether no object in the data repeats a key. -/
def keysOnce : Json → Bool
  | arr items => itemsOnce items
  | obj fields => decide (Dict.Distinct fields) && fieldsOnce fields
  | _ => true
termination_by structural j => j

def itemsOnce : List Json → Bool
  | [] => true
  | j :: js => keysOnce j && itemsOnce js
termination_by structural js => js

def fieldsOnce : List (String × Json) → Bool
  | [] => true
  | (_, j) :: js => keysOnce j && fieldsOnce js
termination_by structural js => js
end

theorem itemsOnce_iff {js : List Json} :
    itemsOnce js = true ↔ ∀ j ∈ js, j.keysOnce = true := by
  induction js with
  | nil => simp [itemsOnce]
  | cons j js ih => simp [itemsOnce, ih]

theorem fieldsOnce_iff {js : List (String × Json)} :
    fieldsOnce js = true ↔ ∀ entry ∈ js, entry.2.keysOnce = true := by
  induction js with
  | nil => simp [fieldsOnce]
  | cons entry js ih => simp [fieldsOnce, ih]

theorem keysOnce_arr {js : List Json} :
    (arr js).keysOnce = true ↔ ∀ j ∈ js, j.keysOnce = true := itemsOnce_iff

theorem keysOnce_obj {js : List (String × Json)} :
    (obj js).keysOnce = true ↔ Dict.Distinct js ∧ ∀ entry ∈ js,
    entry.2.keysOnce = true := by
  rw [← fieldsOnce_iff, ← decide_eq_true_iff
    (p := Dict.Distinct js), ← Bool.and_eq_true]
  rfl

theorem keysOnce_ofStrings (texts : List String) :
    (ofStrings texts).keysOnce = true := by
  refine keysOnce_arr.mpr fun j hj => ?_
  obtain ⟨text, -, rfl⟩ := List.mem_map.mp hj
  rfl

/-! ## Data that was read -/

/-- Of the entries of an object that was read, the last under each key is left. -/
theorem keysOnce_ofList {entries : List (String × Json)}
    (h : ∀ entry ∈ entries, entry.2.keysOnce = true) :
    (obj (Dict.ofList entries)).keysOnce = true := by
  refine keysOnce_obj.mpr ⟨Dict.distinct_ofList entries, fun entry hentry => ?_⟩
  rcases Dict.mem_extend hentry with hnil | hmem
  · cases hnil
  · exact h entry hmem

mutual
/-- Whatever is read from a draft has every key once. -/
theorem keysOnce_of_toJson : {d : Draft} → {j : Json} → d.toJson = .ok j →
    j.keysOnce = true
  | .null, _, h | .bool _, _, h | .num _, _, h | .str _, _, h => by
    cases h
    rfl
  | .broken, _, h => by cases h
  | .plain text, j, h => by
    unfold Draft.toJson at h
    -- an unquoted scalar is read as a scalar
    split at h <;> cases h <;> rfl
  | .arr items, j, h => by
    cases hitems : Draft.toJsonItems items with
    | error fault =>
      simp only [Draft.toJson, hitems] at h
      cases h
    | ok js =>
      simp only [Draft.toJson, hitems] at h
      cases h
      exact keysOnce_arr.mpr (keysOnce_of_toJsonItems hitems)
  | .obj fields, j, h => by
    cases hfields : Draft.toJsonFields fields with
    | error fault =>
      simp only [Draft.toJson, hfields] at h
      cases h
    | ok js =>
      simp only [Draft.toJson, hfields] at h
      cases h
      exact keysOnce_ofList (keysOnce_of_toJsonFields hfields)

theorem keysOnce_of_toJsonItems : {ds : List Draft} → {js : List Json} →
    Draft.toJsonItems ds = .ok js →
    ∀ j ∈ js, j.keysOnce = true
  | [], _, h => by
    cases h
    simp
  | d :: ds, js, h => by
    obtain ⟨x, xs, hx, hxs, rfl⟩ := toJsonItems_cons_ok h
    intro j hj
    rcases List.mem_cons.mp hj with rfl | hrest
    · exact keysOnce_of_toJson hx
    · exact keysOnce_of_toJsonItems hxs j hrest

theorem keysOnce_of_toJsonFields : {ds : List (String × Draft)} →
    {js : List (String × Json)} →
    Draft.toJsonFields ds = .ok js → ∀ entry ∈ js, entry.2.keysOnce = true
  | [], _, h => by
    cases h
    simp
  | (key, d) :: ds, js, h => by
    obtain ⟨x, xs, hx, hxs, rfl⟩ := toJsonFields_cons_ok h
    intro entry hentry
    rcases List.mem_cons.mp hentry with rfl | hrest
    · exact keysOnce_of_toJson hx
    · exact keysOnce_of_toJsonFields hxs entry hrest
end

/-! ## Data that reads back -/

mutual
theorem lossless_of_keysOnce : (j : Json) → j.keysOnce = true → j.Lossless
  | .null, _ | .bool _, _ | .num _, _ | .str _, _ => rfl
  | .arr js, h => by
    have hitems := toJsonItems_of_itemsOnce js h
    show (Draft.toJsonItems (Draft.ofJsonItems js)).map arr = .ok (arr js)
    rw [hitems]
    rfl
  | .obj js, h => by
    obtain ⟨hdistinct, hvalues⟩ := keysOnce_obj.mp h
    have hfields := toJsonFields_of_fieldsOnce js (fieldsOnce_iff.mpr hvalues)
    show (Draft.toJsonFields (Draft.ofJsonFields js)).map (fun fields =>
      obj (Dict.ofList fields)) = .ok (obj js)
    rw [hfields]
    exact congrArg (fun fields => Except.ok (obj fields))
      (Dict.ofList_eq_self hdistinct)

theorem toJsonItems_of_itemsOnce : (js : List Json) → itemsOnce js = true →
    Draft.toJsonItems (Draft.ofJsonItems js) = .ok js
  | [], _ => rfl
  | j :: js, h => by
    have hboth : j.keysOnce = true ∧ itemsOnce js = true :=
      Bool.and_eq_true_iff.mp h
    have hhead : (Draft.ofJson j).toJson = .ok j := lossless_of_keysOnce j hboth.1
    show ((Draft.ofJson j).toJson.bind fun x =>
      (Draft.toJsonItems (Draft.ofJsonItems js)).map (x :: ·)) = _
    rw [hhead, toJsonItems_of_itemsOnce js hboth.2]
    rfl

theorem toJsonFields_of_fieldsOnce : (js : List (String × Json)) →
    fieldsOnce js = true →
    Draft.toJsonFields (Draft.ofJsonFields js) = .ok js
  | [], _ => rfl
  | (key, j) :: js, h => by
    have hboth : j.keysOnce = true ∧ fieldsOnce js = true :=
      Bool.and_eq_true_iff.mp h
    have hhead : (Draft.ofJson j).toJson = .ok j := lossless_of_keysOnce j hboth.1
    show ((Draft.ofJson j).toJson.bind fun x =>
      (Draft.toJsonFields (Draft.ofJsonFields js)).map ((key, x) :: ·)) = _
    rw [hhead, toJsonFields_of_fieldsOnce js hboth.2]
    rfl
end

/-- Data reads back if and only if no object in it repeats a key. -/
theorem lossless_iff_keysOnce {j : Json} : j.Lossless ↔ j.keysOnce = true :=
  ⟨keysOnce_of_toJson, lossless_of_keysOnce j⟩

end Json

end Playbook
