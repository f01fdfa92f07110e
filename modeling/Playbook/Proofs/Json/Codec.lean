import Playbook.Json.Decode
import Playbook.Json.Printer
import Playbook.Proofs.Dict

/-!
# Playbook — data and its drafts

A draft that was made from data is decided already, and reading it as data gives
the data back unless an object in it repeats a key. Lists and dictionaries read
back if their parts do.

Main results:

* `settle_ofJson` — settling changes nothing.
* `Lossless.items`, `Lossless.fields` — what reads back has parts that read
  back, under distinct keys.
* `listOf_ofJson`, `dictOf_ofJson` — lists and dictionaries are read from what
  they were written as.
* `foldlM_recordStep_cons` — a record is read field by field.
* `listOf_keeps`, `dictOf_keeps`, `record_keeps` — what holds of everything that
  is read holds of what is put together.
-/

namespace Playbook

namespace Draft

/-! ## Settling -/

mutual
/-- Nothing in a draft of data is undecided. -/
theorem settle_ofJson : (j : Json) → (ofJson j).settle = .ok (ofJson j)
  | .null => rfl
  | .bool _ => rfl
  | .num _ => rfl
  | .str _ => rfl
  | .arr items => congrArg (Except.map arr) (settleItems_ofJson items)
  | .obj fields => congrArg (Except.map obj) (settleFields_ofJson fields)

theorem settleItems_ofJson : (js : List Json) →
    settleItems (ofJsonItems js) = .ok (ofJsonItems js)
  | [] => rfl
  | j :: js => by
    show ((ofJson j).settle.bind fun x =>
      (settleItems (ofJsonItems js)).map (x :: ·)) = _
    rw [settle_ofJson j, settleItems_ofJson js]
    rfl

theorem settleFields_ofJson : (js : List (String × Json)) →
    settleFields (ofJsonFields js) = .ok (ofJsonFields js)
  | [] => rfl
  | (k, j) :: js => by
    show ((ofJson j).settle.bind fun x =>
      (settleFields (ofJsonFields js)).map ((k, x) :: ·)) = _
    rw [settle_ofJson j, settleFields_ofJson js]
    rfl
end

theorem keys_ofJsonFields (js : List (String × Json)) :
    Dict.keys (ofJsonFields js) = Dict.keys js := by
  induction js with
  | nil => rfl
  | cons entry js ih => exact congrArg (entry.1 :: ·) ih

/-! ## Recognizing drafts of data -/

mutual
/-- Whether a draft is the one of given data. -/
def isOf : Draft → Json → Bool
  | null, .null => true
  | bool a, .bool b => a == b
  | num a, .num b => a == b
  | str a, .str b => a == b
  | arr items, .arr js => areOf items js
  | obj fields, .obj js => fieldsOf fields js
  | _, _ => false
termination_by structural d => d

def areOf : List Draft → List Json → Bool
  | [], [] => true
  | d :: ds, j :: js => isOf d j && areOf ds js
  | _, _ => false
termination_by structural ds => ds

def fieldsOf : List (String × Draft) → List (String × Json) → Bool
  | [], [] => true
  | (k, d) :: ds, (l, j) :: js => k == l && isOf d j && fieldsOf ds js
  | _, _ => false
termination_by structural ds => ds
end

mutual
theorem eq_ofJson_of_isOf : (d : Draft) → (j : Json) →
    d.isOf j = true → d = ofJson j
  | null, .null, _ => rfl
  | bool _, .bool _, h => congrArg bool (eq_of_beq h)
  | num _, .num _, h => congrArg num (eq_of_beq h)
  | str _, .str _, h => congrArg str (eq_of_beq h)
  | arr items, .arr js, h => congrArg arr (eq_ofJsonItems_of_areOf items js h)
  | obj fields, .obj js, h => congrArg obj (eq_ofJsonFields_of_fieldsOf fields js h)

theorem eq_ofJsonItems_of_areOf : (ds : List Draft) → (js : List Json) →
    areOf ds js = true → ds = ofJsonItems js
  | [], [], _ => rfl
  | d :: ds, j :: js, h => by
    have hboth : d.isOf j = true ∧ areOf ds js = true := by simpa [areOf] using h
    exact congrArg₂ List.cons (eq_ofJson_of_isOf d j hboth.1)
      (eq_ofJsonItems_of_areOf ds js hboth.2)

theorem eq_ofJsonFields_of_fieldsOf : (ds : List (String × Draft)) →
    (js : List (String × Json)) →
    fieldsOf ds js = true → ds = ofJsonFields js
  | [], [], _ => rfl
  | (k, d) :: ds, (l, j) :: js, h => by
    have hall : (k = l ∧ d.isOf j = true) ∧ fieldsOf ds js = true := by
      simpa [fieldsOf] using h
    exact congrArg₂ List.cons (Prod.ext hall.1.1 (eq_ofJson_of_isOf d j hall.1.2))
      (eq_ofJsonFields_of_fieldsOf ds js hall.2)
end

/-! ## Lists and dictionaries -/

variable {α : Type} {encode : α → Json} {read : Draft → Except Fault α}

theorem mapM_ofJsonItems {xs : List α}
    (h : ∀ x ∈ xs, read (ofJson (encode x)) = .ok x) :
    (ofJsonItems (xs.map encode)).mapM read = .ok xs := by
  induction xs with
  | nil => rfl
  | cons x xs ih =>
    show (ofJson (encode x) :: ofJsonItems (xs.map encode)).mapM read = _
    rw [List.mapM_cons, h x (List.mem_cons_self ..), ih fun y hy =>
      h y (List.mem_cons_of_mem _ hy)]
    rfl

/-- A list is read from the list of what its items are written as. -/
theorem listOf_ofJson {xs : List α}
    (h : ∀ x ∈ xs, read (ofJson (encode x)) = .ok x) :
    (ofJson (.arr (xs.map encode))).listOf read = .ok xs := mapM_ofJsonItems h

/-- A dictionary is read from the object of what its values are written as. -/
theorem dictOf_ofJson {d : Dict α} (hd : d.Distinct)
    (h : ∀ entry ∈ d, read (ofJson (encode entry.2)) = .ok entry.2) :
    (ofJson (.obj (d.mapValues encode))).dictOf read = .ok d := by
  -- the keys play no part until all values have been read
  have hfields : (ofJsonFields (d.mapValues encode)).mapM
      (fun entry : String × Draft => do return (entry.1, ← read entry.2)) =
      .ok d := by
    induction d with
    | nil => rfl
    | cons entry d ih =>
      have hhead := h entry (List.mem_cons_self ..)
      have htail := ih (List.nodup_cons.mp hd).2 fun e he =>
        h e (List.mem_cons_of_mem _ he)
      show ((entry.1, ofJson (encode entry.2)) :: ofJsonFields
        (Dict.mapValues encode d)).mapM _ = _
      rw [List.mapM_cons, hhead, htail]
      rfl
  show (do return Dict.ofList (← (ofJsonFields (d.mapValues encode)).mapM
    fun entry : String × Draft => do return (entry.1, ← read entry.2)) : Except
      Fault (Dict α)) = _
  rw [hfields]
  exact congrArg Except.ok (Dict.ofList_eq_self hd)

/-! ## Records -/

/-- The fields of a record are read one after the other. -/
theorem foldlM_recordStep_cons {σ : Type} {names : List (List String)}
    {write : σ → Nat → Draft → Except Fault σ} {asList : Bool}
    {state state' : σ} {seen : List Nat} {i : Nat} {value : Draft}
    (hi : seen.contains i = false) (hwrite : write state i value = .ok state')
    (rest : List (Option Nat × Draft)) :
    ((some i, value) :: rest).foldlM (recordStep names write asList) (state, seen) =
      rest.foldlM (recordStep names write asList) (state', i :: seen) := by
  have hstep : recordStep names write asList (state, seen) (some i, value) =
      .ok (state', i :: seen) := by
    unfold recordStep
    dsimp only
    rw [hi, hwrite]
    rfl
  rw [List.foldlM_cons, hstep]
  rfl

/-- A field that cannot be read ends the reading. -/
theorem foldlM_recordStep_error {σ : Type} {names : List (List String)}
    {write : σ → Nat → Draft → Except Fault σ} {asList : Bool} {state : σ}
    {seen : List Nat} {i : Nat} {value : Draft} {fault : Fault}
    (hi : seen.contains i = false) (hwrite : write state i value = .error fault)
    (rest : List (Option Nat × Draft)) :
    ((some i, value) :: rest).foldlM (recordStep names write asList)
      (state, seen) = .error fault := by
  have hstep : recordStep names write asList (state, seen) (some i, value) =
      .error fault := by
    unfold recordStep
    dsimp only
    rw [hi, hwrite]
    rfl
  rw [List.foldlM_cons, hstep]
  rfl

/-! ## What was read -/

/-- A result that was computed with another came from one. -/
theorem bind_ok {ε β γ : Type} {x : Except ε β} {f : β → Except ε γ} {c : γ}
    (h : x >>= f = .ok c) :
    ∃ b, x = .ok b ∧ f b = .ok c := by
  cases x with
  | error e => cases h
  | ok b => exact ⟨b, rfl, h⟩

theorem map_ok {ε β γ : Type} {x : Except ε β} {f : β → γ} {c : γ}
    (h : x.map f = .ok c) :
    ∃ b, x = .ok b ∧ f b = c := by
  cases x with
  | error e => cases h
  | ok b =>
    cases h
    exact ⟨b, rfl, rfl⟩

theorem mapM_keeps {β γ : Type} {f : β → Except Fault γ} {P : γ → Prop}
    (hf : ∀ b c, f b = .ok c → P c) {bs : List β} {cs : List γ}
    (h : bs.mapM f = .ok cs) : ∀ c ∈ cs, P c := by
  induction bs generalizing cs with
  | nil =>
    cases h
    simp
  | cons b bs ih =>
    rw [List.mapM_cons] at h
    obtain ⟨c, hc, htail⟩ := bind_ok h
    obtain ⟨rest, hrest, hcons⟩ := bind_ok htail
    cases hcons
    intro c' hc'
    rcases List.mem_cons.mp hc' with rfl | hmem
    · exact hf b c' hc
    · exact ih hrest c' hmem

/-- What every step of a fold keeps is kept by the fold. -/
theorem foldlM_keeps {β σ : Type} {f : σ → β → Except Fault σ} {P : σ → Prop}
    (hf : ∀ s b s', P s → f s b = .ok s' → P s') {bs : List β} {s s' : σ}
    (hs : P s) (h : bs.foldlM f s = .ok s') :
    P s' := by
  induction bs generalizing s with
  | nil =>
    cases h
    exact hs
  | cons b bs ih =>
    rw [List.foldlM_cons] at h
    obtain ⟨next, hnext, hrest⟩ := bind_ok h
    exact ih (hf s b next hs hnext) hrest

/-- What holds of everything that is read holds of the items of a list. -/
theorem listOf_keeps {P : α → Prop} (hread : ∀ d x, read d = .ok x → P x)
    {d : Draft} {xs : List α} (h : d.listOf read = .ok xs) : ∀ x ∈ xs, P x := by
  obtain ⟨items, -, hitems⟩ := bind_ok h
  exact mapM_keeps hread hitems

/-- What holds of everything that is read holds of the values of a dictionary,
whose keys are distinct. -/
theorem dictOf_keeps {P : α → Prop} (hread : ∀ d x, read d = .ok x → P x)
    {d : Draft} {e : Dict α} (h : d.dictOf read = .ok e) :
    e.Distinct ∧ ∀ entry ∈ e, P entry.2 := by
  obtain ⟨fields, -, hfields⟩ := bind_ok h
  obtain ⟨entries, hentries, hlist⟩ := bind_ok hfields
  cases hlist
  have hvalues : ∀ entry ∈ entries, P entry.2 := by
    refine mapM_keeps (fun field entry hentry => ?_) hentries
    obtain ⟨value, hvalue, hpair⟩ := bind_ok hentry
    cases hpair
    exact hread _ value hvalue
  refine ⟨Dict.distinct_ofList entries, fun entry hentry => ?_⟩
  rcases Dict.mem_extend hentry with hnil | hmem
  · cases hnil
  · exact hvalues entry hmem

/-- What holds of everything that is read holds of a value that may be absent. -/
theorem optional_keeps {P : α → Prop} (hread : ∀ d x, read d = .ok x → P x)
    {d : Draft} {found : Option α} (h : d.optional read = .ok found) :
    ∀ x ∈ found, P x := by
  have hsome : ∀ d, (read d).map some = .ok found → ∀ x ∈ found, P x := by
    intro d hmap x hx
    obtain ⟨y, hy, rfl⟩ := map_ok hmap
    cases hx
    exact hread d _ hy
  unfold optional at h
  split at h
  · cases h
    simp
  · split at h
    · cases h
      simp
    · exact hsome _ h
  · exact hsome _ h

section Records

variable {σ : Type} {P : σ → Prop} {names : List (List String)}
  {write : σ → Nat → Draft → Except Fault σ}

theorem recordStep_keeps
    (hwrite : ∀ s i value s', P s → write s i value = .ok s' → P s')
    {asList : Bool} {acc acc' : σ × List Nat} {entry : Option Nat × Draft}
    (hacc : P acc.1) (h : recordStep names write asList acc entry = .ok acc') :
    P acc'.1 := by
  unfold recordStep at h
  split at h
  · split at h
    · cases h
    · obtain ⟨s, hs, rfl⟩ := map_ok h
      exact hwrite acc.1 _ entry.2 s hacc hs
  -- a field that does not belong to the record changes nothing
  · split at h
    · cases h
    · obtain ⟨-, -, rfl⟩ := map_ok h
      exact hacc

/-- What the reading of every field keeps is kept by the reading of a record. -/
theorem record_keeps {needed : List Nat} {start state : σ} {d : Draft}
    (hstart : P start)
    (hwrite : ∀ s i value s', P s → write s i value = .ok s' → P s')
    (h : d.record names needed start write = .ok state) : P state := by
  obtain ⟨entries, -, hentries⟩ := bind_ok h
  obtain ⟨acc, hacc, hneeded⟩ := bind_ok hentries
  have hkept : P acc.1 :=
    foldlM_keeps (P := fun acc => P acc.1) (fun _ _ _ hs hstep =>
      recordStep_keeps hwrite hs hstep) hstart hacc
  dsimp only at hneeded
  split at hneeded
  · cases hneeded
    exact hkept
  · cases hneeded

end Records

end Draft

namespace Json

/-! ## Data that reads back -/

/-- Reading the data as a draft gives it back: no object in it repeats a key. -/
def Lossless (j : Json) : Prop := (Draft.ofJson j).toJson = .ok j

/-- The text of the data reads back as the data. -/
def ReadsBack (j : Json) : Prop :=
  Draft.ofJsonText j.pretty = (Draft.ofJson j, true) ∧ j.Lossless

/-- Reads the text of the data and compares. -/
def readsBack (j : Json) : Bool :=
  let (draft, atEnd) := Draft.ofJsonText j.pretty
  draft.isOf j && atEnd && decide ((Draft.ofJson j).toJson = .ok j)

theorem readsBack_of_eq_true {j : Json} (h : j.readsBack = true) : j.ReadsBack := by
  unfold readsBack at h
  rw [Bool.and_eq_true, Bool.and_eq_true, decide_eq_true_eq] at h
  exact ⟨Prod.ext (Draft.eq_ofJson_of_isOf _ _ h.1.1) h.1.2, h.2⟩

/-- Two results that were put together came from two results. -/
theorem bind_map_ok {ε α β γ : Type} {x : Except ε α} {y : Except ε β}
    {f : α → β → γ} {c : γ} (h : (x.bind fun a => y.map (f a)) = .ok c) :
    ∃ a b, x = .ok a ∧ y = .ok b ∧ c = f a b := by
  cases x with
  | error e => cases h
  | ok a =>
    cases y with
    | error e => cases h
    | ok b =>
      cases h
      exact ⟨a, b, rfl, rfl, rfl⟩

theorem toJsonItems_cons_ok {d : Draft} {ds : List Draft} {js : List Json}
    (h : Draft.toJsonItems (d :: ds) = .ok js) :
    ∃ x xs, d.toJson = .ok x ∧ Draft.toJsonItems ds = .ok xs ∧ js = x :: xs :=
  bind_map_ok (f := fun x xs => x :: xs) h

theorem toJsonFields_cons_ok {key : String} {d : Draft}
    {ds : List (String × Draft)} {js : List (String × Json)}
    (h : Draft.toJsonFields ((key, d) :: ds) = .ok js) :
    ∃ x xs, d.toJson = .ok x ∧ Draft.toJsonFields ds = .ok xs ∧
    js = (key, x) :: xs :=
  bind_map_ok (f := fun x xs => (key, x) :: xs) h

theorem lossless_of_toJsonItems {js : List Json}
    (h : Draft.toJsonItems (Draft.ofJsonItems js) = .ok js) :
    ∀ j ∈ js, j.Lossless := by
  induction js with
  | nil => simp
  | cons j js ih =>
    obtain ⟨x, xs, hx, hxs, heq⟩ := toJsonItems_cons_ok h
    obtain ⟨rfl, rfl⟩ := List.cons.inj heq
    intro k hk
    rcases List.mem_cons.mp hk with rfl | hrest
    · exact hx
    · exact ih hxs k hrest

theorem Lossless.items {js : List Json} (h : (arr js).Lossless) :
    ∀ j ∈ js, j.Lossless := by
  have h' : (Draft.toJsonItems (Draft.ofJsonItems js)).map arr = .ok (arr js) := h
  cases hjs : Draft.toJsonItems (Draft.ofJsonItems js) with
  | error fault =>
    rw [hjs] at h'
    cases h'
  | ok xs =>
    rw [hjs] at h'
    cases h'
    exact lossless_of_toJsonItems hjs

theorem keys_toJsonFields {ds : List (String × Draft)}
    {fields : List (String × Json)} (h : Draft.toJsonFields ds = .ok fields) :
    Dict.keys fields = Dict.keys ds := by
  induction ds generalizing fields with
  | nil =>
    cases h
    rfl
  | cons entry ds ih =>
    obtain ⟨x, xs, -, hxs, rfl⟩ := toJsonFields_cons_ok h
    exact congrArg (entry.1 :: ·) (ih hxs)

theorem lossless_of_toJsonFields {js : List (String × Json)}
    (h : Draft.toJsonFields (Draft.ofJsonFields js) = .ok js) :
    ∀ entry ∈ js, entry.2.Lossless := by
  induction js with
  | nil => simp
  | cons first js ih =>
    obtain ⟨key, value⟩ := first
    obtain ⟨x, xs, hx, hxs, heq⟩ := toJsonFields_cons_ok h
    obtain ⟨hfirst, rfl⟩ := List.cons.inj heq
    cases hfirst
    intro entry hentry
    rcases List.mem_cons.mp hentry with rfl | hrest
    · exact hx
    · exact ih hxs entry hrest

theorem Lossless.fields {js : List (String × Json)} (h : (obj js).Lossless) :
    Dict.Distinct js ∧ ∀ entry ∈ js, entry.2.Lossless := by
  have h' : (Draft.toJsonFields (Draft.ofJsonFields js)).map (fun fields =>
      obj (Dict.ofList fields)) =
      .ok (obj js) := h
  cases hjs : Draft.toJsonFields (Draft.ofJsonFields js) with
  | error fault =>
    rw [hjs] at h'
    cases h'
  | ok xs =>
    rw [hjs] at h'
    -- an object that repeats a key would have become shorter
    have hlist : Dict.ofList xs = js := by
      cases h'
      rfl
    have hdistinct : Dict.Distinct js := hlist ▸ Dict.distinct_ofList xs
    have hkeys : Dict.keys xs = Dict.keys js :=
      (keys_toJsonFields hjs).trans (Draft.keys_ofJsonFields js)
    have hxs : Dict.Distinct xs := (Dict.distinct_congr hkeys).mpr hdistinct
    rw [Dict.ofList_eq_self hxs] at hlist
    exact ⟨hdistinct, lossless_of_toJsonFields (hlist ▸ hjs)⟩

/-- A list of data is read as it is. -/
theorem Lossless.listOf {js : List Json} (h : (arr js).Lossless) :
    (Draft.ofJson (arr js)).listOf Draft.toJson = .ok js := by
  have hread : (Draft.ofJson (arr (js.map id))).listOf Draft.toJson = .ok js :=
    Draft.listOf_ofJson h.items
  rwa [List.map_id] at hread

/-- An object of data is read as it is. -/
theorem Lossless.dictOf {js : Dict Json} (h : (obj js).Lossless) :
    (Draft.ofJson (obj js)).dictOf Draft.toJson = .ok js := by
  have hread : (Draft.ofJson (obj (js.mapValues id))).dictOf
      Draft.toJson = .ok js :=
    Draft.dictOf_ofJson h.fields.1 h.fields.2
  have hid : Dict.mapValues id js = js := List.map_id js
  rwa [hid] at hread

end Json

end Playbook
