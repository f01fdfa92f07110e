import Playbook.Prototype
import Playbook.Proofs.Dict

/-!
# Playbook — accepted prototypes and the scripts made of them

A prototype that was accepted has a variable for the sentinel and at most one
that drives a batch. Its script is filled by token, but what a placeholder
becomes depends on the name in its token alone: if every variable has a text,
the script is the text of the prototype with every placeholder replaced by the
text of its name (`Prototype.filled`).

Main results:

* `Prototype.accepted_of_parse` — what accepting a prototype establishes.
* `Prototype.render_eq_filled` — the script of texts by name.
-/

namespace Playbook

/-! ## Tokens -/

namespace Template

theorem mem_firsts {x : String} {l : List String} : x ∈ firsts l ↔ x ∈ l := by
  induction l with
  | nil => rfl
  | cons y rest ih =>
    rw [firsts, List.mem_cons, List.mem_cons, List.mem_filter, ih]
    by_cases h : x = y
    · simp [h]
    · simp [h]

theorem mem_tokens {text : String} {token : List Char}
    (h : Piece.placeholder token ∈ pieces text) :
    String.ofList token ∈ tokens text := by
  rw [tokens, mem_firsts, List.mem_filterMap]
  exact ⟨_, h, rfl⟩

/-- What a piece becomes when every name has a text. -/
def Piece.fillBy (textOf : String → String) : Piece → List Char
  | char c => [c]
  | placeholder token => (textOf (Binding.parse (String.ofList token)).name).toList

end Template

namespace Prototype

/-! ## Variables -/

/-- What holds of a prototype that was accepted. -/
structure Accepted (p : Prototype) : Prop where
  tokens : p.tokens = (Template.tokens p.text).map Binding.parse
  bindings : p.bindings = index p.tokens
  touchfile : p.bindings.contains touchfile = true
  arrays : arrayNames p.bindings = p.arrayVariable.toList

theorem accepted_of_parse {subject text : String} {p : Prototype}
    (h : parse subject text = .ok p) :
    p.Accepted ∧ p.text = text := by
  unfold parse at h
  dsimp only at h
  split at h
  · cases h
  · next htouch =>
    split at h
    · next harrays =>
      cases h
      exact ⟨⟨rfl, rfl, by simpa using htouch, harrays⟩, rfl⟩
    · next name harrays =>
      cases h
      exact ⟨⟨rfl, rfl, by simpa using htouch, harrays⟩, rfl⟩
    · cases h

/-- A variable stands under its name and was read from one of the tokens. -/
theorem mem_index {tokens : List Binding} {name : String} {b : Binding}
    (h : (name, b) ∈ index tokens) :
    b.name = name ∧ b ∈ tokens := by
  rcases Dict.mem_extend h with hnil | hmem
  · cases hnil
  · obtain ⟨b', hb', heq⟩ := List.mem_map.mp hmem
    cases heq
    exact ⟨rfl, hb'⟩

theorem contains_index {tokens : List Binding} {b : Binding} (h : b ∈ tokens) :
    (index tokens).contains b.name = true := by
  rw [Dict.contains_eq_true]
  refine Dict.mem_keys_extend.mpr (Or.inr ?_)
  exact Dict.mem_keys_of_mem (List.mem_map.mpr ⟨b, h, rfl⟩)

namespace Accepted

variable {p : Prototype} (hp : p.Accepted)

include hp

theorem name_eq {name : String} {b : Binding}
    (h : p.bindings.get? name = some b) : b.name = name := by
  have hmem := Dict.mem_of_get? h
  rw [hp.bindings] at hmem
  exact (mem_index hmem).1

theorem distinct : p.bindings.Distinct := by
  rw [hp.bindings]
  exact Dict.distinct_ofList _

/-- Each of the variables is the one that stands under its name. -/
theorem get?_of_mem {b : Binding} (h : b ∈ p.bindings.values) :
    p.bindings.get? b.name = some b := by
  obtain ⟨⟨name, b'⟩, hmem, rfl⟩ := List.mem_map.mp h
  have hget := Dict.get?_of_mem hp.distinct hmem
  rwa [← hp.name_eq hget] at hget

/-- No two output files are declared under one name. -/
theorem nodup_fileOutputs : (p.fileOutputs.map (·.name)).Nodup := by
  have hkeys : p.bindings.values.map (·.name) = p.bindings.keys := by
    unfold Dict.values Dict.keys
    rw [List.map_map]
    refine List.map_congr_left fun entry hentry => ?_
    exact hp.name_eq (Dict.get?_of_mem hp.distinct hentry)
  have hsublist : (p.fileOutputs.map (·.name)).Sublist p.bindings.keys := by
    rw [← hkeys]
    exact List.filter_sublist.map _
  exact List.Nodup.sublist hsublist hp.distinct

theorem contains_of_token {token : String} (h : token ∈ Template.tokens p.text) :
    p.bindings.contains (Binding.parse token).name = true := by
  rw [hp.bindings]
  refine contains_index ?_
  rw [hp.tokens]
  exact List.mem_map_of_mem h

/-- The variable that drives a batch is one of the variables, and the only one
with the marker. -/
theorem isArray_iff {name : String} {b : Binding}
    (h : p.bindings.get? name = some b) :
    b.isArray = true ↔ p.arrayVariable = some name := by
  have hname := hp.name_eq h
  have hmem : (p.bindings.values.filter (·.isArray)).map (·.name) =
      p.arrayVariable.toList := hp.arrays
  constructor
  · intro harray
    have hvalue : b ∈ p.bindings.values :=
      List.mem_map.mpr ⟨_, Dict.mem_of_get? h, rfl⟩
    have hin : b.name ∈ p.arrayVariable.toList := by
      rw [← hmem]
      exact List.mem_map_of_mem (List.mem_filter.mpr ⟨hvalue, harray⟩)
    rw [hname] at hin
    simpa using hin
  · intro hvariable
    have hin : name ∈ (p.bindings.values.filter (·.isArray)).map (·.name) := by
      rw [hmem, hvariable]
      exact List.mem_singleton_self name
    obtain ⟨b', hb', heq⟩ := List.mem_map.mp hin
    obtain ⟨hvalue, harray⟩ := List.mem_filter.mp hb'
    have hget := hp.get?_of_mem hvalue
    rw [heq, h] at hget
    cases hget
    exact harray

theorem isArray_eq_false {name : String} {b : Binding}
    (h : p.bindings.get? name = some b)
    (hvariable : p.arrayVariable ≠ some name) : b.isArray = false := by
  rw [Bool.eq_false_iff]
  exact fun harray => hvariable ((hp.isArray_iff h).mp harray)

/-- The driving variable, if there is one, has a binding. -/
theorem get?_arrayVariable {v : String} (h : p.arrayVariable = some v) :
    ∃ b, p.bindings.get? v = some b := by
  have hin : v ∈ (p.bindings.values.filter (·.isArray)).map (·.name) := by
    have hmem : (p.bindings.values.filter (·.isArray)).map (·.name) =
        p.arrayVariable.toList := hp.arrays
    rw [hmem, h]
    exact List.mem_singleton_self v
  obtain ⟨b, hb, rfl⟩ := List.mem_map.mp hin
  exact ⟨b, hp.get?_of_mem (List.mem_filter.mp hb).1⟩

end Accepted

/-! ## Scripts -/

/-- The text of a prototype with every placeholder replaced by the text
of the name in it. -/
def filled (p : Prototype) (textOf : String → String) : String :=
  String.ofList ((Template.pieces p.text).flatMap (Template.Piece.fillBy textOf))

/-- All placeholders of one name have the text of that name, whatever else is in
their tokens. -/
theorem Accepted.get?_byToken {p : Prototype} (hp : p.Accepted)
    {texts : Dict String} {token text : String}
    (htoken : token ∈ Template.tokens p.text)
    (htext : texts.get? (Binding.parse token).name = some text) :
    (p.byToken texts).get? token = some text := by
  unfold byToken
  rw [hp.tokens]
  refine Dict.get?_ofList ?_ ?_
  · refine List.mem_filterMap.mpr ⟨Binding.parse token,
      List.mem_map_of_mem htoken, ?_⟩
    rw [htext]
    rfl
  · intro other hother
    obtain ⟨b, hb, heq⟩ := List.mem_filterMap.mp hother
    obtain ⟨token', -, rfl⟩ := List.mem_map.mp hb
    obtain ⟨value, hvalue, hpair⟩ := Option.map_eq_some_iff.mp heq
    -- the binding of a token keeps the token, so equal tokens have the same name
    obtain ⟨htoken', rfl⟩ := Prod.mk.inj hpair
    have hsame : token' = token := htoken'
    rw [hsame, htext] at hvalue
    exact (Option.some.inj hvalue).symm

/-- If every variable has a text, the script is the prototype with the texts in
place of the names. -/
theorem render_eq_filled {p : Prototype} (hp : p.Accepted) {texts : Dict String}
    {textOf : String → String}
    (h : ∀ name, p.bindings.contains name = true →
      texts.get? name = some (textOf name)) :
    p.render texts = p.filled textOf := by
  unfold render filled Template.fill
  congr 1
  refine List.flatMap_congr fun piece hpiece => ?_
  cases piece with
  | char c => rfl
  | placeholder token =>
    have htoken := Template.mem_tokens hpiece
    have hfound := hp.get?_byToken htoken (h _ (hp.contains_of_token htoken))
    rw [Template.Piece.fill, hfound]
    rfl

end Prototype

end Playbook
