import Playbook.Proofs.Prototype

/-!
# Playbook — which placeholder says what a variable is

One name may stand in many placeholders, with and without the array marker and
with different roles. Equal tokens count once, and of the tokens with one name
the last new one decides (`Prototype.deciding`): whether the variable drives a
batch and whether its value is returned. What the other tokens of the name say
is lost, and with it the refusal of a second driving variable.

Main results:

* `Prototype.refused_iff` — when a prototype is refused.
* `Prototype.arrayVariable_iff`, `Prototype.mem_outputs_iff` — what an accepted
  prototype takes from the deciding placeholders.
* `Prototype.deciding_mark_counts` — when every mark counts.
-/

namespace Playbook.Prototype

/-! ## Placeholders of a name -/

/-- What the placeholders of a text say, from left to right. -/
def placeholders (text : String) : List Binding :=
  ((Template.pieces text).filterMap Template.Piece.token?).map Binding.parse

/-- A placeholder of the name has the array marker. -/
def Marked (text name : String) : Prop :=
  ∃ b ∈ placeholders text, b.name = name ∧ b.isArray = true

/-- A placeholder of the name has an output role. -/
def Declared (text name : String) : Prop :=
  ∃ b ∈ placeholders text, b.name = name ∧ b.role.isOutput = true

/-- The placeholder that decides about a name: of those with the name, the one
whose token is the last to appear for the first time. -/
def deciding (text name : String) : Option Binding :=
  ((Template.tokens text).map Binding.parse).reverse.find? (·.name == name)

/-- The deciding placeholder of the name has the array marker. -/
def Drives (text name : String) : Prop :=
  ∃ b, deciding text name = some b ∧ b.isArray = true

/-- The deciding placeholder of the name has an output role. -/
def Returned (text name : String) : Prop :=
  ∃ b, deciding text name = some b ∧ b.role.isOutput = true

/-- Equal tokens say the same, so it does not matter that they
are kept once only. -/
theorem mem_placeholders {text : String} {b : Binding} :
    b ∈ placeholders text ↔ b ∈ (Template.tokens text).map Binding.parse := by
  unfold placeholders Template.tokens
  simp only [List.mem_map, Template.mem_firsts]

theorem of_deciding {text name : String} {b : Binding}
    (h : deciding text name = some b) :
    b ∈ placeholders text ∧ b.name = name := by
  have hmem := List.mem_of_find?_eq_some h
  have hname := List.find?_some h
  exact ⟨mem_placeholders.mpr (List.mem_reverse.mp hmem), by simpa using hname⟩

theorem Drives.marked {text name : String} :
    Drives text name → Marked text name := by
  rintro ⟨b, hb, harray⟩
  obtain ⟨hmem, hname⟩ := of_deciding hb
  exact ⟨b, hmem, hname, harray⟩

theorem Returned.declared {text name : String} :
    Returned text name → Declared text name := by
  rintro ⟨b, hb, hrole⟩
  obtain ⟨hmem, hname⟩ := of_deciding hb
  exact ⟨b, hmem, hname, hrole⟩

/-! ## Variables by name -/

theorem get?_map_name (tokens : List Binding) (name : String) :
    Dict.get? (tokens.map fun b => (b.name, b)) name =
    tokens.find? (·.name == name) := by
  induction tokens with
  | nil => rfl
  | cons b rest ih =>
    rw [List.map_cons, Dict.get?, ih]
    by_cases hb : b.name = name
    · rw [if_pos hb, List.find?_cons_of_pos (by simpa using hb)]
    · rw [if_neg hb, List.find?_cons_of_neg (by simpa using hb)]

/-- Under a name stands the last of its bindings. -/
theorem get?_index (tokens : List Binding) (name : String) :
    (index tokens).get? name = tokens.reverse.find? (·.name == name) := by
  unfold index Dict.ofList
  rw [Dict.get?_extend, ← List.map_reverse, get?_map_name, Dict.get?_nil,
    Option.or_none]

theorem contains_index_iff {tokens : List Binding} {name : String} :
    (index tokens).contains name = true ↔ ∃ b ∈ tokens, b.name = name := by
  constructor
  · intro h
    obtain ⟨b, hb⟩ := Option.isSome_iff_exists.mp h
    obtain ⟨hname, hmem⟩ := mem_index (Dict.mem_of_get? hb)
    exact ⟨b, hmem, hname⟩
  · rintro ⟨b, hmem, rfl⟩
    exact contains_index hmem

/-- A variable is among those of a kind exactly if the last
binding of its name is. -/
theorem mem_names_filter {tokens : List Binding} {kind : Binding → Bool}
    {name : String} :
    name ∈ ((index tokens).values.filter kind).map (·.name) ↔
      ∃ b, tokens.reverse.find? (·.name == name) = some b ∧ kind b = true := by
  rw [← get?_index]
  constructor
  · intro h
    obtain ⟨b, hb, rfl⟩ := List.mem_map.mp h
    obtain ⟨hvalue, hkind⟩ := List.mem_filter.mp hb
    obtain ⟨⟨key, b'⟩, hentry, rfl⟩ := List.mem_map.mp hvalue
    refine ⟨b', ?_, hkind⟩
    rw [(mem_index hentry).1]
    exact Dict.get?_of_mem (Dict.distinct_ofList _) hentry
  · rintro ⟨b, hb, hkind⟩
    have hentry := Dict.mem_of_get? hb
    have hvalue : b ∈ (index tokens).values := List.mem_map.mpr ⟨_, hentry, rfl⟩
    exact List.mem_map.mpr ⟨b, List.mem_filter.mpr ⟨hvalue, hkind⟩,
      (mem_index hentry).1⟩

theorem map_name_values (tokens : List Binding) :
    (index tokens).values.map (·.name) = (index tokens).keys := by
  unfold Dict.values Dict.keys
  rw [List.map_map]
  exact List.map_congr_left fun entry hentry => (mem_index hentry).1

theorem nodup_names_filter (tokens : List Binding) (kind : Binding → Bool) :
    (((index tokens).values.filter kind).map (·.name)).Nodup := by
  have hkeys : ((index tokens).values.map (·.name)).Nodup :=
    map_name_values tokens ▸ Dict.distinct_ofList _
  exact hkeys.sublist (List.filter_sublist.map _)

/-! ## Accepted and refused prototypes -/

/-- **When a prototype is refused.** It is refused exactly if it has no
placeholder for the sentinel, or if the deciding placeholders of two names have
the array marker. -/
theorem refused_iff (subject text : String) :
    (∃ failure, parse subject text = .error failure) ↔
      (∀ b ∈ placeholders text, b.name ≠ touchfile) ∨
      ∃ a b, a ≠ b ∧ Drives text a ∧ Drives text b := by
  have htouch : (index ((Template.tokens text).map Binding.parse)).contains
      touchfile = true ↔
      ¬ ∀ b ∈ placeholders text, b.name ≠ touchfile := by
    rw [contains_index_iff]
    push Not
    simp only [mem_placeholders]
  have hdrives : ∀ name, name ∈ arrayNames
      (index ((Template.tokens text).map Binding.parse)) ↔ Drives text name :=
    fun name => mem_names_filter
  have hnodup :
      (arrayNames (index ((Template.tokens text).map Binding.parse))).Nodup :=
    nodup_names_filter _ _
  unfold parse
  dsimp only
  generalize index ((Template.tokens text).map Binding.parse) =
    bindings at htouch hdrives hnodup
  by_cases hsome : bindings.contains touchfile = true
  · have hthere : ¬ ∀ b ∈ placeholders text, b.name ≠ touchfile := htouch.mp hsome
    rw [if_neg (by simp [hsome])]
    -- what is left depends on how many names have the marker
    cases hlist : arrayNames bindings with
    | nil =>
      rw [hlist] at hdrives
      refine iff_of_false (fun ⟨_, h⟩ => by cases h) (not_or.mpr ⟨hthere, ?_⟩)
      rintro ⟨a, -, -, ha, -⟩
      cases (hdrives a).mpr ha
    | cons a rest =>
      cases rest with
      | nil =>
        rw [hlist] at hdrives
        refine iff_of_false (fun ⟨_, h⟩ => by cases h) (not_or.mpr ⟨hthere, ?_⟩)
        rintro ⟨b, c, hne, hb, hc⟩
        have hba : b = a := List.mem_singleton.mp ((hdrives b).mpr hb)
        have hca : c = a := List.mem_singleton.mp ((hdrives c).mpr hc)
        exact hne (hba.trans hca.symm)
      | cons b rest =>
        rw [hlist] at hdrives hnodup
        have hne : a ≠ b := fun h =>
          (List.nodup_cons.mp hnodup).1 (h ▸ List.mem_cons_self ..)
        have ha : Drives text a := (hdrives a).mp (List.mem_cons_self ..)
        have hb : Drives text b :=
          (hdrives b).mp (List.mem_cons_of_mem _ (List.mem_cons_self ..))
        exact iff_of_true ⟨_, rfl⟩ (Or.inr ⟨a, b, hne, ha, hb⟩)
  · have hnone : ∀ b ∈ placeholders text, b.name ≠ touchfile :=
      not_not.mp fun h => hsome (htouch.mpr h)
    rw [if_pos (by simp [hsome])]
    exact iff_of_true ⟨_, rfl⟩ (Or.inl hnone)

theorem arrayVariable_iff {subject text : String} {p : Prototype}
    (h : parse subject text = .ok p) (name : String) :
    p.arrayVariable = some name ↔ Drives text name := by
  obtain ⟨hp, rfl⟩ := accepted_of_parse h
  have hnames : name ∈ arrayNames p.bindings ↔ Drives p.text name := by
    rw [hp.bindings, hp.tokens]
    exact mem_names_filter
  rw [← hnames, hp.arrays, Option.mem_toList]

theorem mem_outputs_iff {subject text : String} {p : Prototype}
    (h : parse subject text = .ok p) (name : String) :
    name ∈ p.outputs.map (·.name) ↔ Returned text name := by
  obtain ⟨hp, rfl⟩ := accepted_of_parse h
  unfold outputs
  rw [hp.bindings, hp.tokens]
  exact mem_names_filter

/-! ## Marks that count -/

/-- The array marker and the output roles count wherever they are written. -/
structure EveryMarkCounts (subject text : String) : Prop where
  refused : (∃ failure, parse subject text = .error failure) ↔
    (∀ b ∈ placeholders text, b.name ≠ touchfile) ∨
    ∃ a b, a ≠ b ∧ Marked text a ∧ Marked text b
  array : ∀ p, parse subject text = .ok p →
    ∀ name, p.arrayVariable = some name ↔ Marked text name
  outputs : ∀ p, parse subject text = .ok p →
    ∀ name, name ∈ p.outputs.map (·.name) ↔ Declared text name

/-- **Which marks count.** A prototype is refused, driven and returned by what the
deciding placeholder of each name says. All marks count exactly if it is refused, or
if no deciding placeholder lacks a mark that another one of its name has. -/
theorem deciding_mark_counts (subject text : String) :
    ((∃ failure, parse subject text = .error failure) ↔
      (∀ b ∈ placeholders text, b.name ≠ touchfile) ∨
      ∃ a b, a ≠ b ∧ Drives text a ∧ Drives text b) ∧
    (∀ p, parse subject text = .ok p → ∀ name,
      (p.arrayVariable = some name ↔ Drives text name) ∧
      (name ∈ p.outputs.map (·.name) ↔ Returned text name)) ∧
    (EveryMarkCounts subject text ↔
      (∃ failure, parse subject text = .error failure) ∨
      ∀ name, (Marked text name → Drives text name) ∧
      (Declared text name → Returned text name)) := by
  refine ⟨refused_iff subject text, fun p h name =>
    ⟨arrayVariable_iff h name, mem_outputs_iff h name⟩, ?_⟩
  constructor
  · intro hcounts
    cases hparse : parse subject text with
    | error failure => exact Or.inl ⟨failure, rfl⟩
    | ok p =>
      refine Or.inr fun name => ⟨fun hmarked => ?_, fun hdeclared => ?_⟩
      · exact (arrayVariable_iff hparse name).mp
          ((hcounts.array p hparse name).mpr hmarked)
      · exact (mem_outputs_iff hparse name).mp
          ((hcounts.outputs p hparse name).mpr hdeclared)
  · rintro (⟨failure, hrefused⟩ | hall)
    · refine ⟨iff_of_true ⟨failure, hrefused⟩ ?_, fun p h => ?_, fun p h => ?_⟩
      -- two driving names are two marked names
      · refine ((refused_iff subject text).mp ⟨failure, hrefused⟩).imp_right ?_
        rintro ⟨a, b, hne, ha, hb⟩
        exact ⟨a, b, hne, ha.marked, hb.marked⟩
      · rw [hrefused] at h
        cases h
      · rw [hrefused] at h
        cases h
    · have hdrives : ∀ name, Drives text name ↔ Marked text name :=
        fun name => ⟨Drives.marked, (hall name).1⟩
      have hreturned : ∀ name, Returned text name ↔ Declared text name :=
        fun name => ⟨Returned.declared, (hall name).2⟩
      constructor
      · rw [refused_iff]
        simp only [hdrives]
      · exact fun p h name => (arrayVariable_iff h name).trans (hdrives name)
      · exact fun p h name => (mem_outputs_iff h name).trans (hreturned name)

/-- A marker and an output role are lost if the name stands in a later
placeholder without them. -/
theorem mark_lost :
    let text :=
      "echo \x7b\x7bx[]:declare_output\x7d\x7d \x7b\x7bx\x7d\x7d\ntouch \x7b\x7btouchfile\x7d\x7d\n"
    (parse "job.proto.sh" text).toOption.map (fun p =>
      (p.arrayVariable, p.outputs)) = some (none, []) ∧
      Marked text "x" ∧ Declared text "x" ∧
      ¬ EveryMarkCounts "job.proto.sh" text := by
  intro text
  have hparse : (parse "job.proto.sh" text).toOption.map (fun p =>
      (p.arrayVariable, p.outputs)) = some (none, []) := by
    decide +kernel
  have hmarked : Marked text "x" := by
    unfold Marked
    decide +kernel
  have hdeclared : Declared text "x" := by
    unfold Declared
    decide +kernel
  refine ⟨hparse, hmarked, hdeclared, fun hcounts => ?_⟩
  cases hp : parse "job.proto.sh" text with
  | error failure =>
    rw [hp] at hparse
    cases hparse
  | ok p =>
    rw [hp] at hparse
    have harray : p.arrayVariable = none :=
      congrArg Prod.fst (Option.some.inj hparse)
    have hvariable := (hcounts.array p hp "x").mpr hmarked
    rw [harray] at hvariable
    cases hvariable

end Playbook.Prototype
