import Playbook.Path
import Playbook.Proofs.Text

/-!
# Playbook — expanding the home directory once

A path that has been trimmed and freed of a leading `~` is only trimmed when
that is done again, whatever the home directory is by then. So a path that was
saved after its expansion means the same when it is read back, as long as the
expansion did not bring a blank to its end: a home directory may have one.

Main results:

* `expandHome_expandHome` — expanding a second time only trims.
* `head_expandHome` — an expanded path begins with no blank.
-/

namespace Playbook

namespace Path

/-- Whether a text names the home directory or something below it. -/
def NamesHome (cs : List Char) : Prop :=
  cs = ['~'] ∨ (∃ rest, cs = '~' :: '/' :: rest) ∨ ∃ rest, cs = '~' :: '\\' :: rest

/-- A path that does not name the home directory once it is trimmed is trimmed. -/
theorem expandHome_of_plain {path : String}
    (h : ¬ NamesHome (Text.trimChars path.toList)) (home : String) :
    expandHome home path = Text.trim path := by
  unfold expandHome
  split
  · next heq => exact absurd (Or.inl heq) h
  · next rest heq => exact absurd (Or.inr (Or.inl ⟨rest, heq⟩)) h
  · next rest heq => exact absurd (Or.inr (Or.inr ⟨rest, heq⟩)) h
  · rfl

theorem expandHome_of_head {path : String} {c : Char} {rest : List Char}
    (hpath : path.toList = c :: rest) (htilde : c ≠ '~')
    (hfirst : Text.isBlank c = false) (home : String) :
    expandHome home path = Text.trim path := by
  refine expandHome_of_plain ?_ home
  obtain ⟨more, hmore⟩ := Text.trimChars_cons hfirst rest
  rw [hpath, hmore]
  rintro (h | ⟨_, h⟩ | ⟨_, h⟩) <;> exact htilde (List.cons.inj h).1

/-- A path below a directory begins as the directory does, or at the root. -/
theorem head_join {dir : String} {c : Char} {rest : List Char}
    (hdir : dir.toList = c :: rest) (path : String) :
    ∃ d more, (join dir path).toList = d :: more ∧ (d = c ∨ d = '/') := by
  have hne : dir.isEmpty = false := by
    rw [String.isEmpty_eq_false_iff]
    rintro rfl
    cases hdir
  unfold join
  split
  · next h =>
    rw [hne, Bool.or_false] at h
    unfold isAbsolute at h
    cases hp : path.toList with
    | nil =>
      rw [hp] at h
      cases h
    | cons d more =>
      rw [hp] at h
      exact ⟨d, more, rfl, Or.inr (by simpa using h)⟩
  · split
    · exact ⟨c, _, by rw [String.toList_append, hdir]; rfl, Or.inl rfl⟩
    · exact ⟨c,
        _, by rw [String.toList_append, String.toList_append, hdir]; rfl, Or.inl rfl⟩

section

variable {home : String} {c : Char} {rest : List Char}
  (hhome : home.toList = c :: rest) (htilde : c ≠ '~')
  (hfirst : Text.isBlank c = false)

include hhome htilde hfirst

/-- An expanded path begins as the home directory does or at the root, or it is
the trimmed path. -/
theorem expandHome_cases (path : String) :
    (∃ d more, (expandHome home path).toList = d :: more ∧ d ≠ '~' ∧
      Text.isBlank d = false) ∨
      expandHome home path = String.ofList (Text.trimChars path.toList) ∧
        ¬ NamesHome (Text.trimChars path.toList) := by
  -- what stands below the home directory begins as the home directory
  -- does, or at the root
  have hjoin : ∀ tail, ∃ d more, (join home tail).toList = d :: more ∧ d ≠ '~' ∧
      Text.isBlank d = false := by
    intro tail
    obtain ⟨d, more, htext, rfl | rfl⟩ := head_join hhome tail
    · exact ⟨d, more, htext, htilde, hfirst⟩
    · exact ⟨'/', more, htext, by decide, by decide⟩
  unfold expandHome
  split
  · exact Or.inl ⟨c, rest, hhome, htilde, hfirst⟩
  · exact Or.inl (hjoin _)
  · exact Or.inl (hjoin _)
  · next h₁ h₂ h₃ =>
    refine Or.inr ⟨rfl, ?_⟩
    rintro (h | ⟨rest, h⟩ | ⟨rest, h⟩)
    · exact h₁ h
    · exact h₂ rest h
    · exact h₃ rest h

/-- An expanded path begins with no blank. -/
theorem head_expandHome (path : String) {d : Char}
    (h : (expandHome home path).toList.head? = some d) :
    Text.isBlank d = false := by
  rcases expandHome_cases hhome htilde hfirst path with
    ⟨e, more, htext, -, he⟩ | ⟨heq, -⟩
  · rw [htext] at h
    cases h
    exact he
  · rw [heq, String.toList_ofList] at h
    exact Text.head?_trimChars h

/-- If the home directory begins with neither a blank nor `~`, expanding a
second time only trims. -/
theorem expandHome_expandHome (path home' : String) :
    expandHome home' (expandHome home path) = Text.trim (expandHome home path) := by
  rcases expandHome_cases hhome htilde hfirst path with
    ⟨d, more, htext, hd, he⟩ | ⟨heq, hplain⟩
  · exact expandHome_of_head htext hd he home'
  · refine expandHome_of_plain ?_ home'
    rw [heq, String.toList_ofList, Text.trimChars_trimChars]
    exact hplain

end

end Path

end Playbook
