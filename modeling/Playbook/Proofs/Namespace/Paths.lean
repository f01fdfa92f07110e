import Playbook.Proofs.Namespace
import Playbook.Proofs.Path

/-!
# Playbook — paths that are written for a value

A path is written from the steps of a navigation: a root, keys behind dots and
indices in brackets. To read it again, it is cut at its dots, and each segment
at its first bracket; so what was written step by step is read segment by
segment. The steps since the last key make up the segment that has been begun
(`segmentsFrom`), which is well-formed all the time.

Main results:

* `pieces_segmentsFrom` — a written path is cut into the segments that were written.
* `flatMap_steps_segmentsFrom` — the steps of these are the steps that the path
  was written from.
* `lookup_pathTo` — a written path leads where its steps lead, one after the other.
-/

namespace Playbook.Namespace

/-- A key that can stand in a path. -/
structure PlainKey (key : String) : Prop where
  some : key ≠ ""
  dot : '.' ∉ key.toList
  bracket : '[' ∉ key.toList

/-- A step of navigation: to the value under a key, or to the item at an index. -/
inductive PathStep where
  | key (name : String)
  | index (i : Nat)
deriving DecidableEq, Repr

namespace PathStep

/-- The name of the child that the step leads to. That of an index is its
decimal text. -/
def name : PathStep → String
  | key name => name
  | index i => toString i

/-- The step as it is written in a path. -/
def text : PathStep → String
  | key name => "." ++ name
  | index i => "[" ++ toString i ++ "]"

/-- The step can be written: a key can stand in a path, and an
index fits 64 bits. -/
def Plain : PathStep → Prop
  | key name => PlainKey name
  | index i => i < 0x10000000000000000

end PathStep

/-- The path from a root along steps. -/
def pathTo (root : String) (steps : List PathStep) : String :=
  steps.foldl (fun path step => path ++ step.text) root

/-- What steps lead to from the value of a root, one after the other. -/
def reach (n : Namespace) (root : String) (steps : List PathStep) : Option Value :=
  (n.get? root).bind fun value =>
    steps.foldlM (fun value step => value.child? step.name) value

/-- The path along steps can be read: all of it can be written, there are no
blanks around it, and no value but that of the root is named like it. -/
structure Legible (n : Namespace) (root : String)
    (steps : List PathStep) : Prop where
  key : PlainKey root
  plain : ∀ step ∈ steps, step.Plain
  start : ∀ c, (pathTo root steps).toList.head? = some c → Text.isBlank c = false
  ending : ∀ c, (pathTo root steps).toList.getLast? = some c →
    Text.isBlank c = false
  unnamed : pathTo root steps ∈ n.keys → pathTo root steps = root

/-! ## The characters of a path -/

/-- The characters of a step in a path. -/
def PathStep.chars : PathStep → List Char
  | key name => '.' :: name.toList
  | index i => bracketed i

theorem PathStep.toList_text (step : PathStep) : step.text.toList = step.chars := by
  cases step with
  | key name => exact String.toList_append
  | index i =>
    have hdigits : (toString i).toList = Nat.toDigits 10 i := Nat.toList_repr
    unfold text chars bracketed
    rw [String.toList_append, String.toList_append, hdigits]
    rfl

theorem PathStep.chars_ne_nil (step : PathStep) : step.chars ≠ [] := by
  cases step <;> exact List.cons_ne_nil _ _

theorem toList_pathTo (root : String) (steps : List PathStep) :
    (pathTo root steps).toList = root.toList ++ steps.flatMap PathStep.chars := by
  induction steps generalizing root with
  | nil => exact (List.append_nil _).symm
  | cons step steps ih =>
    have hnext : pathTo root (step :: steps) =
        pathTo (root ++ step.text) steps := rfl
    rw [hnext, ih, String.toList_append, step.toList_text, List.flatMap_cons,
      List.append_assoc]

/-- Only the path without steps is the root itself. -/
theorem eq_nil_of_pathTo_eq {root : String} {steps : List PathStep}
    (h : pathTo root steps = root) : steps = [] := by
  have hchars := congrArg String.toList h
  rw [toList_pathTo, List.append_right_eq_self, List.flatMap_eq_nil_iff] at hchars
  cases steps with
  | nil => rfl
  | cons step steps =>
    exact absurd (hchars step (List.mem_cons_self ..)) step.chars_ne_nil

/-! ## Segments -/

/-- The segments of a path from a segment that has been begun. -/
def segmentsFrom (begun : List Char × List Nat) :
    List PathStep → List (List Char × List Nat)
  | [] => [begun]
  | .key name :: steps => begun :: segmentsFrom (name.toList, []) steps
  | .index i :: steps => segmentsFrom (begun.1, begun.2 ++ [i]) steps

/-- A segment that can be written. -/
structure Fits (segment : List Char × List Nat) : Prop where
  some : segment.1 ≠ []
  dot : '.' ∉ segment.1
  bracket : '[' ∉ segment.1
  indices : ∀ i ∈ segment.2, i < 0x10000000000000000

theorem PlainKey.fits {key : String} (h : PlainKey key) : Fits (key.toList, []) :=
  ⟨fun hnil => h.some (String.toList_eq_nil_iff.mp hnil), h.dot, h.bracket,
    fun _ hi => (List.not_mem_nil hi).elim⟩

namespace Fits

variable {segment : List Char × List Nat} (h : Fits segment)

include h

theorem index {i : Nat} (hi : i < 0x10000000000000000) :
    Fits (segment.1, segment.2 ++ [i]) := by
  refine ⟨h.some, h.dot, h.bracket, fun j hj => ?_⟩
  rcases List.mem_append.mp hj with hold | hnew
  · exact h.indices j hold
  · rw [List.mem_singleton.mp hnew]
    exact hi

theorem parts : Parts (spelled segment) segment :=
  .mk h.bracket ((denotes_bracketed segment.2).kept h.indices)

theorem spelled_ne_nil : spelled segment ≠ [] :=
  List.append_ne_nil_of_left_ne_nil h.some _

theorem dot_not_mem_spelled : '.' ∉ spelled segment := by
  intro hmem
  rcases List.mem_append.mp hmem with hkey | hgroups
  · exact h.dot hkey
  · exact absurd ((denotes_bracketed segment.2).isDigit hgroups) (by decide)

end Fits

theorem spelled_index (key : List Char) (indices : List Nat) (i : Nat) :
    spelled (key, indices ++ [i]) = spelled (key, indices) ++ bracketed i := by
  show key ++ (indices ++ [i]).flatMap bracketed =
    key ++ indices.flatMap bracketed ++ bracketed i
  rw [List.flatMap_append, List.flatMap_singleton, List.append_assoc]

/-- The first segment begins with the key that has been begun. -/
theorem segmentsFrom_eq_cons (begun : List Char × List Nat)
    (steps : List PathStep) :
    ∃ indices more, segmentsFrom begun steps = (begun.1, indices) :: more := by
  induction steps generalizing begun with
  | nil => exact ⟨begun.2, [], rfl⟩
  | cons step steps ih =>
    cases step with
    | key name => exact ⟨begun.2, _, rfl⟩
    | index i => exact ih (begun.1, begun.2 ++ [i])

section

variable {begun : List Char × List Nat} {steps : List PathStep}
  (hbegun : Fits begun) (hsteps : ∀ step ∈ steps, step.Plain)

include hbegun hsteps

theorem fits_segmentsFrom : ∀ segment ∈ segmentsFrom begun steps, Fits segment := by
  induction steps generalizing begun with
  | nil => exact List.forall_mem_singleton.mpr hbegun
  | cons step steps ih =>
    obtain ⟨hstep, hrest⟩ := List.forall_mem_cons.mp hsteps
    cases step with
    | key name =>
      exact List.forall_mem_cons.mpr ⟨hbegun, ih (PlainKey.fits hstep) hrest⟩
    | index i => exact ih (hbegun.index hstep) hrest

/-- A written path is cut at its dots into the segments that were written. -/
theorem pieces_segmentsFrom :
    Text.pieces '.' (spelled begun ++ steps.flatMap PathStep.chars) =
    (segmentsFrom begun steps).map spelled := by
  -- along the steps: an index belongs to the segment that has been begun, a key
  -- ends it and begins the next
  induction steps generalizing begun with
  | nil =>
    rw [List.flatMap_nil, List.append_nil,
      Text.pieces_of_not_mem hbegun.dot_not_mem_spelled]
    rfl
  | cons step steps ih =>
    obtain ⟨hstep, hrest⟩ := List.forall_mem_cons.mp hsteps
    rw [List.flatMap_cons]
    cases step with
    | key name =>
      have hname : spelled (name.toList, []) = name.toList := List.append_nil _
      have hmore := ih (PlainKey.fits hstep) hrest
      rw [hname] at hmore
      rw [PathStep.chars, List.cons_append,
        Text.pieces_append hbegun.dot_not_mem_spelled, hmore]
      rfl
    | index i =>
      have hmore := ih (hbegun.index hstep) hrest
      rw [spelled_index, List.append_assoc] at hmore
      exact hmore

omit hbegun hsteps in
theorem steps_of_key {key : List Char} (hkey : key ≠ []) (indices : List Nat) :
    Namespace.steps (key, indices) = String.ofList key :: indices.map toString := by
  show (if key = [] then [] else [String.ofList key]) ++ indices.map toString = _
  rw [if_neg hkey]
  rfl

/-- The segments have the steps that they were written from. -/
theorem flatMap_steps_segmentsFrom :
    (segmentsFrom begun steps).flatMap Namespace.steps =
    Namespace.steps begun ++ steps.map PathStep.name := by
  induction steps generalizing begun with
  | nil => rfl
  | cons step steps ih =>
    obtain ⟨hstep, hrest⟩ := List.forall_mem_cons.mp hsteps
    cases step with
    | key name =>
      have hkey : Namespace.steps (name.toList, []) = [name] := by
        rw [steps_of_key (PlainKey.fits hstep).some, String.ofList_toList]
        rfl
      rw [segmentsFrom, List.flatMap_cons, ih (PlainKey.fits hstep) hrest, hkey]
      rfl
    | index i =>
      have hindex : Namespace.steps (begun.1, begun.2 ++ [i]) =
          Namespace.steps begun ++ [toString i] := by
        rw [steps_of_key hbegun.some, steps_of_key hbegun.some, List.map_append]
        rfl
      rw [segmentsFrom, ih (hbegun.index hstep) hrest, hindex, List.append_assoc]
      rfl

end

/-! ## Following written paths -/

/-- A value that is named like the path comes before all that the path leads to. -/
theorem lookup_of_get? {n : Namespace} {path : String} {value : Value}
    (h : n.get? path = some value) :
    n.lookup path = some value := by
  unfold lookup
  rw [h]

theorem follow_eq_foldlM (value : Value) (steps : List PathStep) :
    follow value (steps.map PathStep.name) =
    steps.foldlM (fun value step => value.child? step.name) value := by
  induction steps generalizing value with
  | nil => rfl
  | cons step steps ih =>
    rw [List.map_cons, follow, List.foldlM_cons]
    exact congrArg _ (funext ih)

/-- The segments of a written path lead where its steps lead. -/
theorem walk_segmentsFrom (n : Namespace) {root : String}
    {steps : List PathStep} (hroot : PlainKey root)
    (hsteps : ∀ step ∈ steps, step.Plain) :
    n.walk (segmentsFrom (root.toList, []) steps) = n.reach root steps := by
  have hnames := flatMap_steps_segmentsFrom hroot.fits hsteps
  obtain ⟨indices, more, hfirst⟩ := segmentsFrom_eq_cons (root.toList, []) steps
  rw [hfirst] at hnames ⊢
  -- the key of the first segment is the root, and the other steps come behind it
  have hrest : indices.map toString ++ more.flatMap Namespace.steps =
      steps.map PathStep.name := by
    rw [List.flatMap_cons, steps_of_key hroot.fits.some,
      steps_of_key hroot.fits.some] at hnames
    exact (List.cons.inj hnames).2
  show (n.get? (String.ofList root.toList)).bind (fun value =>
    follow value (indices.map toString ++ more.flatMap Namespace.steps)) =
    (n.get? root).bind fun value =>
      steps.foldlM (fun value step => value.child? step.name) value
  rw [hrest, String.ofList_toList]
  exact congrArg _ (funext fun value => follow_eq_foldlM value steps)

theorem segments_pathTo {n : Namespace} {root : String} {steps : List PathStep}
    (h : Legible n root steps) :
    segments (pathTo root steps) =
    (segmentsFrom (root.toList, []) steps).map spelled := by
  have hroot : spelled (root.toList, []) = root.toList := List.append_nil _
  have hpieces := pieces_segmentsFrom h.key.fits h.plain
  rw [hroot, ← toList_pathTo] at hpieces
  unfold segments
  rw [Text.trimChars_eq_self h.start h.ending, hpieces]
  -- no segment is empty
  refine List.filter_eq_self.mpr fun segment hsegment => ?_
  obtain ⟨read, hread, rfl⟩ := List.mem_map.mp hsegment
  have hsome := (fits_segmentsFrom h.key.fits h.plain read hread).spelled_ne_nil
  simpa using hsome

/-- **A path that is written for a value finds it.** If the path along steps can
be read, looking it up gives what the steps lead to, one after the other from
the value of the root; so it gives nothing as soon as one of them leads nowhere.
And whatever the key, a value that was just written is found under it. -/
theorem lookup_pathTo (n : Namespace) :
    (∀ root steps, Legible n root steps →
      n.lookup (pathTo root steps) = n.reach root steps ∧
      ∀ before after, steps = before ++ after → n.reach root before = none →
      n.lookup (pathTo root steps) = none) ∧
    ∀ key value, Namespace.lookup (n.insert key value) key = some value := by
  refine ⟨fun root steps h => ?_, fun key value => ?_⟩
  · have hlookup : n.lookup (pathTo root steps) = n.reach root steps := by
      by_cases hkey : pathTo root steps ∈ n.keys
      · -- the value has the name of the path, so it is that of the root
        have hroot := h.unnamed hkey
        obtain ⟨value, hvalue⟩ := Dict.exists_get?_of_mem_keys hkey
        rw [lookup_of_get? hvalue]
        rw [hroot] at hvalue
        unfold reach
        rw [hvalue, eq_nil_of_pathTo_eq hroot]
        rfl
      · have hread : List.Forall₂ Parts (segments (pathTo root steps))
            (segmentsFrom (root.toList, []) steps) := by
          rw [segments_pathTo h]
          refine List.forall₂_map_left_iff.mpr
            (List.forall₂_same.mpr fun segment hsegment => ?_)
          exact (fits_segmentsFrom h.key.fits h.plain segment hsegment).parts
        rw [lookup_of_not_mem hkey hread, walk_segmentsFrom n h.key h.plain]
    refine ⟨hlookup, ?_⟩
    rintro before after rfl hnone
    rw [hlookup]
    unfold reach at hnone ⊢
    cases hvalue : n.get? root with
    | none => rfl
    | some value =>
      rw [hvalue, Option.bind_some] at hnone
      rw [Option.bind_some, List.foldlM_append, hnone]
      rfl
  · exact lookup_of_get? (by rw [Dict.get?_insert, if_pos rfl])

/-- An index leads into a list with an item in it; a key that is not there leads
nowhere, whatever follows it. -/
theorem item_of_best :
    let n : Namespace :=
      [("result", .map [("best", .list [.json (.ofInt 3), .item ⟨"db", 0⟩])])]
    Legible n "result" [.key "best", .index 1] ∧
      n.lookup "result.best[1]" = some (.item ⟨"db", 0⟩) ∧
      Legible n "result" [.key "worst", .index 1] ∧
      n.lookup "result.worst[1]" = none := by
  intro n
  have hplain : ∀ key ∈ ["result", "best", "worst"], PlainKey key := by
    intro key hkey
    simp only [List.mem_cons, List.not_mem_nil, or_false] at hkey
    rcases hkey with rfl | rfl | rfl <;> exact ⟨by decide, by decide, by decide⟩
  have hends : ∀ key ∈ ["best", "worst"],
      (pathTo "result" [.key key, .index 1]).toList.head? = some 'r' ∧
        (pathTo "result" [.key key, .index 1]).toList.getLast? = some ']' ∧
        pathTo "result" [.key key, .index 1] ∉ n.keys := by
    decide +kernel
  have hlegible : ∀ key ∈ ["best", "worst"],
      Legible n "result" [.key key, .index 1] := by
    intro key hkey
    obtain ⟨hstart, hending, hunnamed⟩ := hends key hkey
    refine ⟨hplain "result" (List.mem_cons_self ..), ?_, fun c hc => ?_,
      fun c hc => ?_, fun hnamed => absurd hnamed hunnamed⟩
    · intro step hstep
      simp only [List.mem_cons, List.not_mem_nil, or_false] at hstep
      rcases hstep with rfl | rfl
      · exact hplain key (List.mem_cons_of_mem _ hkey)
      · exact (by decide : 1 < 0x10000000000000000)
    · cases hstart.symm.trans hc
      decide
    · cases hending.symm.trans hc
      decide
  obtain ⟨hbest, -⟩ := (lookup_pathTo n).1 "result" _ (hlegible "best" (by decide))
  obtain ⟨-, hworst⟩ := (lookup_pathTo n).1 "result" _
    (hlegible "worst" (by decide))
  exact ⟨hlegible "best" (by decide), hbest, hlegible "worst" (by decide),
    hworst [.key "worst"] [.index 1] rfl rfl⟩

end Playbook.Namespace
