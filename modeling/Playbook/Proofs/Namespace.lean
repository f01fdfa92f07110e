import Playbook.Namespace
import Playbook.Proofs.Dict
import Playbook.Proofs.Text

/-!
# Playbook — what malformed indices lead to

Behind a key, a segment of a path may have indices: groups of digits in
brackets. What stands in brackets and is not an index is not refused but left
out, so that a malformed path leads to the same value as the path that is left,
and often to the whole list of which one item was asked for.

Main results:

* `Namespace.kept_iff` — which indices are read from bracketed parts.
* `Namespace.parts_spelled` — a segment has the parts of the well-formed segment
  that is left of it.
* `Namespace.lookup_of_malformed` — a path leads where its keys and
  readable indices lead.
-/

namespace Playbook

namespace Namespace

/-! ## Groups -/

/-- The text is a sequence of groups of digits in brackets, which
denote the numbers. -/
inductive Denotes : List Char → List Nat → Prop
  | nil : Denotes [] []
  | group {digits rest : List Char} {index : Nat} {indices : List Nat}
    (hdigits : Text.Digits digits index)
    (hrest : Denotes rest indices) :
    Denotes ('[' :: (digits ++ ']' :: rest)) (index :: indices)

/-- From its first bracket on, the segment is not a sequence of groups of digits. -/
def Malformed (segment : List Char) : Prop :=
  '[' ∈ segment ∧ ¬ ∃ indices, Denotes (segment.dropWhile (· != '[')) indices

theorem Denotes.head {cs : List Char} {indices : List Nat}
    (h : Denotes cs indices) : cs = [] ∨ ∃ rest, cs = '[' :: rest := by
  cases h with
  | nil => exact Or.inl rfl
  | group => exact Or.inr ⟨_, rfl⟩

/-- In groups of digits are brackets and digits. -/
theorem Denotes.isDigit {cs : List Char} {indices : List Nat}
    (h : Denotes cs indices) {c : Char} (hc : c ∈ cs) :
    c = '[' ∨ c = ']' ∨ c.isDigit = true := by
  induction h with
  | nil => cases hc
  | group hdigits _ ih =>
    rcases List.mem_cons.mp hc with rfl | hc
    · exact Or.inl rfl
    rcases List.mem_append.mp hc with hdigit | hc
    · exact Or.inr (Or.inr (hdigits.digits c hdigit))
    rcases List.mem_cons.mp hc with rfl | hrest
    · exact Or.inr (Or.inl rfl)
    · exact ih hrest

/-! ## Bracketed parts -/

/-- What follows a bracket says an index: a number that fits 64 bits and a
closing bracket. A plus sign may come before the number. -/
def Says (part : List Char) (index : Nat) : Prop :=
  index < 0x10000000000000000 ∧
    ∃ digits, Text.Digits digits index ∧
    (part = digits ++ [']'] ∨ part = '+' :: digits ++ [']'])

theorem Says.not_mem {part : List Char} {index : Nat} (h : Says part index) :
    '[' ∉ part := by
  obtain ⟨-, digits, hdigits, hpart⟩ := h
  have hdigit : '[' ∉ digits := fun hmem =>
    absurd (hdigits.digits '[' hmem) (by decide)
  rcases hpart with rfl | rfl <;> simpa using hdigit

/-- The indices that bracketed parts say, one after the other. Parts that say
none are left out. -/
inductive Kept : List Char → List Nat → Prop
  | nil : Kept [] []
  | index {part rest : List Char} {index : Nat} {indices : List Nat}
    (hpart : Says part index) (hrest : Kept rest indices) :
    Kept ('[' :: (part ++ rest)) (index :: indices)
  | other {part rest : List Char} {indices : List Nat} (hopen : '[' ∉ part)
    (hpart : ∀ index, ¬ Says part index)
    (hrest : Kept rest indices) : Kept ('[' :: (part ++ rest)) indices

theorem Kept.head {cs : List Char} {indices : List Nat} (h : Kept cs indices) :
    cs = [] ∨ ∃ rest, cs = '[' :: rest := by
  cases h with
  | nil => exact Or.inl rfl
  | index => exact Or.inr ⟨_, rfl⟩
  | other => exact Or.inr ⟨_, rfl⟩

/-- All indices that are kept fit 64 bits. -/
theorem Kept.lt {cs : List Char} {indices : List Nat} (h : Kept cs indices) :
    ∀ index ∈ indices, index < 0x10000000000000000 := by
  induction h with
  | nil => exact fun _ hmem => by cases hmem
  | index hpart _ ih => exact List.forall_mem_cons.mpr ⟨hpart.1, ih⟩
  | other _ _ _ ih => exact ih

/-- Indices in groups of digits are all kept if they fit 64 bits. -/
theorem Denotes.kept {cs : List Char} {indices : List Nat} (h : Denotes cs indices)
    (hfits : ∀ index ∈ indices, index < 0x10000000000000000) : Kept cs indices := by
  induction h with
  | nil => exact .nil
  | @group digits rest index indices hdigits _ ih =>
    obtain ⟨hindex, hindices⟩ := List.forall_mem_cons.mp hfits
    have htext : digits ++ ']' :: rest = (digits ++ [']']) ++ rest := by simp
    rw [htext]
    exact .index ⟨hindex, digits, hdigits, Or.inl rfl⟩ (ih hindices)

/-- The index in a bracketed part, if it has one. -/
def readPart? (part : List Char) : Option Nat :=
  (Text.dropEnding? [']'] part).bind Text.readWord?

theorem readPart?_eq_some {part : List Char} {index : Nat} :
    readPart? part = some index ↔ Says part index := by
  unfold readPart? Says
  rw [Option.bind_eq_some_iff]
  constructor
  · rintro ⟨inner, hinner, hword⟩
    obtain ⟨hread, hfits⟩ := Text.readWord?_eq_some.mp hword
    rw [Text.dropEnding?_eq_some] at hinner
    rcases Text.readNat?_eq_some.mp hread with hdigits | ⟨rest, rfl, hdigits⟩
    · exact ⟨hfits, inner, hdigits, Or.inl hinner⟩
    · exact ⟨hfits, rest, hdigits, Or.inr hinner⟩
  · rintro ⟨hfits, digits, hdigits, rfl | rfl⟩
    · exact ⟨digits, Text.dropEnding?_eq_some.mpr rfl,
        Text.readWord?_eq_some.mpr
        ⟨Text.readNat?_eq_some.mpr (Or.inl hdigits), hfits⟩⟩
    · exact ⟨'+' :: digits, Text.dropEnding?_eq_some.mpr rfl,
        Text.readWord?_eq_some.mpr
        ⟨Text.readNat?_eq_some.mpr (Or.inr ⟨digits, rfl, hdigits⟩), hfits⟩⟩

theorem readPart?_eq_none {part : List Char} :
    readPart? part = none ↔ ∀ index, ¬ Says part index := by
  rw [Option.eq_none_iff_forall_ne_some]
  exact forall_congr' fun index => not_congr readPart?_eq_some

/-- The first bracketed part is read apart from the others. -/
theorem readIndices_cons {part rest : List Char} (hpart : '[' ∉ part)
    (hrest : rest = [] ∨ ∃ more, rest = '[' :: more) :
    readIndices ('[' :: (part ++ rest)) =
    (readPart? part).toList ++ readIndices rest := by
  have hopen : ∀ cs, readIndices ('[' :: cs) =
      (Text.pieces '[' cs).filterMap readPart? := fun cs => rfl
  rw [hopen]
  rcases hrest with rfl | ⟨more, rfl⟩
  · rw [List.append_nil, Text.pieces_of_not_mem hpart]
    cases h : readPart? part <;>
      simp [h, readIndices, Text.pieces, Text.dropEnding?, Text.dropStart?]
  · rw [Text.pieces_append hpart, hopen]
    cases h : readPart? part <;> simp [h]

theorem Kept.readIndices {cs : List Char} {indices : List Nat}
    (h : Kept cs indices) : readIndices cs = indices := by
  induction h with
  | nil => rfl
  | index hpart hrest ih =>
    rw [readIndices_cons hpart.not_mem hrest.head, readPart?_eq_some.mpr hpart, ih]
    rfl
  | other hopen hpart hrest ih =>
    rw [readIndices_cons hopen hrest.head, readPart?_eq_none.mpr hpart, ih]
    rfl

/-- Whatever follows a bracket, something is kept of it. -/
theorem exists_kept {part : List Char} (hpart : '[' ∉ part) (text : List Char) :
    ∃ indices, Kept ('[' :: (part ++ text)) indices := by
  -- a part that is complete says an index or none
  have hcomplete : ∀ {part rest : List Char}, '[' ∉ part →
      (∃ indices, Kept rest indices) →
      ∃ indices, Kept ('[' :: (part ++ rest)) indices := by
    rintro part rest hopen ⟨indices, hrest⟩
    by_cases hsays : ∃ index, Says part index
    · obtain ⟨index, hindex⟩ := hsays
      exact ⟨index :: indices, .index hindex hrest⟩
    · exact ⟨indices, .other hopen (not_exists.mp hsays) hrest⟩
  induction text generalizing part with
  | nil => exact hcomplete hpart ⟨[], .nil⟩
  | cons c text ih =>
    by_cases hc : c = '['
    · subst hc
      exact hcomplete hpart (@ih [] List.not_mem_nil)
    · have hlonger : '[' ∉ part ++ [c] := by simpa using ⟨hpart, Ne.symm hc⟩
      have hkept := ih hlonger
      rwa [List.append_assoc] at hkept

/-- The indices that are read from bracketed parts are those that
are kept of them. -/
theorem kept_iff {cs : List Char} (hcs : cs = [] ∨ ∃ text, cs = '[' :: text)
    {indices : List Nat} :
    Kept cs indices ↔ readIndices cs = indices := by
  refine ⟨Kept.readIndices, fun hread => ?_⟩
  have hkept : ∃ indices, Kept cs indices := by
    rcases hcs with rfl | ⟨text, rfl⟩
    · exact ⟨[], .nil⟩
    · exact exists_kept List.not_mem_nil text
  obtain ⟨kept, hkept⟩ := hkept
  rwa [← hread, hkept.readIndices]

/-! ## Segments -/

/-- A segment is a key and bracketed parts, of which these indices are kept. -/
inductive Parts : List Char → List Char × List Nat → Prop
  | mk {key groups : List Char} {indices : List Nat} (hkey : '[' ∉ key)
    (hgroups : Kept groups indices) :
    Parts (key ++ groups) (key, indices)

/-- A segment is cut at its first bracket. -/
theorem takeWhile_append_groups {key groups : List Char} (hkey : '[' ∉ key)
    (h : groups = [] ∨ ∃ rest, groups = '[' :: rest) :
    (key ++ groups).takeWhile (· != '[') = key ∧
    (key ++ groups).dropWhile (· != '[') = groups := by
  have hall : ∀ c ∈ key, (c != '[') = true :=
    fun c hc => bne_iff_ne.mpr fun heq => hkey (heq ▸ hc)
  rw [List.takeWhile_append_of_pos hall, List.dropWhile_append_of_pos hall]
  rcases h with rfl | ⟨rest, rfl⟩
  · exact ⟨List.append_nil key, rfl⟩
  · exact ⟨List.append_nil key, rfl⟩

theorem dropWhile_head (segment : List Char) :
    segment.dropWhile (· != '[') = [] ∨ ∃ rest,
    segment.dropWhile (· != '[') = '[' :: rest := by
  cases hdrop : segment.dropWhile (· != '[') with
  | nil => exact Or.inl rfl
  | cons c rest =>
    have hc := List.head?_dropWhile_not (· != '[') segment
    rw [hdrop] at hc
    obtain rfl : c = '[' := by simpa using hc
    exact Or.inr ⟨rest, rfl⟩

/-- A segment is read as its parts. -/
theorem parts_iff {segment : List Char} {read : List Char × List Nat} :
    Parts segment read ↔ splitIndices segment = read := by
  constructor
  · rintro ⟨hkey, hgroups⟩
    obtain ⟨htake, hdrop⟩ := takeWhile_append_groups hkey hgroups.head
    unfold splitIndices
    rw [htake, hdrop, hgroups.readIndices]
  · rintro rfl
    have hkey : '[' ∉ segment.takeWhile (· != '[') := fun hmem => by
      have hall : (segment.takeWhile (· != '[')).all (· != '[') = true :=
        List.all_takeWhile
      cases List.all_eq_true.mp hall '[' hmem
    have hparts := Parts.mk hkey ((kept_iff (dropWhile_head segment)).mpr rfl)
    rwa [List.takeWhile_append_dropWhile] at hparts

/-- An index in brackets. -/
def bracketed (index : Nat) : List Char := '[' :: (Nat.toDigits 10 index ++ [']'])

/-- The segment that has a key and indices as its parts and nothing else in it. -/
def spelled : List Char × List Nat → List Char
  | (key, indices) => key ++ indices.flatMap bracketed

theorem denotes_bracketed (indices : List Nat) :
    Denotes (indices.flatMap bracketed) indices := by
  induction indices with
  | nil => exact .nil
  | cons index indices ih =>
    rw [List.flatMap_cons, bracketed, List.cons_append, List.append_assoc]
    exact .group (Text.digits_toDigits index) ih

/-- What is left of a segment has the same parts and is well-formed. -/
theorem parts_spelled {segment : List Char} {read : List Char × List Nat}
    (h : Parts segment read) :
    Parts (spelled read) read ∧ ¬ Malformed (spelled read) := by
  obtain @⟨key, groups, indices, hkey, hgroups⟩ := h
  have hdenotes := denotes_bracketed indices
  refine ⟨.mk hkey (hdenotes.kept hgroups.lt), fun ⟨_, hmalformed⟩ =>
    hmalformed ⟨indices, ?_⟩⟩
  unfold spelled
  rwa [(takeWhile_append_groups hkey hdenotes.head).2]

/-! ## Paths -/

/-- The steps that a key and indices take behind the first segment. -/
def steps : List Char × List Nat → List String
  | (key, indices) => (if key = [] then []
    else [String.ofList key]) ++ indices.map toString

/-- Where keys and indices lead. -/
def walk (n : Namespace) : List (List Char × List Nat) → Option Value
  | [] => none
  | (key, indices) :: rest => (n.get? (String.ofList key)).bind fun value =>
      follow value (indices.map toString ++ rest.flatMap steps)

theorem segmentSteps_of_parts {segment : List Char}
    {read : List Char × List Nat} (h : Parts segment read) :
    segmentSteps segment = steps read := by
  unfold segmentSteps steps
  rw [parts_iff.mp h]
  simp only [List.isEmpty_iff]

theorem flatMap_segmentSteps {path : List (List Char)}
    {read : List (List Char × List Nat)} (h : List.Forall₂ Parts path read) :
    path.flatMap segmentSteps = read.flatMap steps := by
  induction h with
  | nil => rfl
  | cons hfirst _ ih =>
    rw [List.flatMap_cons, List.flatMap_cons, segmentSteps_of_parts hfirst, ih]

theorem lookup_of_not_mem {n : Namespace} {path : String} (hkey : path ∉ n.keys)
    {read : List (List Char × List Nat)}
    (hread : List.Forall₂ Parts (segments path) read) :
    n.lookup path = n.walk read := by
  unfold lookup
  rw [Dict.get?_eq_none.mpr hkey]
  generalize segments path = path at hread ⊢
  cases hread with
  | nil => rfl
  | @cons first parts rest others hfirst hrest =>
    dsimp only
    rw [parts_iff.mp hfirst, flatMap_segmentSteps hrest]
    rfl

/-- A reference stands for what its path leads to. -/
theorem resolve_path (n : Namespace) (r : Registry) (path : String) :
    n.resolve r (.str ("#" ++ path)) = (n.lookup path).elim
      (.error (Cause.resolution ("#" ++ path))) .ok := by
  have htext : ("#" ++ path).toList = '#' :: path.toList := String.toList_append
  unfold resolve
  simp only [htext, String.ofList_toList]
  cases n.lookup path <;> rfl

/-- The segments of any path have parts. -/
theorem exists_parts (path : List (List Char)) :
    ∃ read, List.Forall₂ Parts path read :=
  ⟨path.map splitIndices, List.forall₂_map_right_iff.mpr
    (List.forall₂_same.mpr fun _ _ => parts_iff.mpr rfl)⟩

/-- What is left of a path has the same parts and is well-formed. -/
theorem parts_map_spelled {path : List (List Char)}
    {read : List (List Char × List Nat)} (h : List.Forall₂ Parts path read) :
    List.Forall₂ Parts (read.map spelled) read ∧ ∀ segment ∈ read.map spelled,
    ¬ Malformed segment := by
  induction h with
  | nil => exact ⟨.nil, fun _ hmem => by cases hmem⟩
  | cons hfirst _ ih =>
    obtain ⟨hsame, hformed⟩ := parts_spelled hfirst
    exact ⟨.cons hsame ih.1, List.forall_mem_cons.mpr ⟨hformed, ih.2⟩⟩

/-- **Malformed indices are left out.** A path that is no name leads where its
keys lead with the indices that are kept, and a reference to it fails exactly if
they lead nowhere. So it is as good as the path that is left, which has the same
parts and none of whose segments is malformed. -/
theorem lookup_of_malformed {n : Namespace} {path : String}
    (hkey : path ∉ n.keys) (r : Registry) :
    (∃ read, List.Forall₂ Parts (segments path) read) ∧
      ∀ read, List.Forall₂ Parts (segments path) read →
        n.lookup path = n.walk read ∧
        (n.resolve r (.str ("#" ++ path)) = match n.walk read with
          | some value => .ok value
          | none => .error (Cause.resolution ("#" ++ path))) ∧
        List.Forall₂ Parts (read.map spelled) read ∧
        ∀ segment ∈ read.map spelled, ¬ Malformed segment := by
  refine ⟨exists_parts _, fun read hread => ?_⟩
  have hlookup := lookup_of_not_mem hkey hread
  refine ⟨hlookup, ?_, parts_map_spelled hread⟩
  rw [resolve_path, ← hlookup]
  cases n.lookup path <;> rfl

/-- The list `x` of two numbers. -/
def twoNumbers : Namespace :=
  [("x", .json (.arr [.num (.integer 1), .num (.integer 2)]))]

/-- A sign makes an index unreadable; the other index of `x` still counts. -/
theorem first_of_two_numbers : "x[-1][0]" ∉ twoNumbers.keys ∧
    twoNumbers.resolve { workdir := "wd" } (.str ("#" ++ "x[-1][0]")) =
    .ok (.json (.num (.integer 1))) := by
  have hkey : "x[-1][0]" ∉ twoNumbers.keys := by decide +kernel
  have hread : List.Forall₂ Parts (segments "x[-1][0]") [(['x'], [0])] :=
    .cons (parts_iff.mpr rfl) .nil
  refine ⟨hkey, ?_⟩
  rw [((lookup_of_malformed hkey _).2 _ hread).2.1]
  rfl

/-- An index below zero is malformed, but leads to the whole list. -/
theorem list_for_item : "x[-1]" ∉ twoNumbers.keys ∧
    (∃ segment ∈ segments "x[-1]", Malformed segment) ∧
    twoNumbers.lookup "x[-1]" =
    some (.json (.arr [.num (.integer 1), .num (.integer 2)])) ∧
    twoNumbers.resolve { workdir := "wd" } (.str "#x[-1]") =
    .ok (.json (.arr [.num (.integer 1), .num (.integer 2)])) := by
  have hmalformed : Malformed ['x', '[', '-', '1', ']'] := by
    refine ⟨by decide, fun ⟨indices, hdenotes⟩ => ?_⟩
    have hsign : '-' ∈ ['x', '[', '-', '1', ']'].dropWhile (· != '[') := by decide
    exact absurd (hdenotes.isDigit hsign) (by decide)
  have hsegments : segments "x[-1]" = [['x', '[', '-', '1', ']']] := by rfl
  refine ⟨by decide +kernel, ⟨_, ?_, hmalformed⟩, by rfl, by rfl⟩
  rw [hsegments]
  exact List.mem_singleton_self _

end Namespace

end Playbook
