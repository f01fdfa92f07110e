import Mathlib.Algebra.Group.Nat.Defs
import Playbook.Proofs.Path.Components
import Playbook.Token

/-!
# Playbook — where new names lead

A path that is made up for a new file has a fresh token in its last component,
and so has every path that is made of it with an index or another ending.
Wherever such a path leads, the last name of the place has the token in it. So
the path misses every place whose last name is without the token.

Main results:

* `Disk.getLast?_of_locate` — the last name of the place that a path leads to is
  its last component.
* `Path.bears_unique`, `Path.bears_withIndex` — paths of new files have their
  tokens in the last component.
* `Path.Bears.misses` — such a path misses every place whose last name is
  without the token.
-/

namespace Playbook

namespace Disk

theorem getLast?_splitPath {path : String} {front tail : List Char}
    (hpath : path.toList = front ++ tail) (hslash : '/' ∉ tail)
    (hlength : 1 < tail.length) :
    ∃ start, (splitPath path).1.getLast? =
    some (String.ofList (start ++ tail)) := by
  obtain ⟨start, -, hlast⟩ := Path.getLast?_components hpath hslash hlength
  refine ⟨start, ?_⟩
  rw [Path.splitPath_fst, List.getLast?_map, hlast]
  rfl

/-- The last name of the place that a path leads to is the last
component of the path. -/
theorem getLast?_of_locate {d : Disk} {path last : String} {place : Place}
    {isDir : Bool} (hlast : (splitPath path).1.getLast? = some last)
    (hback : last ≠ "..") (h : d.locate path = .ok (place, isDir)) :
    place.getLast? = some last := by
  unfold locate at h
  dsimp only at h
  split at h
  · cases h
  · rw [hlast] at h
    dsimp only at h
    cases hfollow : (splitPath path).1.dropLast.foldlM d.enter (d.base path) with
    | error kind =>
      rw [hfollow] at h
      cases h
    | ok dir =>
      rw [hfollow] at h
      dsimp only [bind, Except.bind] at h
      rw [if_neg hback] at h
      split at h <;> cases h
      exact List.getLast?_concat

end Disk

/-! ## Tokens -/

namespace Token

theorem length_digitsBack (count n : Nat) :
    (digitsBack count n).length = count := by
  induction count generalizing n with
  | zero => rfl
  | succ count ih => rw [digitsBack, List.length_cons, ih]

theorem not_mem_digitsBack {c : Char} (hc : ∀ n, Nat.digitChar n ≠ c)
    (count n : Nat) : c ∉ digitsBack count n := by
  induction count generalizing n with
  | zero => exact List.not_mem_nil
  | succ count ih =>
    rw [digitsBack, List.mem_cons, not_or]
    exact ⟨(hc _).symm, ih _⟩

theorem length_ofNat (n : Nat) : (ofNat n).toList.length = 32 := by
  rw [ofNat, String.toList_ofList, List.length_reverse, length_digitsBack]

/-- Only hexadecimal digits are in a token. -/
theorem not_mem_ofNat {c : Char} (hc : ∀ n, Nat.digitChar n ≠ c) (n : Nat) :
    c ∉ (ofNat n).toList := by
  rw [ofNat, String.toList_ofList, List.mem_reverse]
  exact not_mem_digitsBack hc 32 n

theorem toList_ofNat_ne_nil (n : Nat) : (ofNat n).toList ≠ [] :=
  List.ne_nil_of_length_pos (by rw [length_ofNat]; exact Nat.succ_pos 31)

theorem slash_not_mem_ofNat (n : Nat) : '/' ∉ (ofNat n).toList :=
  not_mem_ofNat (fun _ => Nat.digitChar_ne '/' rfl) n

theorem dot_not_mem_ofNat (n : Nat) : '.' ∉ (ofNat n).toList :=
  not_mem_ofNat (fun _ => Nat.digitChar_ne '.' rfl) n

/-- A number is known by its digits, if there are enough of them. -/
theorem digitsBack_inj {count m n : Nat} (hm : m < 16 ^ count) (hn : n < 16 ^ count)
    (h : digitsBack count m = digitsBack count n) : m = n := by
  induction count generalizing m n with
  | zero => rw [Nat.lt_one_iff.mp hm, Nat.lt_one_iff.mp hn]
  | succ count ih =>
    have hdigit : ∀ i < 16, ∀ j < 16, Nat.digitChar i = Nat.digitChar j →
        i = j := by decide
    obtain ⟨hlast, hothers⟩ := List.cons.inj h
    rw [Nat.pow_succ] at hm hn
    have hmod := hdigit _ (Nat.mod_lt m (by decide)) _
        (Nat.mod_lt n (by decide)) hlast
    have hdiv := ih (Nat.div_lt_of_lt_mul (by rwa [Nat.mul_comm]))
        (Nat.div_lt_of_lt_mul (by rwa [Nat.mul_comm])) hothers
    rw [← Nat.div_add_mod m 16, hmod, hdiv, Nat.div_add_mod]

/-- No two of the tokens with numbers from the first on, up to the
last, are the same. -/
def Distinct (first last : Nat) : Prop := ∀ m n, first ≤ m → m < n → n < last →
    ofNat m ≠ ofNat n

/-- Numbers that have no more digits than a token have different tokens. -/
theorem distinct_of_le {last : Nat} (h : last ≤ 16 ^ 32) (first : Nat) :
    Distinct first last := by
  intro m n _ hlt hn hsame
  have hdigits := List.reverse_inj.mp (String.ofList_inj.mp hsame)
  have hn' : n < 16 ^ 32 := Nat.lt_of_lt_of_le hn h
  exact absurd (digitsBack_inj (Nat.lt_trans hlt hn') hn' hdigits)
    (Nat.ne_of_lt hlt)

end Token

/-- The token with a number is no part of the last name of the place. -/
def Place.Without (place : Place) (n : Nat) : Prop :=
  ∀ name, place.getLast? = some name → ¬ (Token.ofNat n).toList <:+: name.toList

/-- A name that is shorter than a token has none in it. -/
theorem Place.without_of_short {place : Place}
    (h : ∀ name, place.getLast? = some name → name.toList.length < 32)
    (n : Nat) : place.Without n := by
  intro name hname hinfix
  have hle := hinfix.length_le
  rw [Token.length_ofNat] at hle
  exact absurd (h name hname) (Nat.not_lt.mpr hle)

namespace Path

/-- The last component of the path has the token with a number in it. -/
def Bears (n : Nat) (path : String) : Prop :=
  ∃ front rest, path.toList = front ++ ((Token.ofNat n).toList ++ rest) ∧ '/' ∉ rest

/-- A path misses every place with another last name. -/
theorem misses_of_last {path last : String}
    (hlast : (Disk.splitPath path).1.getLast? = some last) (hback : last ≠ "..")
    {place : Place} (hplace : place.getLast? ≠ some last) : Misses path place :=
  fun _ _ hlocate => hplace (Disk.getLast?_of_locate hlast hback hlocate)

/-- A path with a token in its last component misses every place whose last name
is without the token. -/
theorem Bears.misses {n : Nat} {path : String} (h : Bears n path)
    {place : Place} (hplace : place.Without n) :
    Misses path place := by
  obtain ⟨front, rest, hpath, hslash⟩ := h
  have hlength : 2 < ((Token.ofNat n).toList ++ rest).length := by
    rw [List.length_append, Token.length_ofNat]
    omega
  have hnone : '/' ∉ (Token.ofNat n).toList ++ rest := by
    rw [List.mem_append, not_or]
    exact ⟨Token.slash_not_mem_ofNat n, hslash⟩
  obtain ⟨start, hlast⟩ :=
    Disk.getLast?_splitPath hpath hnone (Nat.lt_of_succ_lt hlength)
  refine misses_of_last hlast (Text.ofList_ne_of_length ?_) fun hsame =>
    hplace _ hsame ⟨start, rest, ?_⟩
  · rw [List.length_append]
    exact Nat.lt_of_lt_of_le hlength (Nat.le_add_left _ _)
  · rw [String.toList_ofList, List.append_assoc]

/-- A path below a directory ends as the path alone does. -/
theorem toList_join (dir path : String) :
    ∃ front, (join dir path).toList = front ++ path.toList := by
  unfold join
  split
  · exact ⟨[], rfl⟩
  · split
    · exact ⟨dir.toList, String.toList_append⟩
    · exact ⟨dir.toList ++
        "/".toList, by rw [String.toList_append, String.toList_append]⟩

/-- A new path ends in its stem, if it has one, its token and its extension. -/
theorem toList_unique_of_stem (dir : String) {stem : String} (h : stem ≠ "")
    (extension token : String) :
    ∃ front, (unique dir stem extension token).toList =
      front ++ (stem.toList ++ '.' ::
        (token.toList ++ '.' :: extension.toList)) := by
  obtain ⟨front, hjoin⟩ :=
    toList_join dir (stem ++ "." ++ token ++ "." ++ extension)
  refine ⟨front, ?_⟩
  unfold unique
  rw [String.isEmpty_eq_false_iff.mpr h, if_neg Bool.false_ne_true, hjoin]
  simp [String.toList_append]

/-- A new path ends in its token and its extension. -/
theorem toList_unique (dir stem extension token : String) :
    ∃ front, (unique dir stem extension token).toList =
    front ++ (token.toList ++ '.' :: extension.toList) := by
  by_cases h : stem = ""
  · subst h
    obtain ⟨front, hjoin⟩ := toList_join dir (token ++ "." ++ extension)
    refine ⟨front, hjoin.trans ?_⟩
    simp [String.toList_append]
  · obtain ⟨front, hpath⟩ := toList_unique_of_stem dir h extension token
    exact ⟨front ++ stem.toList ++ ['.'], by simp [hpath]⟩

theorem bears_unique (dir stem : String) {extension : String}
    (hslash : '/' ∉ extension.toList) (n : Nat) :
    Bears n (unique dir stem extension (Token.ofNat n)) := by
  obtain ⟨front, hpath⟩ := toList_unique dir stem extension (Token.ofNat n)
  refine ⟨front, _, hpath, ?_⟩
  rw [List.mem_cons, not_or]
  exact ⟨by decide, hslash⟩

theorem Bears.append {n : Nat} {path : String} (h : Bears n path)
    {ending : String} (hslash : '/' ∉ ending.toList) :
    Bears n (path ++ ending) := by
  obtain ⟨front, rest, hpath, hrest⟩ := h
  refine ⟨front, rest ++ ending.toList, ?_, ?_⟩
  · rw [String.toList_append, hpath, List.append_assoc, List.append_assoc]
  · rw [List.mem_append, not_or]
    exact ⟨hrest, hslash⟩

theorem Bears.json {n : Nat} {path : String} (h : Bears n path) :
    Bears n (json path) := by
  unfold Path.json
  split
  · exact h
  · exact h.append (by decide)

theorem Bears.npz {n : Nat} {path : String} (h : Bears n path) :
    Bears n (npz path) := by
  unfold Path.npz
  split
  · exact h
  · exact h.append (by decide)

/-! ## Indexed paths -/

/-- A text of more than two characters without slashes is the end of the file
name of what it ends. -/
theorem fileName?_of_toList {path : String} {front tail : List Char}
    (hpath : path.toList = front ++ tail) (hslash : '/' ∉ tail)
    (hlength : 2 < tail.length) :
    ∃ start, fileName? path = some (String.ofList (start ++ tail)) := by
  obtain ⟨start, -, hlast⟩ :=
    getLast?_components hpath hslash (Nat.lt_of_succ_lt hlength)
  have hback : start ++ tail ≠ ['.', '.'] := by
    intro hsame
    have hlong := congrArg List.length hsame
    rw [List.length_append] at hlong
    exact absurd (Nat.le_of_add_left_le (Nat.le_of_eq hlong))
      (Nat.not_le.mpr hlength)
  refine ⟨start, ?_⟩
  rw [fileName?_eq, hlast, Option.filter_some, if_pos (decide_eq_true hback)]
  rfl

theorem toList_withFileName (path name : String) :
    ∃ front, (withFileName path name).toList = front ++ name.toList := by
  unfold withFileName
  split
  · exact toList_join _ _
  · exact toList_join _ _

/-- Only decimal digits are in the text of an index. -/
theorem not_mem_toString {c : Char} (hc : c.isDigit = false) (n : Nat) :
    c ∉ (toString n).toList := by
  intro h
  have hdigit := Nat.isDigit_of_mem_toDigits (by decide) (by decide)
      (Nat.toList_repr ▸ h)
  exact absurd hdigit (hc ▸ Bool.false_ne_true)

section

variable (dir stem : String) {extension : String} (hslash : '/' ∉ extension.toList)

include hslash

/-- The file name of a new path ends in its token and its extension. -/
theorem fileName?_unique (n : Nat) :
    ∃ start, fileName? (unique dir stem extension (Token.ofNat n)) =
    some (String.ofList
      (start ++ (Token.ofNat n).toList ++ '.' :: extension.toList)) := by
  obtain ⟨front, hpath⟩ := toList_unique dir stem extension (Token.ofNat n)
  have hnone : '/' ∉ (Token.ofNat n).toList ++ '.' :: extension.toList := by
    rw [List.mem_append, List.mem_cons, not_or, not_or]
    exact ⟨Token.slash_not_mem_ofNat n, by decide, hslash⟩
  have hlength : 2 <
      ((Token.ofNat n).toList ++ '.' :: extension.toList).length := by
    rw [List.length_append, Token.length_ofNat]
    omega
  obtain ⟨start, hname⟩ := fileName?_of_toList hpath hnone hlength
  exact ⟨start, by rw [hname, List.append_assoc]⟩

/-- The index of a new path comes between its token and its extension. -/
theorem withIndex_unique (hdot : '.' ∉ extension.toList) (n index : Nat) :
    ∃ start, fileName? (unique dir stem extension (Token.ofNat n)) =
        some (String.ofList
          (start ++ (Token.ofNat n).toList ++ '.' :: extension.toList)) ∧
      withIndex (unique dir stem extension (Token.ofNat n)) index =
        withFileName (unique dir stem extension (Token.ofNat n))
          (String.ofList (start ++ (Token.ofNat n).toList ++ '.' ::
            ((toString index).toList ++ '.' :: extension.toList))) := by
  obtain ⟨start, hname⟩ := fileName?_unique dir stem hslash n
  refine ⟨start, hname, ?_⟩
  unfold withIndex
  rw [hname]
  dsimp only
  -- the last dot of the name is the one between the token and the extension
  rw [String.toList_ofList, Text.splitLast_append hdot]
  refine congrArg (withFileName _) (String.toList_inj.mp ?_)
  simp [String.toList_append]

/-- A new path with an index keeps its token in the last component. -/
theorem bears_withIndex (hdot : '.' ∉ extension.toList) (n index : Nat) :
    Bears n (withIndex (unique dir stem extension (Token.ofNat n)) index) := by
  obtain ⟨start, -, hindexed⟩ := withIndex_unique dir stem hslash hdot n index
  obtain ⟨before, htext⟩ :=
    toList_withFileName (unique dir stem extension (Token.ofNat n))
      (String.ofList (start ++ (Token.ofNat n).toList ++ '.' ::
        ((toString index).toList ++ '.' :: extension.toList)))
  refine ⟨before ++ start,
    '.' :: ((toString index).toList ++ '.' :: extension.toList), ?_, ?_⟩
  · rw [hindexed, htext, String.toList_ofList, List.append_assoc, List.append_assoc]
  · rw [List.mem_cons, List.mem_append, List.mem_cons, not_or, not_or, not_or]
    exact ⟨by decide, not_mem_toString (by decide) index, by decide, hslash⟩

end

end Path

end Playbook
