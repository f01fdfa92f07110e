import Mathlib.Data.List.Infix
import Mathlib.Data.List.TakeWhile
import Playbook.Text

/-!
# Playbook — what cutting a text gives

Texts are cut at separators, freed of a known beginning or ending and of blanks,
and read as numbers. This module says of each of these cuts what it gives on a
text that is put together from the parts.

Main results:

* `pieces_append_cons`, `exists_last_piece` — the pieces of a text with a
  separator in it, and what becomes of the last one.
* `splitFirst_append`, `splitLast_append` — the first separator is the one that
  none precedes, the last the one that none follows.
* `dropEnding?_eq_some` — an ending is dropped if it is there.
* `trimChars_append`, `exists_blank_trimChars` — trimming gives what stands
  between the blanks.
* `readNat?_eq_some`, `readWord?_eq_some` — which texts are read as numbers.
-/

namespace Playbook.Text

/-! ## Pieces -/

theorem pieces_of_not_mem {c : Char} {cs : List Char} (h : c ∉ cs) :
    pieces c cs = [cs] := by
  induction cs with
  | nil => rfl
  | cons d rest ih =>
    obtain ⟨hd, hrest⟩ := List.ne_and_not_mem_of_not_mem_cons h
    rw [pieces, if_neg hd.symm, ih hrest]

theorem pieces_cons_of_ne {c d : Char} (h : d ≠ c) (rest : List Char) :
    ∃ first more, pieces c rest = first :: more ∧
    pieces c (d :: rest) = (d :: first) :: more := by
  cases hpieces : pieces c rest with
  | nil => cases rest <;> grind [pieces]
  | cons first more => exact ⟨first, more, rfl, by rw [pieces, if_neg h, hpieces]⟩

/-- The pieces of a text with a separator in it are those before and those after. -/
theorem pieces_append_cons (c : Char) (front rest : List Char) :
    pieces c (front ++ c :: rest) = pieces c front ++ pieces c rest := by
  induction front with
  | nil => exact if_pos rfl
  | cons d front ih =>
    by_cases hd : d = c
    · rw [List.cons_append, pieces, pieces, if_pos hd, if_pos hd, ih,
        List.cons_append]
    · obtain ⟨first, more, hfront, hcons⟩ := pieces_cons_of_ne hd front
      rw [List.cons_append, pieces, if_neg hd, ih, hcons, hfront]
      rfl

/-- What precedes the first separator is the first piece. -/
theorem pieces_append {c : Char} {front : List Char} (h : c ∉ front)
    (rest : List Char) :
    pieces c (front ++ c :: rest) = front :: pieces c rest := by
  rw [pieces_append_cons, pieces_of_not_mem h, List.singleton_append]

/-- A text ends in its last piece, and what is appended without separators
becomes part of it. -/
theorem exists_last_piece (c : Char) (cs : List Char) :
    ∃ before last, pieces c cs = before ++ [last] ∧
      ∀ tail, c ∉ tail → pieces c (cs ++ tail) = before ++ [last ++ tail] := by
  suffices h : ∃ before last, ∀ tail, c ∉ tail →
      pieces c (cs ++ tail) = before ++ [last ++ tail] by
    obtain ⟨before, last, hpieces⟩ := h
    exact ⟨before, last, by simpa using hpieces [] List.not_mem_nil, hpieces⟩
  induction cs with
  | nil => exact ⟨[], [], fun tail htail => pieces_of_not_mem htail⟩
  | cons d cs ih =>
    obtain ⟨before, last, hpieces⟩ := ih
    by_cases hd : d = c
    · exact ⟨[] :: before, last,
        fun tail htail => by rw [List.cons_append, pieces, if_pos hd, hpieces tail htail]; rfl⟩
    · cases before with
      | nil =>
        -- the text before is in the same piece
        refine ⟨[], d :: last, fun tail htail => ?_⟩
        rw [List.cons_append, pieces, if_neg hd, hpieces tail htail]
        rfl
      | cons first before =>
        refine ⟨(d :: first) :: before, last, fun tail htail => ?_⟩
        rw [List.cons_append, pieces, if_neg hd, hpieces tail htail]
        rfl

theorem not_mem_of_mem_pieces {c : Char} {cs piece : List Char}
    (h : piece ∈ pieces c cs) : c ∉ piece := by
  induction cs generalizing piece with
  | nil =>
    rw [List.mem_singleton.mp h]
    exact List.not_mem_nil
  | cons d cs ih =>
    by_cases hd : d = c
    · rw [pieces, if_pos hd] at h
      rcases List.mem_cons.mp h with rfl | hmem
      · exact List.not_mem_nil
      · exact ih hmem
    · obtain ⟨first, more, hcs, hcons⟩ := pieces_cons_of_ne hd cs
      rw [hcons] at h
      rcases List.mem_cons.mp h with rfl | hmem
      · exact List.not_mem_cons_of_ne_of_not_mem
          (Ne.symm hd) (ih (hcs ▸ List.mem_cons_self))
      · exact ih (hcs ▸ List.mem_cons_of_mem _ hmem)

/-! ## The first separator and the last -/

theorem splitFirst_of_not_mem {c : Char} {cs : List Char} (h : c ∉ cs) :
    splitFirst c cs = none := by
  induction cs with
  | nil => rfl
  | cons d rest ih =>
    obtain ⟨hd, hrest⟩ := List.ne_and_not_mem_of_not_mem_cons h
    rw [splitFirst, if_neg hd.symm, ih hrest]
    rfl

theorem splitFirst_append {c : Char} {front : List Char} (h : c ∉ front)
    (rest : List Char) :
    splitFirst c (front ++ c :: rest) = some (front, rest) := by
  induction front with
  | nil => exact if_pos rfl
  | cons d front ih =>
    obtain ⟨hd, hfront⟩ := List.ne_and_not_mem_of_not_mem_cons h
    rw [List.cons_append, splitFirst, if_neg hd.symm, ih hfront]
    rfl

theorem splitLast_of_not_mem {c : Char} {cs : List Char} (h : c ∉ cs) :
    splitLast c cs = none := by
  induction cs with
  | nil => rfl
  | cons d rest ih =>
    obtain ⟨hd, hrest⟩ := List.ne_and_not_mem_of_not_mem_cons h
    rw [splitLast, ih hrest]
    exact if_neg hd.symm

theorem splitLast_append {c : Char} {tail : List Char} (htail : c ∉ tail)
    (front : List Char) :
    splitLast c (front ++ c :: tail) = some (front, tail) := by
  induction front with
  | nil =>
    rw [List.nil_append, splitLast, splitLast_of_not_mem htail]
    exact if_pos rfl
  | cons d front ih => rw [List.cons_append, splitLast, ih]

/-! ## Beginnings and endings -/

theorem dropStart?_eq_some {start text rest : List Char} :
    dropStart? start text = some rest ↔ text = start ++ rest := by
  induction start generalizing text with
  | nil => exact Option.some_inj
  | cons a start ih =>
    cases text with
    | nil => exact iff_of_false (fun h => by cases h) fun h => by cases h
    | cons b text =>
      rw [dropStart?, List.cons_append, List.cons.injEq]
      split
      · next heq => exact ih.trans ⟨fun h => ⟨heq.symm, h⟩, fun h => h.2⟩
      · next hne => exact iff_of_false (fun h => by cases h) fun h => hne h.1.symm

theorem dropEnding?_eq_some {ending text front : List Char} :
    dropEnding? ending text = some front ↔ text = front ++ ending := by
  unfold dropEnding?
  rw [Option.map_eq_some_iff]
  constructor
  · rintro ⟨rest, hrest, rfl⟩
    have h := congrArg List.reverse (dropStart?_eq_some.mp hrest)
    rw [List.reverse_reverse, List.reverse_append, List.reverse_reverse] at h
    exact h
  · rintro rfl
    exact ⟨front.reverse, dropStart?_eq_some.mpr List.reverse_append,
      List.reverse_reverse front⟩

theorem occurs_eq_true {part cs : List Char} :
    occurs part cs = true ↔ part <:+: cs := by
  have hstart (text : List Char) : (dropStart? part text).isSome = true ↔
      part <+: text := by
    rw [Option.isSome_iff_exists]
    exact exists_congr fun rest => dropStart?_eq_some.trans eq_comm
  induction cs with
  | nil => exact List.isEmpty_iff.trans List.infix_nil.symm
  | cons c cs ih =>
    exact Bool.or_eq_true_iff.trans
      ((or_congr (hstart _) ih).trans List.infix_cons_iff.symm)

theorem endsWith_eq_true {s ending : String} :
    endsWith s ending = true ↔ ∃ front, s.toList = front ++ ending.toList := by
  unfold endsWith
  rw [Option.isSome_iff_exists]
  exact exists_congr fun front => dropEnding?_eq_some

theorem ofList_ne_of_length {cs : List Char} {s : String}
    (h : s.toList.length < cs.length) : String.ofList cs ≠ s := by
  rintro rfl
  rw [String.toList_ofList] at h
  omega

/-! ## Blanks -/

theorem head?_dropWhile_isBlank (cs : List Char) {c : Char}
    (h : (cs.dropWhile isBlank).head? = some c) :
    isBlank c = false := by
  induction cs with
  | nil => cases h
  | cons d rest ih =>
    rw [List.dropWhile_cons] at h
    split at h
    · exact ih h
    · next hd =>
      cases h
      simpa using hd

/-- What has no blanks at its ends is trimmed. -/
theorem trimChars_eq_self {cs : List Char}
    (hfirst : ∀ c, cs.head? = some c → isBlank c = false)
    (hlast : ∀ c, cs.getLast? = some c → isBlank c = false) :
    trimChars cs = cs := by
  have hdrop : ∀ {l : List Char}, (∀ c, l.head? = some c → isBlank c = false) →
      l.dropWhile isBlank = l := by
    intro l hl
    cases l with
    | nil => rfl
    | cons d rest => rw [List.dropWhile_cons, hl d rfl, if_neg Bool.false_ne_true]
  unfold trimChars
  rw [hdrop hfirst, hdrop fun c hc =>
    hlast c (by rwa [List.head?_reverse] at hc), List.reverse_reverse]

theorem head?_trimChars {cs : List Char} {c : Char}
    (h : (trimChars cs).head? = some c) : isBlank c = false := by
  unfold trimChars at h
  rw [List.head?_reverse] at h
  have hsuffix : ((cs.dropWhile isBlank).reverse.dropWhile isBlank) <:+
      (cs.dropWhile isBlank).reverse :=
    List.dropWhile_suffix _
  obtain ⟨front, hfront⟩ := hsuffix
  refine head?_dropWhile_isBlank cs ?_
  rw [← List.getLast?_reverse, ← hfront, List.getLast?_append, h]
  rfl

theorem trim_eq_self {s : String}
    (hfirst : ∀ c, s.toList.head? = some c → isBlank c = false)
    (hlast : ∀ c, s.toList.getLast? = some c → isBlank c = false) :
    trim s = s := by
  unfold trim
  rw [trimChars_eq_self hfirst hlast, String.ofList_toList]

theorem getLast?_trimChars {cs : List Char} {c : Char}
    (h : (trimChars cs).getLast? = some c) : isBlank c = false := by
  unfold trimChars at h
  rw [List.getLast?_reverse] at h
  exact head?_dropWhile_isBlank _ h

@[simp] theorem trimChars_trimChars (cs : List Char) :
    trimChars (trimChars cs) = trimChars cs :=
  trimChars_eq_self (fun _ => head?_trimChars) fun _ => getLast?_trimChars

/-- Trimming keeps a first character that is not blank. -/
theorem trimChars_cons {c : Char} (hc : isBlank c = false) (rest : List Char) :
    ∃ more, trimChars (c :: rest) = c :: more := by
  unfold trimChars
  rw [List.dropWhile_cons, hc, if_neg Bool.false_ne_true, List.reverse_cons,
    List.dropWhile_append]
  split
  · exact ⟨[], by rw [List.dropWhile_cons, hc, if_neg Bool.false_ne_true]; rfl⟩
  · exact ⟨_, by rw [List.reverse_append]; rfl⟩

/-- Nothing but blanks. -/
def Blank (cs : List Char) : Prop := ∀ c ∈ cs, isBlank c = true

theorem dropWhile_isBlank_append {front : List Char} (h : Blank front)
    (cs : List Char) :
    (front ++ cs).dropWhile isBlank = cs.dropWhile isBlank := by
  induction front with
  | nil => rfl
  | cons c front ih =>
    obtain ⟨hc, hfront⟩ := List.forall_mem_cons.mp h
    rw [List.cons_append, List.dropWhile_cons, if_pos hc, ih hfront]

theorem Blank.reverse {cs : List Char} (h : Blank cs) :
    Blank cs.reverse := fun c hc => h c (List.mem_reverse.mp hc)

theorem Blank.append {front rest : List Char} (h : Blank front)
    (k : Blank rest) : Blank (front ++ rest) :=
  fun c hc => (List.mem_append.mp hc).elim (h c) (k c)

/-- Trimming gives what stands between the blanks, if it begins
and ends with none. -/
theorem trimChars_append {lead core trail : List Char} (hlead : Blank lead)
    (htrail : Blank trail)
    (hfirst : ∀ c, core.head? = some c → isBlank c = false)
    (hlast : ∀ c, core.getLast? = some c → isBlank c = false) :
    trimChars (lead ++ core ++ trail) = core := by
  cases core with
  | nil =>
    have hnone : (lead ++ trail).dropWhile isBlank = [] :=
      List.dropWhile_eq_nil_iff.mpr (hlead.append htrail)
    unfold trimChars
    rw [List.append_nil, hnone]
    rfl
  | cons c core =>
    have hc : isBlank c = false := hfirst c rfl
    have hkept : (c :: core ++ trail).dropWhile isBlank = c :: core ++ trail := by
      rw [List.cons_append, List.dropWhile_cons, hc, if_neg Bool.false_ne_true]
    have hback : (c :: core).reverse.dropWhile isBlank = (c :: core).reverse := by
      have htrimmed := congrArg List.reverse (trimChars_eq_self hfirst hlast)
      unfold trimChars at htrimmed
      rwa [List.reverse_reverse, List.dropWhile_cons, hc,
        if_neg Bool.false_ne_true] at htrimmed
    unfold trimChars
    rw [List.append_assoc, dropWhile_isBlank_append hlead, hkept,
      List.reverse_append, dropWhile_isBlank_append htrail.reverse,
      hback, List.reverse_reverse]

/-- A text is what trimming leaves of it, between blanks. -/
theorem exists_blank_trimChars (cs : List Char) :
    ∃ lead trail, Blank lead ∧ Blank trail ∧
    cs = lead ++ trimChars cs ++ trail := by
  have hblank : ∀ l : List Char, Blank (l.takeWhile isBlank) :=
    fun l c hc => List.mem_takeWhile_imp hc
  refine ⟨cs.takeWhile isBlank,
    ((cs.dropWhile isBlank).reverse.takeWhile isBlank).reverse, hblank _,
    (hblank _).reverse, ?_⟩
  unfold trimChars
  rw [List.append_assoc, ← List.reverse_append, List.takeWhile_append_dropWhile,
    List.reverse_reverse,
    List.takeWhile_append_dropWhile]

/-! ## Numbers -/

/-- The text is a number in decimal digits. -/
structure Digits (cs : List Char) (number : Nat) : Prop where
  some : cs ≠ []
  digits : ∀ c ∈ cs, c.isDigit = true
  denotes : Nat.ofDigitChars 10 cs 0 = number

theorem digits_toDigits (number : Nat) : Digits (Nat.toDigits 10 number) number :=
  ⟨Nat.toDigits_ne_nil, fun _ hc =>
    Nat.isDigit_of_mem_toDigits (by decide) (by decide) hc,
    Nat.ofDigitChars_ten_toDigits⟩

/-- Digits are read as the number that they denote, with or without a plus sign
before them, and nothing else is read. -/
theorem readNat?_eq_some {cs : List Char} {number : Nat} :
    readNat? cs = some number ↔ Digits cs number ∨ ∃ rest,
    cs = '+' :: rest ∧ Digits rest number := by
  have hread : ∀ digits : List Char,
      (if digits.isEmpty || !digits.all Char.isDigit then none
      else some (digits.foldl (fun n c => n * 10 + (c.toNat - '0'.toNat)) 0)) =
          some number ↔ Digits digits number := by
    intro digits
    have hvalue : digits.foldl (fun n c => n * 10 + (c.toNat - '0'.toNat)) 0 =
        Nat.ofDigitChars 10 digits 0 := by
      unfold Nat.ofDigitChars
      simp only [Nat.mul_comm]
    rw [hvalue]
    constructor
    · intro h
      split at h
      · cases h
      · next hgood =>
        cases h
        obtain ⟨hsome, hall⟩ : digits ≠ [] ∧
          ∀ c ∈ digits, c.isDigit = true := by simpa using hgood
        exact ⟨hsome, hall, rfl⟩
    · rintro ⟨hsome, hall, rfl⟩
      rw [if_neg (by simpa using ⟨hsome, hall⟩)]
  have hplus : ∀ rest, ¬ Digits ('+' :: rest) number := fun rest h => by
    exact absurd (h.digits '+' (List.mem_cons_self ..)) (by decide)
  unfold readNat?
  split
  · next rest =>
    refine (hread rest).trans ⟨fun h => Or.inr ⟨rest, rfl, h⟩, fun h => ?_⟩
    rcases h with h | ⟨_, heq, h⟩
    · exact absurd h (hplus rest)
    · cases heq
      exact h
  · next hne =>
    refine (hread cs).trans ⟨Or.inl, fun h => ?_⟩
    rcases h with h | ⟨rest, heq, -⟩
    · exact h
    · exact absurd heq (hne rest)

theorem readWord?_eq_some {cs : List Char} {number : Nat} :
    readWord? cs = some number ↔
    readNat? cs = some number ∧ number < 0x10000000000000000 := by
  unfold readWord?
  rw [Option.bind_eq_some_iff]
  constructor
  · rintro ⟨read, hread, hword⟩
    split at hword
    · next hfits =>
      cases hword
      exact ⟨hread, hfits⟩
    · cases hword
  · rintro ⟨hread, hfits⟩
    exact ⟨number, hread, if_pos hfits⟩

end Playbook.Text
