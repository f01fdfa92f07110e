import Mathlib.Data.List.Basic
import Playbook.Interval
import Playbook.Proofs.Text

/-!
# Playbook — durations as they are written

A duration is written as a number in a unit, with blanks around each of them.
What is written so is read, and nothing else. Milliseconds and seconds are
counted in words, and a number that does not fit one is refused. Minutes are
turned into seconds in a word too, but there a number of seconds that does not
fit is not refused: the program ends.

Main results:

* `Interval.parse_of_written`, `Interval.written_of_parse` — the texts that are not
  malformed are the durations that are written, each read as its number in its unit.
* `Interval.exact_unless_overflow` — a duration is read exactly, or not at all,
  unless it is a number of minutes that has too many seconds.
-/

namespace Playbook

namespace Interval

/-! ## How durations are written -/

/-- The units of durations. -/
inductive TimeUnit where
  | millisecond
  | second
  | minute
deriving DecidableEq, Repr

namespace TimeUnit

/-- The ways to write a unit. -/
def spellings : TimeUnit → List (List Char)
  | millisecond => [['m', 's']]
  | second => [[], ['s'], ['S']]
  | minute => [['m'], ['M']]

/-- The milliseconds in a unit. -/
def length : TimeUnit → Nat
  | millisecond => 1
  | second => 1000
  | minute => 60000

/-- How many of what is counted are in a unit: milliseconds in a millisecond,
and otherwise seconds. -/
def counted : TimeUnit → Nat
  | millisecond | second => 1
  | minute => 60

/-- The milliseconds in a number of units, if what is counted fits a word. -/
def exactly (unit : TimeUnit) (number : Nat) : Reading :=
  if number * unit.counted < 0x10000000000000000 then
    .duration (number * unit.length)
  else .malformed

/-- What the text of a number in front of the unit is read as. -/
def tell : TimeUnit → List Char → Reading
  | millisecond => count 1
  | second => count 1000
  | minute => countMinutes

end TimeUnit

/-- The text is a number in decimal digits, with or without a plus
sign before them. -/
def Numeral (cs : List Char) (number : Nat) : Prop :=
  ∃ sign digits, cs = sign ++ digits ∧ (sign = [] ∨ sign = ['+']) ∧
  Text.Digits digits number

/-- The text is a number in a unit, with blanks around both. -/
inductive Written : List Char → Nat → TimeUnit → Prop
  | intro {lead numeral gap letters trail : List Char} {number : Nat}
      {unit : TimeUnit} (hlead : Text.Blank lead)
      (hnumber : Numeral numeral number) (hgap : Text.Blank gap)
      (hletters : letters ∈ unit.spellings)
      (htrail : Text.Blank trail) :
      Written (lead ++ (numeral ++ gap ++ letters) ++ trail) number unit

/-- The number fits a word, and the seconds in so many minutes do not. -/
def Overflows (number : Nat) (unit : TimeUnit) : Prop :=
  unit = .minute ∧ number < 0x10000000000000000 ∧ 0x10000000000000000 ≤ number * 60

instance (number : Nat) (unit : TimeUnit) : Decidable (Overflows number unit) :=
  inferInstanceAs (Decidable (_ ∧ _ ∧ _))

/-! ## Numbers -/

theorem readWord?_numeral {cs : List Char} {number : Nat} (h : Numeral cs number) :
    Text.readWord? cs = if number < 0x10000000000000000 then some number
    else none := by
  obtain ⟨sign, digits, rfl, hsign, hdigits⟩ := h
  have hread : Text.readNat? (sign ++ digits) = some number := by
    refine Text.readNat?_eq_some.mpr ?_
    rcases hsign with rfl | rfl
    · exact Or.inl hdigits
    · exact Or.inr ⟨digits, rfl, hdigits⟩
  unfold Text.readWord?
  rw [hread]
  rfl

theorem numeral_of_readWord? {cs : List Char} {number : Nat}
    (h : Text.readWord? cs = some number) :
    Numeral cs number ∧ number < 0x10000000000000000 := by
  obtain ⟨hread, hfits⟩ := Text.readWord?_eq_some.mp h
  refine ⟨?_, hfits⟩
  rcases Text.readNat?_eq_some.mp hread with hdigits | ⟨digits, rfl, hdigits⟩
  · exact ⟨[], cs, rfl, Or.inl rfl, hdigits⟩
  · exact ⟨['+'], digits, rfl, Or.inr rfl, hdigits⟩

theorem numeral_of_tell {unit : TimeUnit} {cs : List Char}
    (h : unit.tell cs ≠ .malformed) :
    ∃ number, Numeral cs number := by
  cases hread : Text.readWord? cs with
  | some number => exact ⟨number, (numeral_of_readWord? hread).1⟩
  | none =>
    cases unit <;>
      exact absurd
        (by simp only [TimeUnit.tell, count, countMinutes, hread]) h

/-- A number in front of a unit is told exactly, unless its seconds do not fit. -/
theorem tell_numeral (unit : TimeUnit) {cs : List Char} {number : Nat}
    (h : Numeral cs number) :
    unit.tell cs = if Overflows number unit then .overflow
    else unit.exactly number := by
  have hread := readWord?_numeral h
  by_cases hnumber : number < 0x10000000000000000
  · rw [if_pos hnumber] at hread
    cases unit with
    | millisecond | second =>
      rw [if_neg fun hover => TimeUnit.noConfusion hover.1]
      simp only [TimeUnit.tell, TimeUnit.exactly, TimeUnit.counted,
        TimeUnit.length, count, hread,
        Nat.mul_one, if_pos hnumber]
    | minute =>
      simp only [TimeUnit.tell, countMinutes, hread]
      by_cases hseconds : number * 60 < 0x10000000000000000
      · rw [if_pos hseconds, if_neg fun hover =>
          absurd hseconds (Nat.not_lt.mpr hover.2.2)]
        exact (congrArg _ (Nat.mul_assoc number 60 1000)).trans
          (if_pos hseconds).symm
      · rw [if_neg hseconds, if_pos ⟨rfl, hnumber, Nat.le_of_not_lt hseconds⟩]
  · -- what does not fit itself is refused before it is counted
    rw [if_neg hnumber] at hread
    rw [if_neg fun hover => hnumber hover.2.1]
    have hcounted : ¬ number * unit.counted < 0x10000000000000000 := by
      cases unit <;> simp only [TimeUnit.counted] <;> omega
    cases unit <;> simp only [TimeUnit.tell, count, countMinutes, hread,
      TimeUnit.exactly, if_neg hcounted]

/-- None of the printing characters of ASCII is a blank. -/
theorem isBlank_of_printing {c : Char} (h : 33 ≤ c.toNat ∧ c.toNat ≤ 126) :
    Text.isBlank c = false := by
  simp only [Text.isBlank, Bool.or_eq_false_iff, Bool.and_eq_false_iff,
    decide_eq_false_iff_not, beq_eq_false_iff_ne]
  omega

theorem range_of_isAlpha {c : Char} (h : c.isAlpha = true) :
    65 ≤ c.toNat ∧ c.toNat ≤ 90 ∨ 97 ≤ c.toNat ∧ c.toNat ≤ 122 := by
  rcases Bool.or_eq_true_iff.mp h with hupper | hlower
  · exact Or.inl (of_decide_eq_true hupper)
  · obtain ⟨hfirst, hlast⟩ := Bool.and_eq_true_iff.mp hlower
    exact Or.inr ⟨of_decide_eq_true hfirst, of_decide_eq_true hlast⟩

theorem range_of_isDigit {c : Char} (h : c.isDigit = true) :
    48 ≤ c.toNat ∧ c.toNat ≤ 57 := by
  obtain ⟨hfirst, hlast⟩ := Bool.and_eq_true_iff.mp h
  exact ⟨of_decide_eq_true hfirst, of_decide_eq_true hlast⟩

theorem isBlank_of_isAlpha {c : Char} (h : c.isAlpha = true) :
    Text.isBlank c = false := by
  have hrange := range_of_isAlpha h
  exact isBlank_of_printing (by omega)

namespace Numeral

variable {cs gap : List Char} {number : Nat} (h : Numeral cs number)

include h

theorem ne_nil : cs ≠ [] := by
  obtain ⟨sign, digits, rfl, -, hdigits⟩ := h
  exact List.append_ne_nil_of_right_ne_nil _ hdigits.some

/-- The characters of numbers are neither letters nor blanks. -/
theorem plain {c : Char} (hc : c ∈ cs) :
    c.isAlpha = false ∧ Text.isBlank c = false := by
  obtain ⟨sign, digits, rfl, hsign, hdigits⟩ := h
  rcases List.mem_append.mp hc with hmem | hmem
  · rcases hsign with rfl | rfl
    · cases hmem
    · obtain rfl := List.mem_singleton.mp hmem
      decide
  · have hdigit := range_of_isDigit (hdigits.digits c hmem)
    -- the digits come before the letters
    have hletter : ¬ c.isAlpha = true := fun halpha => by
      have hrange := range_of_isAlpha halpha
      omega
    exact ⟨Bool.eq_false_iff.mpr hletter, isBlank_of_printing (by omega)⟩

/-- Blanks behind a number are trimmed away. -/
theorem trim (hgap : Text.Blank gap) : Text.trimChars (cs ++ gap) = cs := by
  have hlead : Text.Blank [] := fun _ hc => absurd hc List.not_mem_nil
  refine Text.trimChars_append hlead hgap (fun c hc => ?_) fun c hc => ?_
  · exact (h.plain (List.mem_of_head? hc)).2
  · exact (h.plain (List.mem_of_getLast? hc)).2

/-- Up to a unit, a duration has no letters. -/
theorem not_isAlpha (hgap : Text.Blank gap) {c : Char} (hc : c ∈ cs ++ gap) :
    c.isAlpha = false := by
  rcases List.mem_append.mp hc with hmem | hmem
  · exact (h.plain hmem).1
  · rw [Bool.eq_false_iff]
    intro halpha
    exact absurd (hgap c hmem) (by simp [isBlank_of_isAlpha halpha])

/-- Trimming a duration with a unit that is written leaves the number, what is
between them, and the unit. -/
theorem trim_letters {lead letters trail : List Char} (hlead : Text.Blank lead)
    (htrail : Text.Blank trail) {last : Char}
    (hlast : letters.getLast? = some last) (halpha : last.isAlpha = true) :
    Text.trimChars (lead ++ (cs ++ gap ++ letters) ++ trail) =
    cs ++ gap ++ letters := by
  refine Text.trimChars_append hlead htrail (fun c hc => ?_) fun c hc => ?_
  · rw [List.append_assoc, List.head?_append_of_ne_nil _ h.ne_nil] at hc
    exact (h.plain (List.mem_of_head? hc)).2
  · rw [List.getLast?_append, hlast] at hc
    cases hc
    exact isBlank_of_isAlpha halpha

end Numeral

/-! ## Reading what is written -/

theorem parse_of_millisecond {text : String} {front : List Char}
    (h : Text.trimChars text.toList = front ++ ['m', 's']) :
    parse text = TimeUnit.millisecond.tell (Text.trimChars front) := by
  unfold parse
  dsimp only
  rw [h, Text.dropEnding?_eq_some.mpr rfl]
  rfl

/-- After a single letter the unit is looked up. -/
theorem parse_of_letter {text : String} {front : List Char} {last : Char}
    (h : Text.trimChars text.toList = front ++ [last])
    (halpha : last.isAlpha = true) (hms : last ≠ 's' ∨ 'm' ∉ front) :
    parse text =
      if last = 's' ∨ last = 'S' then TimeUnit.second.tell (Text.trimChars front)
      else if last = 'm' ∨ last = 'M' then
        TimeUnit.minute.tell (Text.trimChars front)
      else .malformed := by
  have hnone : Text.dropEnding? ['m', 's'] (front ++ [last]) = none := by
    rw [Option.eq_none_iff_forall_ne_some]
    intro rest hrest
    have hends : front ++ [last] = rest ++ ['m'] ++ ['s'] := by
      rw [Text.dropEnding?_eq_some.mp hrest, List.append_assoc]
      rfl
    obtain ⟨rfl, hsame⟩ := List.append_inj' hends rfl
    rcases hms with hne | hnot
    · exact hne (List.cons.inj hsame).1
    · exact hnot (List.mem_append_right _ (List.mem_singleton_self _))
  unfold parse
  dsimp only
  rw [h, hnone, List.getLast?_concat, List.dropLast_concat]
  dsimp only
  rw [if_pos halpha]
  rfl

theorem parse_of_bare {text : String} {core : List Char} {last : Char}
    (h : Text.trimChars text.toList = core) (hlast : core.getLast? = some last)
    (halpha : last.isAlpha = false) : parse text = TimeUnit.second.tell core := by
  have hnone : Text.dropEnding? ['m', 's'] core = none := by
    rw [Option.eq_none_iff_forall_ne_some]
    intro rest hrest
    rw [Text.dropEnding?_eq_some.mp hrest, List.getLast?_append] at hlast
    cases hlast
    cases halpha
  unfold parse
  dsimp only
  rw [h, hnone, hlast]
  dsimp only
  rw [halpha, if_neg Bool.false_ne_true]
  rfl

/-- A duration that is written is read as its number tells in its unit. -/
theorem parse_of_written {text : String} {number : Nat} {unit : TimeUnit}
    (h : Written text.toList number unit) :
    parse text = if Overflows number unit then .overflow
    else unit.exactly number := by
  generalize htext : text.toList = cs at h
  obtain ⟨hlead, hnumber, hgap, hletters, htrail⟩ := h
  rename_i lead numeral gap letters trail
  rw [← tell_numeral unit hnumber]
  have hnot : 'm' ∉ numeral ++ gap := fun hm =>
    absurd (hnumber.not_isAlpha hgap hm) (by decide)
  have hletter : ∀ last : Char, letters = [last] → last.isAlpha = true →
      parse text =
        if last = 's' ∨ last = 'S' then TimeUnit.second.tell numeral
        else if last = 'm' ∨ last = 'M' then TimeUnit.minute.tell numeral
        else .malformed := by
    rintro last rfl halpha
    have htrim : Text.trimChars (lead ++ (numeral ++ gap ++ [last]) ++ trail) =
        numeral ++ gap ++ [last] :=
      hnumber.trim_letters hlead htrail rfl halpha
    rw [parse_of_letter (htext ▸ htrim) halpha (Or.inr hnot), hnumber.trim hgap]
  cases unit with
  | millisecond =>
    obtain rfl := List.mem_singleton.mp hletters
    have htrim : Text.trimChars (lead ++ (numeral ++ gap ++ ['m', 's']) ++ trail) =
        numeral ++ gap ++ ['m', 's'] :=
      hnumber.trim_letters hlead htrail rfl (by decide)
    rw [parse_of_millisecond (htext ▸ htrim), hnumber.trim hgap]
  | second =>
    rcases List.mem_cons.mp hletters with rfl | hletters
    · -- the blanks before a unit that is not written are at the end
      have htrim : Text.trimChars (lead ++ (numeral ++ gap ++ []) ++ trail) =
          numeral := by
        have hends : ∀ c, numeral.head? = some c ∨ numeral.getLast? = some c →
            Text.isBlank c = false := by
          rintro c (hc | hc)
          · exact (hnumber.plain (List.mem_of_head? hc)).2
          · exact (hnumber.plain (List.mem_of_getLast? hc)).2
        rw [List.append_nil, List.append_assoc,
          List.append_assoc, ← List.append_assoc lead]
        exact Text.trimChars_append hlead (hgap.append htrail)
          (fun c hc => hends c (Or.inl hc)) fun c hc => hends c (Or.inr hc)
      obtain ⟨last, hlast⟩ : ∃ last, numeral.getLast? = some last :=
        ⟨_, List.getLast?_eq_getLast_of_ne_nil hnumber.ne_nil⟩
      exact parse_of_bare (htext ▸ htrim) hlast
        (hnumber.plain (List.mem_of_getLast? hlast)).1
    · rcases List.mem_cons.mp hletters with rfl | hletters
      · exact hletter 's' rfl (by decide)
      · obtain rfl := List.mem_singleton.mp hletters
        exact hletter 'S' rfl (by decide)
  | minute =>
    rcases List.mem_cons.mp hletters with rfl | hletters
    · exact hletter 'm' rfl (by decide)
    · obtain rfl := List.mem_singleton.mp hletters
      exact hletter 'M' rfl (by decide)

/-- Behind what is read as a number there may be blanks and a unit. -/
theorem written_of_numeral {cs front letters : List Char} {number : Nat}
    {unit : TimeUnit} (hcs : Text.trimChars cs = front ++ letters)
    (hnumber : Numeral (Text.trimChars front) number)
    (hletters : letters ∈ unit.spellings) : Written cs number unit := by
  obtain ⟨lead, trail, hlead, htrail, houter⟩ := Text.exists_blank_trimChars cs
  obtain ⟨first, gap, hfirst, hgap, hinner⟩ := Text.exists_blank_trimChars front
  have hwritten := Written.intro (hlead.append hfirst) hnumber hgap hletters htrail
  rw [houter, hcs, hinner]
  simpa only [List.append_assoc] using hwritten

/-- What is not malformed is a duration that is written. -/
theorem written_of_parse {text : String} (h : parse text ≠ .malformed) :
    ∃ number unit, Written text.toList number unit := by
  -- the text of the number ends where the unit begins
  have hwritten : ∀ (unit : TimeUnit) (front letters : List Char),
      Text.trimChars text.toList = front ++ letters → letters ∈ unit.spellings →
      unit.tell (Text.trimChars front) ≠ .malformed →
      ∃ number unit, Written text.toList number unit := by
    intro unit front letters hcs hletters htell
    obtain ⟨number, hnumber⟩ := numeral_of_tell htell
    exact ⟨number, unit, written_of_numeral hcs hnumber hletters⟩
  unfold parse at h
  dsimp only at h
  split at h
  · next front hends =>
    exact hwritten .millisecond front _
      (Text.dropEnding?_eq_some.mp hends) (by decide) h
  · split at h
    · exact absurd rfl h
    · next last hlast =>
      obtain ⟨front, hfront⟩ := List.getLast?_eq_some_iff.mp hlast
      split at h
      · rw [hfront, List.dropLast_concat] at h
        split at h
        · next hs =>
          refine hwritten .second front [last] hfront ?_ h
          rcases hs with rfl | rfl <;> decide
        · split at h
          · next hm =>
            refine hwritten .minute front [last] hfront ?_ h
            rcases hm with rfl | rfl <;> decide
          · exact absurd rfl h
      · refine hwritten .second (Text.trimChars text.toList) []
          (List.append_nil _).symm (by decide) ?_
        rwa [Text.trimChars_trimChars]

/-! ## Exactness -/

theorem exactly_ne_overflow (unit : TimeUnit) (number : Nat) :
    unit.exactly number ≠ .overflow := by
  unfold TimeUnit.exactly
  split
  · exact Reading.noConfusion
  · exact Reading.noConfusion

theorem written_toString (number : Nat) {unit : TimeUnit} {letters : List Char}
    (h : letters ∈ unit.spellings) :
    Written (toString number ++ String.ofList letters).toList number unit := by
  have hblank : Text.Blank [] := fun _ hc => absurd hc List.not_mem_nil
  have hdigits : (toString number).toList = Nat.toDigits 10 number :=
    Nat.toList_repr
  have hnumber : Numeral (toString number).toList number :=
    ⟨[], (toString number).toList, rfl, Or.inl rfl,
      hdigits ▸ Text.digits_toDigits number⟩
  have hwritten := Written.intro hblank hnumber hblank h hblank
  rw [String.toList_append, String.toList_ofList]
  simpa only [List.nil_append, List.append_nil] using hwritten

/-- **Durations are read exactly or not at all**, unless they are minutes with
too many seconds. A number that is written in a unit is read as the milliseconds
in so many units, or refused if what is counted does not fit a word, exactly if
it is not a number of minutes that fits a word while their seconds do not; the
program ends at such a number. No other text is read. Digits right before a unit
are a number that is written. -/
theorem exact_unless_overflow (text : String) :
    (∀ number unit, Written text.toList number unit →
      (parse text = unit.exactly number ↔ ¬ Overflows number unit) ∧
      (Overflows number unit → parse text = .overflow)) ∧
    ((∀ number unit, ¬ Written text.toList number unit) → parse text = .malformed) ∧
    ∀ number unit, ∀ letters ∈ TimeUnit.spellings unit,
      text = toString number ++ String.ofList letters →
      Written text.toList number unit := by
  refine ⟨fun number unit h => ?_, fun h => ?_,
    fun number unit letters hletters htext => ?_⟩
  · rw [parse_of_written h]
    by_cases hover : Overflows number unit
    · rw [if_pos hover]
      exact ⟨iff_of_false (exactly_ne_overflow unit number).symm
        (not_not_intro hover), fun _ => rfl⟩
    · rw [if_neg hover]
      exact ⟨iff_of_true rfl hover, fun h => absurd h hover⟩
  · by_contra hread
    obtain ⟨number, unit, hwritten⟩ := written_of_parse hread
    exact h number unit hwritten
  · rw [htext]
    exact written_toString number hletters

/-- The greatest number of minutes whose seconds fit, with a
plus sign and blanks. -/
theorem most_minutes :
    Written " +307445734561825860 M\n".toList 307445734561825860 .minute ∧
      ¬ Overflows 307445734561825860 .minute ∧
      parse " +307445734561825860 M\n" = .duration 18446744073709551600000 := by
  have hspace : Text.Blank [' '] := List.forall_mem_singleton.mpr (by decide)
  have hline : Text.Blank ['\n'] := List.forall_mem_singleton.mpr (by decide)
  have hnumber : Numeral ("+307445734561825860".toList) 307445734561825860 :=
    (numeral_of_readWord? (by decide +kernel)).1
  have hletters : ['M'] ∈ TimeUnit.minute.spellings := by decide
  have hwritten : Written " +307445734561825860 M\n".toList
      307445734561825860 .minute :=
    .intro hspace hnumber hspace hletters hline
  have hfits : ¬ Overflows 307445734561825860 .minute :=
    fun h => absurd h.2.2 (by decide)
  exact ⟨hwritten, hfits,
    (((exact_unless_overflow _).1 _ _ hwritten).1.mpr hfits).trans (by decide)⟩

/-- One minute more has too many seconds for a word: it is not refused, and the
program ends. -/
theorem minute_too_many :
    Written "307445734561825861m".toList 307445734561825861 .minute ∧
      TimeUnit.exactly .minute 307445734561825861 = .malformed ∧
      parse "307445734561825861m" = .overflow := by
  have hletters : ['m'] ∈ TimeUnit.minute.spellings := by decide
  have hwritten : Written "307445734561825861m".toList 307445734561825861 .minute :=
    written_toString 307445734561825861 hletters
  exact ⟨hwritten, by decide, parse_of_written hwritten⟩

end Interval

end Playbook
