import Playbook.Message
import Playbook.Proofs.Namespace

/-!
# Playbook — messages that are written from parts

A message is written from literal texts and fields: every brace of a literal is
doubled, and a field is a pair of braces with nothing or a number in it. Escapes
and fields are made of the same characters and can stand next to each other in
any way. But each of them is passed over as a whole, so where a part ends the
scan begins anew, and the pieces of a message are those of its parts, one part
after the other.

Main results:

* `piecesFrom_written` — a message that was written from parts is cut into the
  pieces of these parts.
* `fillFrom_append` — what comes before a piece matters to it only by how many
  next fields there were.
* `format_written` — formatting gives the literals as they were, with the values
  in the places of the fields.
-/

namespace Playbook.Message

/-- What a message is written from. -/
inductive Part where
  | literal (text : String)
  /-- The next value. -/
  | next
  /-- The value of an index. -/
  | nth (n : Nat)
deriving DecidableEq, Repr

/-- The character of a literal as it is written: a brace is doubled. -/
def escaped (c : Char) : List Char :=
  if c = '\x7b' ∨ c = '\x7d' then [c, c] else [c]

namespace Part

/-- The part as it is written in a message. -/
def text : Part → String
  | literal text => String.ofList (text.toList.flatMap escaped)
  | next => "\x7b\x7d"
  | nth n => "\x7b" ++ toString n ++ "\x7d"

/-- What stands for the part in the formatted message; `count` next fields came
before it. A field without a value stays as it is written. -/
def filled (values : List String) (count : Nat) : Part → String
  | literal text => text
  | next => values[count]?.getD next.text
  | nth n => values[n]?.getD (nth n).text

/-- The pieces of the part. -/
def pieces : Part → List Piece
  | literal text => text.toList.map .char
  | next => [.next]
  | nth n => [.nth (Nat.toDigits 10 n)]

end Part

/-- The message that is written from parts. -/
def written (parts : List Part) : String := String.join (parts.map Part.text)

/-- The parts with the values in the places of the fields. -/
def filled (parts : List Part) (values : List String) : String :=
  String.join (parts.mapIdx fun i part =>
    part.filled values ((parts.take i).count .next))

/-! ## The pieces of a written message -/

theorem piecesFrom_escaped (c : Char) (rest : List Char) :
    piecesFrom 0 (escaped c ++ rest) = .char c :: piecesFrom 0 rest := by
  unfold escaped
  by_cases hopen : c = '\x7b'
  · subst hopen
    rfl
  · by_cases hclose : c = '\x7d'
    · subst hclose
      rfl
    · rw [if_neg (not_or.mpr ⟨hopen, hclose⟩), List.singleton_append,
        piecesFrom, if_neg hopen, if_neg fun h => hclose h.1]

theorem piecesFrom_literal (cs rest : List Char) :
    piecesFrom 0 (cs.flatMap escaped ++ rest) =
    cs.map .char ++ piecesFrom 0 rest := by
  induction cs with
  | nil => rfl
  | cons c cs ih =>
    rw [List.flatMap_cons, List.append_assoc, piecesFrom_escaped, ih,
      List.map_cons, List.cons_append]

/-- What is to be passed over is. -/
theorem piecesFrom_length_append (passed rest : List Char) :
    piecesFrom passed.length (passed ++ rest) = piecesFrom 0 rest := by
  induction passed with
  | nil => rfl
  | cons c passed ih => exact ih

/-- The digits before a closing brace are those of a field. -/
theorem fieldDigits_append {digits : List Char}
    (hdigits : ∀ c ∈ digits, Text.isDecimalDigit c = true) (rest : List Char) :
    fieldDigits (digits ++ '\x7d' :: rest) = some digits := by
  have hclose : Text.isDecimalDigit '\x7d' = false := by decide
  unfold fieldDigits
  rw [List.takeWhile_append_of_pos hdigits,
    List.dropWhile_append_of_pos hdigits,
    List.takeWhile_cons_of_neg (by simp [hclose]),
    List.dropWhile_cons_of_neg (by simp [hclose]), List.append_nil]
  rfl

theorem piecesFrom_nth {digits : List Char} (hsome : digits ≠ [])
    (hdigits : ∀ c ∈ digits, Text.isDecimalDigit c = true) (rest : List Char) :
    piecesFrom 0 ('\x7b' :: (digits ++ '\x7d' :: rest)) =
    .nth digits :: piecesFrom 0 rest := by
  have hfield := fieldDigits_append hdigits rest
  have hpassed : piecesFrom (digits.length + 1) (digits ++ '\x7d' :: rest) =
      piecesFrom 0 rest := by
    simpa using piecesFrom_length_append (digits ++ ['\x7d']) rest
  cases digits with
  | nil => exact absurd rfl hsome
  | cons digit digits =>
    -- a digit is not a second opening brace
    have hdigit : digit ≠ '\x7b' := fun h =>
      absurd (hdigits digit (List.mem_cons_self ..)) (by rw [h]; decide)
    rw [piecesFrom, if_pos rfl, if_neg (by simpa using hdigit), hfield]
    exact congrArg _ hpassed

theorem toList_text_nth (n : Nat) :
    (Part.nth n).text.toList = '\x7b' :: (Nat.toDigits 10 n ++ ['\x7d']) := by
  have hnumber : (toString n).toList = Nat.toDigits 10 n := Nat.toList_repr
  unfold Part.text
  rw [String.toList_append, String.toList_append, hnumber]
  rfl

/-- Wherever a part stands in a message, it is cut into its pieces, and the scan
begins anew behind it. -/
theorem piecesFrom_text (part : Part) (rest : List Char) :
    piecesFrom 0 (part.text.toList ++ rest) = part.pieces ++ piecesFrom 0 rest := by
  cases part with
  | literal text =>
    rw [Part.text, String.toList_ofList]
    exact piecesFrom_literal text.toList rest
  | next => rfl
  | nth n =>
    have hdigits := Text.digits_toDigits n
    rw [toList_text_nth, List.cons_append, List.append_assoc]
    exact piecesFrom_nth hdigits.some (fun c hc =>
      Text.isDecimalDigit_of_isDigit (hdigits.digits c hc)) rest

theorem toList_written_cons (part : Part) (parts : List Part) :
    (written (part :: parts)).toList =
    part.text.toList ++ (written parts).toList := by
  unfold written
  rw [List.map_cons, String.join_cons, String.toList_append]

/-- A written message is cut into the pieces of its parts. -/
theorem piecesFrom_written (parts : List Part) :
    piecesFrom 0 (written parts).toList = parts.flatMap Part.pieces := by
  induction parts with
  | nil => rfl
  | cons part parts ih =>
    rw [toList_written_cons, piecesFrom_text, ih, List.flatMap_cons]

/-! ## The values in their places -/

section

variable (values : List String)

theorem fillFrom_append (count : Nat) (front rest : List Piece) :
    fillFrom values count (front ++ rest) = fillFrom values count
      front ++ fillFrom values (count + front.count .next) rest := by
  induction front generalizing count with
  | nil => rfl
  | cons piece front ih =>
    cases piece with
    | char c =>
      rw [List.cons_append, fillFrom, fillFrom, ih, List.count_cons_of_ne (by simp)]
      rfl
    | next =>
      rw [List.cons_append, fillFrom, fillFrom, ih, List.count_cons_self,
        List.append_assoc, Nat.add_right_comm, Nat.add_assoc]
    | nth digits =>
      rw [List.cons_append, fillFrom, fillFrom, ih,
        List.count_cons_of_ne (by simp), List.append_assoc]

theorem fillFrom_chars (count : Nat) (cs : List Char) :
    fillFrom values count (cs.map .char) = cs := by
  induction cs with
  | nil => rfl
  | cons c cs ih => exact congrArg (c :: ·) ih

theorem count_next_pieces (part : Part) :
    part.pieces.count .next = [part].count .next := by
  cases part with
  | literal text =>
    rw [List.count_eq_zero.mpr fun hmem => ?_, List.count_eq_zero.mpr (by simp)]
    obtain ⟨c, -, hc⟩ := List.mem_map.mp hmem
    cases hc
  | next => rfl
  | nth n => rfl

variable {values} (hvalues : values.length ≤ 0x10000000000000000)

include hvalues

/-- The index that digits spell leads to its value, if there is one. -/
theorem value_of_toDigits (n : Nat) :
    (Text.readWord? (Nat.toDigits 10 n)).bind (values[·]?) = values[n]? := by
  have hread : Text.readNat? (Nat.toDigits 10 n) = some n :=
    Text.readNat?_eq_some.mpr (Or.inl (Text.digits_toDigits n))
  by_cases hfits : n < 0x10000000000000000
  · rw [Text.readWord?_eq_some.mpr ⟨hread, hfits⟩]
    rfl
  · -- no list has that many values, and no word is read from the digits
    rw [List.getElem?_eq_none (Nat.le_trans hvalues (Nat.le_of_not_lt hfits)),
      Option.bind_eq_none_iff]
    intro read hword
    obtain ⟨hnat, hsmall⟩ := Text.readWord?_eq_some.mp hword
    cases hread.symm.trans hnat
    exact absurd hsmall hfits

theorem fillFrom_pieces (count : Nat) (part : Part) :
    fillFrom values count part.pieces = (part.filled values count).toList := by
  cases part with
  | literal text => exact fillFrom_chars values count text.toList
  | next =>
    rw [Part.pieces, fillFrom, fillFrom, List.append_nil, Part.filled]
    cases values[count]? <;> rfl
  | nth n =>
    rw [Part.pieces, fillFrom, fillFrom, List.append_nil,
      value_of_toDigits hvalues, Part.filled]
    cases values[n]? with
    | some value => rfl
    | none => exact (toList_text_nth n).symm

/-- The parts are filled one after the other. Of those before, a part only needs
how many next fields they have. -/
theorem fillFrom_flatMap_pieces (count : Nat) (parts : List Part) :
    fillFrom values count (parts.flatMap Part.pieces) =
      (String.join (parts.mapIdx fun i part =>
        part.filled values (count + (parts.take i).count .next))).toList := by
  induction parts generalizing count with
  | nil => rfl
  | cons part parts ih =>
    have hcount : ∀ i, count + ((part :: parts).take (i + 1)).count .next =
        count + part.pieces.count .next + (parts.take i).count .next := by
      intro i
      rw [count_next_pieces, List.take_succ_cons,
        Nat.add_assoc, ← List.count_append, List.singleton_append]
    rw [List.flatMap_cons, fillFrom_append, fillFrom_pieces hvalues, ih,
      List.mapIdx_cons, String.join_cons, String.toList_append]
    simp only [hcount, List.take_zero, List.count_nil, Nat.add_zero]

end

/-- **Formatting undoes escaping.** Whatever the parts that a message is written
from, it is formatted to its literals as they were, with the value of its number
in the place of each next field and the value of its index in the place of each
other one; nothing that was put in is looked at again, and a field without a
value stays as it is written. The length of a list in memory is a word, so an
index that is none has no value. -/
theorem format_written (parts : List Part) (values : List String)
    (hvalues : values.length ≤ 0x10000000000000000) :
    format (written parts) values = filled parts values := by
  unfold format filled
  rw [piecesFrom_written, fillFrom_flatMap_pieces hvalues, String.ofList_toList]
  simp only [Nat.zero_add]

/-- Escapes next to fields, a value with braces in it, the same value by its
index, and fields without a value. -/
theorem formatted_nearby :
    let parts : List Part :=
      [.literal "\x7b", .next, .literal "\x7d\x7b", .nth 0, .next,
        .nth (100000000000000000000)]
    let values := ["\x7b1\x7d"]
    written parts =
      "\x7b\x7b\x7b\x7d\x7d\x7d\x7b\x7b\x7b0\x7d\x7b\x7d\x7b100000000000000000000\x7d" ∧
      format (written parts) values =
      "\x7b\x7b1\x7d\x7d\x7b\x7b1\x7d\x7b\x7d\x7b100000000000000000000\x7d" := by
  intro parts values
  have hformat : format (written parts) values = filled parts values :=
    format_written parts values (by decide)
  exact ⟨by decide +kernel, hformat.trans (by decide +kernel)⟩

end Playbook.Message
