import Playbook.Text

/-!
# Playbook — durations

A duration is a natural number followed by a unit: `ms`, `s` or no unit at all
for seconds, `m` for minutes; the letters for seconds and minutes may be
capitals. Blanks around the number are ignored. Durations are counted in
milliseconds. Numbers are 64-bit words, and so is the number of seconds that
minutes amount to: a product that does not fit is not noticed in time, and the
program ends there.
-/

namespace Playbook.Interval

/-- What a text says as a duration. -/
inductive Reading where
  | duration (milliseconds : Nat)
  | malformed
  /-- Minutes whose seconds do not fit their word. The program ends. -/
  | overflow
deriving DecidableEq, Inhabited, Repr

/-- The number that a text says, counted in a unit of so many milliseconds. -/
def count (unit : Nat) (text : List Char) : Reading :=
  match Text.readWord? text with
  | some n => .duration (n * unit)
  | none => .malformed

/-- The number of minutes that a text says. Their seconds are a word as well. -/
def countMinutes (text : List Char) : Reading :=
  match Text.readWord? text with
  | some n => if n * 60 < 0x10000000000000000 then .duration (n * 60 * 1000)
    else .overflow
  | none => .malformed

/-- Reads a duration. -/
def parse (text : String) : Reading :=
  let cs := Text.trimChars text.toList
  match Text.dropEnding? ['m', 's'] cs with
  | some rest => count 1 (Text.trimChars rest)
  | none => match cs.getLast? with
    | none => .malformed
    | some last =>
      if last.isAlpha then
        let number := Text.trimChars cs.dropLast
        if last = 's' ∨ last = 'S' then count 1000 number
        else if last = 'm' ∨ last = 'M' then countMinutes number
        else .malformed
      else count 1000 cs

end Playbook.Interval
