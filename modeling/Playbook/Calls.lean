import Playbook.World

/-!
# Playbook — requests to items

Runners and computations ask items to export themselves and to run actions. `Calls`
answers such requests; what a runner does is stated for any such function.

A computation in a program file is given its arguments as one JSON object and
cannot be given an item: every item among the arguments is exported to a file,
whose path takes its place.
-/

namespace Playbook

/-- Answers requests to items. -/
abbrev Calls := Handle → Request → Act Value

namespace Calls

variable (calls : Calls)

/-- Exports an item to a file and returns its path. -/
def exportItem (h : Handle) (format : String) : Act String := do
  let answer ← calls h (.exportAs format)
  let path := answer.displayText
  Act.track path
  return path

mutual
/-- A value as plain data, with every item exported. -/
def toJson : Value → Act Json
  | .json j => pure j
  | .item h => .str <$> calls.exportItem h "serialize"
  | .list items => .arr <$> toJsonItems items
  | .map entries => .obj <$> toJsonEntries entries
termination_by structural v => v

def toJsonItems : List Value → Act (List Json)
  | [] => pure []
  | x :: xs => do
    let x ← toJson x
    let xs ← toJsonItems xs
    return x :: xs
termination_by structural vs => vs

def toJsonEntries : List (String × Value) → Act (List (String × Json))
  | [] => pure []
  | (k, x) :: xs => do
    let x ← toJson x
    let xs ← toJsonEntries xs
    return (k, x) :: xs
termination_by structural vs => vs
end

end Calls

end Playbook
