import Playbook.Json.Printer

/-!
# Playbook — values with items

Between steps, runners and items travel plain data and handles of registry
items. A list or mapping is built by `Value.ofList` or `Value.ofMap`: if nothing
in it refers to an item it is plain data, so the same data always has the same
form, and a value is plain data exactly when no handle occurs in it.
-/

namespace Playbook

/-- A registry item under its name. The slot tells items of one name apart. -/
structure Handle where
  name : String
  slot : Nat
deriving DecidableEq, Inhabited, Repr

/-- Plain data, an item, or a list or mapping with an item in it. -/
inductive Value where
  | json (j : Json)
  | item (h : Handle)
  | list (items : List Value)
  | map (entries : List (String × Value))
deriving Inhabited, Repr

/-- The arguments of a call. -/
abbrev Args := Dict Value

namespace Value

def null : Value := json .null

/-- Plain data as such. -/
def json? : Value → Option Json
  | json j => some j
  | _ => none

/-- A text as a value. -/
def ofText (s : String) : Value := json (.str s)

/-- A list; plain data if all its items are. -/
def ofList (items : List Value) : Value :=
  match items.mapM json? with
  | some plain => json (.arr plain)
  | none => list items

/-- The entries of a mapping if all of them are plain data. -/
def plainEntries? (entries : List (String × Value)) :
    Option (List (String × Json)) :=
  entries.mapM fun entry => entry.2.json?.map fun j => (entry.1, j)

/-- A mapping; plain data if all its entries are. -/
def ofMap (entries : Dict Value) : Value :=
  match plainEntries? entries with
  | some plain => json (.obj plain)
  | none => map entries

def isNull : Value → Bool
  | json .null => true
  | _ => false

def isSequence : Value → Bool
  | list _ | json (.arr _) => true
  | _ => false

/-- The items of a list in either form. -/
def sequence? : Value → Option (List Value)
  | list items => some items
  | json (.arr items) => some (items.map json)
  | _ => none

/-- The entries of a mapping in either form. -/
def mapping? : Value → Option (Dict Value)
  | map entries => some entries
  | json (.obj fields) => some (Dict.mapValues json fields)
  | _ => none

/-- One step of navigation: the value under a key, or the item at an index. -/
def child? (segment : String) : Value → Option Value
  | json (.obj fields) => (Dict.get? fields segment).map json
  | json (.arr items) => (Text.readWord? segment.toList).bind
    (items[·]?) |>.map json
  | map entries => Dict.get? entries segment
  | list items => (Text.readWord? segment.toList).bind (items[·]?)
  | _ => none

mutual
/-- The text of a value in scripts and messages: texts as they are, nothing for
null, an item by its name behind `@`, other data on one line. -/
def displayText : Value → String
  | json (.str s) => s
  | json .null => ""
  | json j => j.compact
  | item h => "@" ++ h.name
  | list items => "[" ++ Text.join ", " (displayItems items) ++ "]"
  | map entries => "\x7b" ++ Text.join ", " (displayEntries entries) ++ "\x7d"
termination_by structural v => v

def displayItems : List Value → List String
  | [] => []
  | x :: xs => displayText x :: displayItems xs
termination_by structural vs => vs

def displayEntries : List (String × Value) → List String
  | [] => []
  | (k, x) :: xs => (k ++ ": " ++ displayText x) :: displayEntries xs
termination_by structural vs => vs
end

mutual
/-- The value as plain data, with each item replaced by its name behind `@`. -/
def lossy : Value → Json
  | json j => j
  | item h => .str ("@" ++ h.name)
  | list items => .arr (lossyItems items)
  | map entries => .obj (lossyEntries entries)
termination_by structural v => v

def lossyItems : List Value → List Json
  | [] => []
  | x :: xs => lossy x :: lossyItems xs
termination_by structural vs => vs

def lossyEntries : List (String × Value) → List (String × Json)
  | [] => []
  | (k, x) :: xs => (k, lossy x) :: lossyEntries xs
termination_by structural vs => vs
end

mutual
/-- Equality of values: items by identity, plain data as data, mappings
whatever their order. -/
def same : Value → Value → Bool
  | json a, json b => a.same b
  | item a, item b => a.slot == b.slot
  | list a, list b => sameItems a b
  | map a, map b => a.length == b.length && sameEntries a b
  | _, _ => false
termination_by structural v => v

def sameItems : List Value → List Value → Bool
  | [], [] => true
  | x :: xs, y :: ys => same x y && sameItems xs ys
  | _, _ => false
termination_by structural vs => vs

def sameEntries : List (String × Value) → List (String × Value) → Bool
  | [], _ => true
  | (k, x) :: xs, b => (match Dict.get? b k with
      | some y => same x y
      | none => false) && sameEntries xs b
termination_by structural vs => vs
end

end Value

end Playbook
