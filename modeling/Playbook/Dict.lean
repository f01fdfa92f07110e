/-!
# Playbook — dictionaries in writing order

Project documents, namespaces, argument lists and database columns all show
their keys in the order in which those keys were first written. A `Dict` keeps
exactly that: writing a key that is already there replaces the value in place,
writing a new key appends it.

`keys_insert_of_contains` and `keys_insert_of_not_contains` are that order law;
`get?_insert` says what a read after a write sees.
-/

namespace Playbook

/-- Entries in the order in which their keys were first written. -/
abbrev Dict (α : Type) := List (String × α)

namespace Dict

variable {α β : Type}

/-- The value under a key. -/
def get? : Dict α → String → Option α
  | [], _ => none
  | (k, v) :: rest, key => if k = key then some v else get? rest key

/-- Whether a key is present. -/
def contains (d : Dict α) (key : String) : Bool := (d.get? key).isSome

/-- Writes a key: in place when it is present, at the end otherwise. -/
def insert : Dict α → String → α → Dict α
  | [], key, value => [(key, value)]
  | (k, v) :: rest, key, value =>
    if k = key then (k, value) :: rest else (k, v) :: insert rest key value

/-- Drops a key; the others keep their places. -/
def erase : Dict α → String → Dict α
  | [], _ => []
  | (k, v) :: rest, key => if k = key then rest else (k, v) :: erase rest key

/-- Writes all entries of `more`, in their order. -/
def extend (d more : Dict α) : Dict α :=
  more.foldl (fun acc entry => acc.insert entry.1 entry.2) d

/-- The dictionary that a list of writes leaves behind. -/
def ofList (entries : List (String × α)) : Dict α := extend [] entries

/-- The keys in writing order. -/
def keys (d : Dict α) : List String := d.map (·.1)

/-- The values in the order of their keys. -/
def values (d : Dict α) : List α := d.map (·.2)

/-- Applies a function to every value. -/
def mapValues (f : α → β) (d : Dict α) :
    Dict β := d.map fun entry => (entry.1, f entry.2)

/-- No key occurs twice. -/
def Distinct (d : Dict α) : Prop := d.keys.Nodup

@[simp] theorem get?_nil (key : String) : get? ([] : Dict α) key = none := rfl

theorem get?_insert (d : Dict α) (key other : String) (value : α) :
    (d.insert key value).get? other = if key = other then some value
    else d.get? other := by
  induction d with
  | nil => simp [insert, get?]
  | cons entry rest ih => grind [insert, get?]

theorem keys_insert_of_contains {d : Dict α} {key : String} {value : α}
    (h : d.contains key) :
    (d.insert key value).keys = d.keys := by
  induction d with
  | nil => simp [contains] at h
  | cons entry rest ih => grind [insert, get?, contains, keys]

theorem keys_insert_of_not_contains {d : Dict α} {key : String} {value : α}
    (h : d.contains key = false) :
    (d.insert key value).keys = d.keys ++ [key] := by
  induction d with
  | nil => rfl
  | cons entry rest ih => grind [insert, get?, contains, keys]

theorem contains_iff_mem_keys {d : Dict α} {key : String} :
    d.contains key ↔ key ∈ d.keys := by
  induction d with
  | nil => simp [contains, keys]
  | cons entry rest ih => grind [get?, contains, keys]

end Dict

end Playbook
