import Playbook.Yaml.Scalar

/-!
# Playbook — reading records

A definition is read from a draft field by field, in the order of the text, and the
first fault ends the reading. A record may also be written as a list of its fields
in declaration order; fields with a default may then be left out at the end.

`Fault` lists what can be wrong with a document.
-/

namespace Playbook

/-- What is wrong with a document. -/
inductive Fault where
  /-- The text is not a document. -/
  | malformed
  | missingField (name : String)
  | duplicateField (name : String)
  | unknownVariant (found : String) (known : List String)
  /-- A value has the wrong kind or length. -/
  | wrongShape
deriving DecidableEq, Inhabited, Repr

namespace Fault

/-- A name in the quotes of fault texts. -/
def tick (s : String) : String := "`" ++ s ++ "`"

/-- The wording of a fault. -/
def text : Fault → String
  | malformed => "<malformed JSON>"
  | missingField name => "missing field " ++ tick name
  | duplicateField name => "duplicate field " ++ tick name
  | unknownVariant found known =>
    let expected := match known with
      | [a] => tick a
      | [a, b] => tick a ++ " or " ++ tick b
      | more => "one of " ++ Text.join ", " (more.map tick)
    "unknown variant " ++ tick found ++ ", expected " ++ expected
  | wrongShape => "<invalid value>"

end Fault

namespace Draft

mutual
/-- Decides every unquoted scalar; fails where the text is broken. -/
def settle : Draft → Except Fault Draft
  | null => .ok null
  | bool b => .ok (bool b)
  | num n => .ok (num n)
  | str s => .ok (str s)
  | arr items => (settleItems items).map arr
  | obj fields => (settleFields fields).map obj
  | plain text => match Yaml.scalar text with
    | broken => .error .malformed
    | draft => .ok draft
  | broken => .error .malformed
termination_by structural d => d

def settleItems : List Draft → Except Fault (List Draft)
  | [] => .ok []
  | x :: xs => (settle x).bind fun x => (settleItems xs).map (x :: ·)
termination_by structural ds => ds

def settleFields : List (String × Draft) → Except Fault (List (String × Draft))
  | [] => .ok []
  | (k, x) :: xs => (settle x).bind fun x => (settleFields xs).map ((k, x) :: ·)
termination_by structural ds => ds
end

mutual
/-- The draft as data: a repeated key keeps its first place and its last value. -/
def toJson : Draft → Except Fault Json
  | null => .ok .null
  | bool b => .ok (.bool b)
  | num n => .ok (.num n)
  | str s => .ok (.str s)
  | arr items => (toJsonItems items).map .arr
  | obj fields => (toJsonFields fields).map fun fields => .obj (Dict.ofList fields)
  | plain text => match Yaml.scalar text with
    | null => .ok .null
    | bool b => .ok (.bool b)
    | num n => .ok (.num n)
    | str s => .ok (.str s)
    | _ => .error .malformed
  | broken => .error .malformed
termination_by structural d => d

def toJsonItems : List Draft → Except Fault (List Json)
  | [] => .ok []
  | x :: xs => (toJson x).bind fun x => (toJsonItems xs).map (x :: ·)
termination_by structural ds => ds

def toJsonFields : List (String × Draft) → Except Fault (List (String × Json))
  | [] => .ok []
  | (k, x) :: xs => (toJson x).bind fun x => (toJsonFields xs).map ((k, x) :: ·)
termination_by structural ds => ds
end

mutual
/-- How deeply containers are nested. -/
def depth : Draft → Nat
  | arr items => depthItems items + 1
  | obj fields => depthFields fields + 1
  | _ => 0
termination_by structural d => d

def depthItems : List Draft → Nat
  | [] => 0
  | x :: xs => max (depth x) (depthItems xs)
termination_by structural ds => ds

def depthFields : List (String × Draft) → Nat
  | [] => 0
  | (_, x) :: xs => max (depth x) (depthFields xs)
termination_by structural ds => ds
end

/-- The fault of finding something else than was asked for. -/
def mismatch : Draft → Fault
  | broken => .malformed
  | _ => .wrongShape

/-- A text. An unquoted scalar is taken as written. -/
def text : Draft → Except Fault String
  | str s => .ok s
  | plain s => .ok s
  | d => .error d.mismatch

/-- A truth value. -/
def truth : Draft → Except Fault Bool
  | bool b => .ok b
  | plain s => match Yaml.bool? s with
    | some b => .ok b
    | none => .error .wrongShape
  | d => .error d.mismatch

/-- Something that may be left out by writing null. -/
def optional {α : Type} (read : Draft → Except Fault α) :
    Draft → Except Fault (Option α)
  | null => .ok none
  | plain s => if Yaml.isNullWord s then .ok none else (read (plain s)).map some
  | d => (read d).map some

/-- The items of a list. An absent scalar is an empty list. -/
def items : Draft → Except Fault (List Draft)
  | arr items => .ok items
  | plain "" => .ok []
  | d => .error d.mismatch

/-- The fields of an object. An absent scalar is an empty object. -/
def fields : Draft → Except Fault (List (String × Draft))
  | obj fields => .ok fields
  | plain "" => .ok []
  | d => .error d.mismatch

/-- A list of things of one kind. -/
def listOf {α : Type} (read : Draft → Except Fault α) (d : Draft) :
    Except Fault (List α) := do
  (← d.items).mapM read

/-- An object whose values are of one kind. -/
def dictOf {α : Type} (read : Draft → Except Fault α) (d : Draft) :
    Except Fault (Dict α) := do
  return Dict.ofList (← (← d.fields).mapM fun (key, value) =>
    return (key, ← read value))

/-- The fields of a record by position in its declaration, as far as they belong
to it. A field may have several names. The flag tells whether the record was
written as a list. -/
def recordFields (names : List (List String)) (d : Draft) :
    Except Fault (List (Option Nat × Draft) × Bool) :=
  match d with
  | arr items =>
    .ok (items.zipIdx.map fun (item, i) =>
      (if i < names.length then some i else none, item), true)
  | d => d.fields.map fun fields =>
      (fields.map fun (key, value) =>
        (names.findIdx? (·.contains key), value), false)

/-- One field of a record: a second value for a position is refused, a field
that does not belong to the record is passed over if its text is whole. -/
def recordStep {σ : Type} (names : List (List String))
    (write : σ → Nat → Draft → Except Fault σ) (asList : Bool)
    (acc : σ × List Nat) (entry : Option Nat × Draft) :
    Except Fault (σ × List Nat) :=
  match entry.1 with
  | some i =>
    if acc.2.contains i then .error (.duplicateField ((names.getD i []).headD ""))
    else (write acc.1 i entry.2).map fun state => (state, i :: acc.2)
  | none => if asList then .error .wrongShape else entry.2.toJson.map fun _ => acc

/-- Reads a record from `start`; `write` takes the value of the field at a
position. Every position in `needed` has to be there. -/
def record {σ : Type} (names : List (List String)) (needed : List Nat) (start : σ)
    (write : σ → Nat → Draft → Except Fault σ) (d : Draft) : Except Fault σ := do
  let (entries, asList) ← d.recordFields names
  let (state, seen) ← entries.foldlM (recordStep names write asList) (start, [])
  match needed.find? fun i => !seen.contains i with
  | none => return state
  | some i => .error (if asList then .wrongShape
    else .missingField ((names.getD i []).headD ""))

end Draft

end Playbook
