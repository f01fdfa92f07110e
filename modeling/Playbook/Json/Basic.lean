import Playbook.Dict
import Playbook.Decimal.Double

/-!
# Playbook — plain data

Plain data is null, a truth value, a number, a text, a list or an object.
Objects keep their keys in writing order; integers and numbers with a fraction
are different data even when they are numerically equal.

Two notions of equality are kept apart. `=` compares everything, the order of
keys included. `Json.same` is equality as data: the order of keys does not
matter and the two zeros are one number.
-/

namespace Playbook

/-- An integer between `-2^63` and `2^64 - 1`, or a double. -/
inductive Number where
  | integer (n : Int)
  | real (x : Double)
deriving DecidableEq, Inhabited, Repr

namespace Number

/-- The number as a double. -/
def toDouble : Number → Double
  | integer n => .ofInt n
  | real x => x

/-- Integers that fit a signed 64-bit word. -/
def int64? : Number → Option Int
  | integer n =>
    if -0x8000000000000000 ≤ n ∧ n < 0x8000000000000000 then some n else none
  | real _ => none

/-- Integers that are not negative. -/
def nat? : Number → Option Nat
  | integer (.ofNat n) => some n
  | _ => none

/-- Equality as data. -/
def same : Number → Number → Bool
  | integer a, integer b => a == b
  | real a, real b => a.same b
  | _, _ => false

end Number

/-- Plain data. -/
inductive Json where
  | null
  | bool (b : Bool)
  | num (n : Number)
  | str (s : String)
  | arr (items : List Json)
  | obj (fields : List (String × Json))
deriving Inhabited, Repr

namespace Json

mutual
/-- Decides equality of data, order of keys included. -/
def decEq : (a b : Json) → Decidable (a = b)
  | null, null => isTrue rfl
  | bool a, bool b => if h : a = b then isTrue (h ▸ rfl) else isFalse (by simp [h])
  | num a, num b => if h : a = b then isTrue (h ▸ rfl) else isFalse (by simp [h])
  | str a, str b => if h : a = b then isTrue (h ▸ rfl) else isFalse (by simp [h])
  | arr a, arr b => match decEqItems a b with
    | isTrue h => isTrue (h ▸ rfl)
    | isFalse h => isFalse (by simp [h])
  | obj a, obj b => match decEqFields a b with
    | isTrue h => isTrue (h ▸ rfl)
    | isFalse h => isFalse (by simp [h])
  | null, bool _ | null, num _ | null, str _ | null, arr _ | null, obj _
  | bool _, null | bool _, num _ | bool _, str _ | bool _, arr _ | bool _, obj _
  | num _, null | num _, bool _ | num _, str _ | num _, arr _ | num _, obj _
  | str _, null | str _, bool _ | str _, num _ | str _, arr _ | str _, obj _
  | arr _, null | arr _, bool _ | arr _, num _ | arr _, str _ | arr _, obj _
  | obj _, null | obj _, bool _ | obj _, num _ | obj _, str _ | obj _, arr _ =>
    isFalse (by simp)

def decEqItems : (a b : List Json) → Decidable (a = b)
  | [], [] => isTrue rfl
  | [], _ :: _ | _ :: _, [] => isFalse (by simp)
  | x :: xs, y :: ys => match decEq x y, decEqItems xs ys with
    | isTrue h, isTrue h' => isTrue (by simp [h, h'])
    | isFalse h, _ => isFalse (by simp [h])
    | _, isFalse h => isFalse (by simp [h])

def decEqFields : (a b : List (String × Json)) → Decidable (a = b)
  | [], [] => isTrue rfl
  | [], _ :: _ | _ :: _, [] => isFalse (by simp)
  | (k, x) :: xs, (l, y) :: ys =>
    if hk : k = l then match decEq x y, decEqFields xs ys with
      | isTrue h, isTrue h' => isTrue (by simp [h, h', hk])
      | isFalse h, _ => isFalse (by simp [h])
      | _, isFalse h => isFalse (by simp [h])
    else isFalse (by simp [hk])
end

instance : DecidableEq Json := decEq

mutual
/-- Equality as data: key order does not matter, zeros of either
sign are one number. -/
def same : Json → Json → Bool
  | null, null => true
  | bool a, bool b => a == b
  | num a, num b => a.same b
  | str a, str b => a == b
  | arr a, arr b => sameItems a b
  | obj a, obj b => a.length == b.length && sameFields a b
  | _, _ => false
termination_by structural a => a

def sameItems : List Json → List Json → Bool
  | [], [] => true
  | x :: xs, y :: ys => same x y && sameItems xs ys
  | _, _ => false
termination_by structural a => a

/-- Every field on the left has an equal field of that name on the right. -/
def sameFields : List (String × Json) → List (String × Json) → Bool
  | [], _ => true
  | (k, x) :: xs, b => (match Dict.get? b k with
      | some y => same x y
      | none => false) && sameFields xs b
termination_by structural a => a
end

/-- An integer as data. -/
def ofInt (n : Int) : Json := num (.integer n)

/-- A list of texts as data. -/
def ofStrings (texts : List String) : Json := arr (texts.map str)

def isNull : Json → Bool
  | null => true
  | _ => false

def isArray : Json → Bool
  | arr _ => true
  | _ => false

def str? : Json → Option String
  | str s => some s
  | _ => none

def arr? : Json → Option (List Json)
  | arr items => some items
  | _ => none

def obj? : Json → Option (List (String × Json))
  | obj fields => some fields
  | _ => none

def bool? : Json → Option Bool
  | bool b => some b
  | _ => none

/-- A number without sign, fraction or exponent. -/
def nat? : Json → Option Nat
  | num n => n.nat?
  | _ => none

/-- The texts of a list of texts. -/
def strings? : Json → Option (List String)
  | arr items => items.mapM str?
  | _ => none

/-- A field of an object. -/
def field? (j : Json) (key : String) : Option Json := j.obj?.bind (Dict.get? · key)

end Json

end Playbook
