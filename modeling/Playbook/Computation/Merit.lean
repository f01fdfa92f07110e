import Playbook.Computation

/-!
# Playbook — the sum of squares

The figure of merit that comes with the library is a sum of squares: a vector
`x` has one, a matrix has one for each row. Categorical values `categ` are added
as they are; where they are a list of lists, each row has its own.

Sums are taken from left to right with the operations of an `Arithmetic`.
-/

namespace Playbook.Merit

variable (a : Arithmetic)

/-- A number as a summand. -/
def toDouble : Number → Double
  | .integer n => a.ofInt n
  | .real x => x

mutual
/-- The sum of the squares of all numbers in nested lists. -/
def squares : Json → Except MeritFault Double
  | .num n => .ok (a.mul (toDouble a n) (toDouble a n))
  | .arr items => squaresOnto a.start items
  | other => .error (.notNumbers other)
termination_by structural j => j

/-- Adds the squares in the items of a list one after the other. -/
def squaresOnto (sum : Double) : List Json → Except MeritFault Double
  | [] => .ok sum
  | x :: xs => (squares x).bind fun y => squaresOnto (a.add sum y) xs
termination_by structural js => js
end

mutual
/-- The sum of all numbers in nested lists; an absent value counts as zero. -/
def categories : Json → Except MeritFault Double
  | .null => .ok a.zero
  | .num n => .ok (toDouble a n)
  | .arr items => categoriesOnto a.start items
  | other => .error (.notCategories other)
termination_by structural j => j

/-- Adds the sums of the items of a list one after the other. -/
def categoriesOnto (sum : Double) : List Json → Except MeritFault Double
  | [] => .ok sum
  | x :: xs => (categories x).bind fun y => categoriesOnto (a.add sum y) xs
termination_by structural js => js
end

/-- A number as data; one that is not finite is null. -/
def number (x : Double) : Json := if x.isFinite then .num (.real x) else .null

/-- The categorical values of the row at an index. -/
def categoriesOf (categ : Json) (index : Nat) : Json :=
  match categ with
  | .arr values => if values.all Json.isArray then values.getD index .null
    else categ
  | other => other

/-- The sums of rows from an index on. -/
def rowSums (categ : Json) : (index : Nat) → List Json →
    Except MeritFault (List Json)
  | _, [] => .ok []
  | index, row :: rows => do
    let offset ← categories a (categoriesOf categ index)
    let sum ← squares a row
    let sums ← rowSums categ (index + 1) rows
    return number (a.add sum offset) :: sums

/-- The sum for a vector, or the sums for a matrix: a list of nothing but lists. -/
def sums (x categ : Json) : Except MeritFault Json :=
  match x with
  | .arr rows =>
    if rows.all Json.isArray then (rowSums a categ 0 rows).map .arr else single
  | _ => single
where
  /-- The one sum of a vector. -/
  single : Except MeritFault Json := do
    let sum ← squares a x
    let offset ← categories a categ
    return number (a.add sum offset)

/-- The figure of merit of arguments, under the name `y`. -/
def evaluate (args : Args) : Except Failure Value :=
  match (args.get? "x").bind Value.json? with
  | none => .error (Cause.merit .noVector)
  | some x =>
    let categ := ((args.get? "categ").bind Value.json?).getD .null
    match sums a x categ with
    | .ok y => .ok (.json (.obj [("y", y)]))
    | .error fault => .error (Cause.merit fault)

end Merit

namespace Computation

/-- The sum of squares of `x`. -/
def sphere (a : Arithmetic) : Computation := .plain (some ["x"]) (Merit.evaluate a)

/-- Returns its arguments. -/
def echo : Computation := .plain none fun args => .ok (.ofMap args)

/-- The computations that are always there. -/
def builtins : Dict Computation := [("sphere", sphere .binary64), ("echo", echo)]

end Playbook.Computation
