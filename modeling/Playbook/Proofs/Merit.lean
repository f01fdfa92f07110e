import Mathlib.Data.List.Basic
import Playbook.Computation.Merit
import Playbook.Computation.Run
import Playbook.Proofs.Registry

/-!
# Playbook — a matrix against its rows

The figure of merit of a matrix is worked out row by row, with the categorical
values of each row. Each row that has a number in it is worth what it is worth
on its own: no arithmetic is used for it but the one that a vector needs, in the
same order. A row without numbers on its own is a list of nothing but lists, so
it is taken for a matrix without rows, which is worth nothing.

Main results:

* `Merit.isOk_rowSums_iff`, `Merit.rowSums_eq_ok` — when rows
  have values, and which.
* `Merit.sums_row`, `Merit.sums_empty` — what a row comes to as a vector.
* `Computation.sphere_rows_unless_empty` — the values of a matrix are those of
  its rows, for exactly the rows that are not empty.
-/

namespace Playbook

namespace Merit

variable (a : Arithmetic)

/-- The data is a list of nothing but numbers. -/
def FlatRow (row : Json) : Prop := ∃ numbers : List Number,
    row = .arr (numbers.map .num)

/-- Plain data given as an argument; an item is none, nor is data that holds one. -/
def argument (args : Args) (name : String) :
    Option Json := (args.get? name).bind Value.json?

/-- The categorical values that go with the row at an index: the ones at that
index if they are a list of lists. -/
def rowCategories (categ : Option Json) (index : Nat) : Option Json :=
  match categ with
  | some (.arr values) => if values.all Json.isArray then values[index]?
    else some (.arr values)
  | other => other

/-- The arguments of the row at an index on its own. -/
structure RowAlone (args : Args) (index : Nat) (row : Json)
    (one : Args) : Prop where
  x : argument one "x" = some row
  categ : argument one "categ" = rowCategories (argument args "categ") index

mutual
/-- Data that is accepted as categorical values: nothing, a number, or a
list of such data. -/
def categorical : Json → Bool
  | .null => true
  | .num _ => true
  | .arr items => categoricalItems items
  | _ => false
termination_by structural j => j

def categoricalItems : List Json → Bool
  | [] => true
  | x :: xs => categorical x && categoricalItems xs
termination_by structural js => js
end

/-- The value of a row with categorical values. -/
def point (row categ : Json) : Except MeritFault Json := do
  let sum ← squares a row
  let offset ← categories a categ
  return number (a.add sum offset)

/-! ## Rows -/

theorem squaresOnto_numbers (sum : Double) (numbers : List Number) :
    ∃ total, squaresOnto a sum (numbers.map .num) = .ok total := by
  induction numbers generalizing sum with
  | nil => exact ⟨sum, rfl⟩
  | cons n numbers ih => exact ih (a.add sum (a.mul (toDouble a n) (toDouble a n)))

/-- The squares of a row of numbers are always summed up. -/
theorem squares_of_flat {row : Json} (h : FlatRow row) :
    ∃ sum, squares a row = .ok sum := by
  obtain ⟨numbers, rfl⟩ := h
  exact squaresOnto_numbers a a.start numbers

theorem getD_rowCategories (categ : Option Json) (index : Nat) :
    (rowCategories categ index).getD .null =
    categoriesOf (categ.getD .null) index := by
  cases categ with
  | none => rfl
  | some categ =>
    cases categ with
    | arr values =>
      show (if values.all Json.isArray then values[index]?
        else some (.arr values)).getD .null =
        if values.all Json.isArray then values.getD index .null else .arr values
      split
      · exact (List.getD_eq_getElem?_getD ..).symm
      · rfl
    | _ => rfl

mutual
/-- The categorical values are summed up if they are accepted. -/
theorem isOk_categories : (categ : Json) →
    (categories a categ).isOk = categorical categ
  | .null => rfl
  | .bool _ => rfl
  | .num _ => rfl
  | .str _ => rfl
  | .arr items => isOk_categoriesOnto a.start items
  | .obj _ => rfl

theorem isOk_categoriesOnto (sum : Double) : (items : List Json) →
    (categoriesOnto a sum items).isOk = categoricalItems items
  | [] => rfl
  | x :: xs => by
    have hfirst := isOk_categories x
    rw [categoriesOnto, categoricalItems, ← hfirst]
    cases categories a x with
    | error fault => rfl
    | ok y => exact isOk_categoriesOnto (a.add sum y) xs
end

/-- The rows of a matrix have values if the categorical values of all of them
are accepted. -/
theorem isOk_rowSums_iff {categ : Json} {index : Nat} {rows : List Json}
    (hflat : ∀ row ∈ rows, FlatRow row) :
    (rowSums a categ index rows).isOk = true ↔
      ∀ i < rows.length, categorical (categoriesOf categ (index + i)) = true := by
  induction rows generalizing index with
  | nil => exact iff_of_true rfl fun i hi => absurd hi (Nat.not_lt_zero i)
  | cons first rows ih =>
    obtain ⟨sum, hsum⟩ := squares_of_flat a (hflat first List.mem_cons_self)
    have hrest : (rowSums a categ (index + 1) rows).isOk = true ↔
        ∀ i < rows.length, categorical
          (categoriesOf categ (index + 1 + i)) = true :=
      ih fun row hrow => hflat row (List.mem_cons_of_mem _ hrow)
    have hfirst := isOk_categories a (categoriesOf categ index)
    -- the first row comes before the others, which are those from the next index on
    have hsplit : (∀ i < rows.length + 1,
        categorical (categoriesOf categ (index + i)) = true) ↔
        categorical (categoriesOf categ index) = true ∧
          ∀ i < rows.length, categorical
            (categoriesOf categ (index + 1 + i)) = true := by
      rw [Nat.forall_lt_succ_left']
      simp only [Nat.add_zero, Nat.add_right_comm index 1, Nat.add_assoc]
    rw [List.length_cons, hsplit, ← hfirst, ← hrest, rowSums, hsum]
    cases categories a (categoriesOf categ index) with
    | error fault =>
      exact iff_of_false Bool.false_ne_true fun h => Bool.false_ne_true h.1
    | ok offset =>
      cases rowSums a categ (index + 1) rows with
      | error fault =>
        exact iff_of_false Bool.false_ne_true fun h => Bool.false_ne_true h.2
      | ok rest => exact iff_of_true rfl ⟨rfl, rfl⟩

/-- The values of the rows of a matrix are those of its rows with their
categorical values, in their order. -/
theorem rowSums_eq_ok {categ : Json} {index : Nat} {rows values : List Json}
    (hflat : ∀ row ∈ rows, FlatRow row)
    (h : rowSums a categ index rows = .ok values) :
    values.length = rows.length ∧ ∀ i row value, rows[i]? = some row →
      values[i]? = some value →
      point a row (categoriesOf categ (index + i)) = .ok value := by
  induction rows generalizing index values with
  | nil =>
    cases h
    exact ⟨rfl, fun i row value hrow => by cases hrow⟩
  | cons first rows ih =>
    obtain ⟨sum, hsum⟩ := squares_of_flat a (hflat first List.mem_cons_self)
    unfold rowSums at h
    rw [hsum] at h
    cases hoffset : categories a (categoriesOf categ index) with
    | error fault => rw [hoffset] at h; cases h
    | ok offset =>
      cases hrest : rowSums a categ (index + 1) rows with
      | error fault => rw [hoffset, hrest] at h; cases h
      | ok rest =>
        rw [hoffset, hrest] at h
        cases h
        obtain ⟨hlength, hrows⟩ :=
          ih (fun row hrow => hflat row (List.mem_cons_of_mem _ hrow)) hrest
        refine ⟨congrArg Nat.succ hlength, fun i row value hrow hvalue => ?_⟩
        cases i with
        | zero =>
          cases hrow
          cases hvalue
          unfold point
          rw [hsum, Nat.add_zero, hoffset]
          rfl
        | succ i =>
          have hi := hrows i row value hrow hvalue
          rw [Nat.add_right_comm] at hi
          exact hi

/-- A list of rows is a matrix. -/
theorem sums_matrix {rows : List Json} (hflat : ∀ row ∈ rows, FlatRow row)
    (categ : Json) :
    sums a (.arr rows) categ = (rowSums a categ 0 rows).map .arr := by
  refine if_pos (List.all_eq_true.mpr fun row hrow => ?_)
  obtain ⟨numbers, rfl⟩ := hflat row hrow
  rfl

/-- A list of numbers with a number in it is a vector. -/
theorem sums_row {row : Json} (h : FlatRow row) (hne : row ≠ .arr [])
    (categ : Json) : sums a row categ = point a row categ := by
  obtain ⟨numbers, rfl⟩ := h
  cases numbers with
  | nil => exact absurd rfl hne
  | cons n numbers => rfl

/-- A list without numbers is a matrix without rows, whatever the
categorical values are. -/
theorem sums_empty (categ : Json) : sums a (.arr []) categ = .ok (.arr []) := rfl

/-- The value of a row is no list. -/
theorem point_ne_list {row categ value : Json}
    (h : point a row categ = .ok value) (items : List Json) :
    value ≠ .arr items := by
  unfold point at h
  cases hsum : squares a row with
  | error fault => rw [hsum] at h; cases h
  | ok sum =>
    cases hoffset : categories a categ with
    | error fault => rw [hsum, hoffset] at h; cases h
    | ok offset =>
      rw [hsum, hoffset] at h
      rw [← Except.ok.inj h, number]
      split <;> exact fun heq => by cases heq

/-- The figure of merit is that of the vector or matrix `x`, if there is one. -/
theorem evaluate_of_argument {args : Args} {x : Json}
    (h : argument args "x" = some x) :
    evaluate a args = match sums a x ((argument args "categ").getD .null) with
      | .ok y => .ok (.json (.obj [("y", y)]))
      | .error fault => .error (Cause.merit fault) := by
  unfold evaluate
  rw [argument] at h
  rw [h]
  rfl

end Merit

namespace Computation

open Merit

variable {ctx : Context} {calls : Calls} {site : Site}

theorem run_sphere (a : Arithmetic) (args : Args) (w : World) :
    ((sphere a).run ctx calls site args).run w = (evaluate a args, w) := by
  unfold sphere plain run
  dsimp only
  cases evaluate a args <;> rfl

/-- **The values of a matrix are those of its rows, unless a row is empty.**
Whatever the arithmetic is, a matrix whose rows are lists of numbers has a
result exactly if the categorical values of each row are nothing, numbers, or
lists of such. The result is one value for each row, in their order. A row on
its own with its own categorical values is given the very same value if there is
a number in it; a row without numbers is given no value, but an empty list. -/
theorem sphere_rows_unless_empty (a : Arithmetic) {args : Args}
    {rows : List Json} (hx : argument args "x" = some (.arr rows))
    (hflat : ∀ row ∈ rows, FlatRow row) (w : World) :
    ((((sphere a).run ctx calls site args).run w).1.isOk = true ↔
        ∀ i < rows.length, categorical
          ((rowCategories (argument args "categ") i).getD .null) = true) ∧
      ∀ result w', ((sphere a).run ctx calls site args).run w = (.ok result, w') →
        w' = w ∧ ∃ values, result = .json (.obj [("y", .arr values)]) ∧
          values.length = rows.length ∧
          ∀ i row value, rows[i]? = some row → values[i]? = some value →
          ∀ one, RowAlone args i row one → ∀ w,
            (((sphere a).run ctx calls site one).run w =
              (.ok (.json (.obj [("y", value)])), w) ↔ row ≠ .arr []) ∧
              (row = .arr [] → ((sphere a).run ctx calls site one).run w =
                (.ok (.json (.obj [("y", .arr [])])), w)) := by
  rw [run_sphere, evaluate_of_argument a hx, sums_matrix a hflat]
  constructor
  · simp only [getD_rowCategories]
    have haccepted : (rowSums a ((argument args "categ").getD .null) 0
        rows).isOk = true ↔
        ∀ i < rows.length, categorical
          (categoriesOf ((argument args "categ").getD .null) (0 + i)) = true :=
      isOk_rowSums_iff a hflat
    simp only [Nat.zero_add] at haccepted
    rw [← haccepted]
    cases rowSums a ((argument args "categ").getD .null) 0 rows <;> rfl
  · intro result w' h
    cases hsums : rowSums a ((argument args "categ").getD .null) 0 rows with
    | error fault => rw [hsums] at h; cases h
    | ok values =>
      rw [hsums] at h
      cases h
      obtain ⟨hlength, hvalues⟩ := rowSums_eq_ok a hflat hsums
      refine ⟨rfl, values, rfl, hlength,
        fun i row value hrow hvalue one hone w => ?_⟩
      have hflatRow := hflat row (List.mem_of_getElem? hrow)
      have hpoint := hvalues i row value hrow hvalue
      rw [Nat.zero_add, ← getD_rowCategories, ← hone.categ] at hpoint
      rw [run_sphere, evaluate_of_argument a hone.x]
      by_cases hempty : row = .arr []
      · rw [hempty, sums_empty]
        refine ⟨iff_of_false (fun heq => ?_) fun hne => hne rfl, fun _ => rfl⟩
        cases heq
        exact point_ne_list a hpoint [] rfl
      · rw [sums_row a hflatRow hempty, hpoint]
        exact ⟨iff_of_true rfl hempty, fun heq => absurd heq hempty⟩

/-- A run of the figure of merit in a world where nothing happens. -/
def meritOf (args : Args) : Except Failure Value × World :=
  ((sphere .binary64).run (Registry.quietContext "~") (fun _ _ => pure .null)
    ⟨"merit", "."⟩ args).run { disk := .empty }

/-- Numbers in a row. -/
def rowOf (numbers : List Int) : Json :=
  .arr (numbers.map fun n => .num (.integer n))

theorem flatRow_rowOf (numbers : List Int) : FlatRow (rowOf numbers) :=
  ⟨numbers.map .integer, congrArg Json.arr List.map_map.symm⟩

/-- The second row of two, with the categorical values at its index. -/
theorem second_row_alone :
    ∃ first second,
        (meritOf [("x", .json (.arr [rowOf [1, 2], rowOf [3]])),
          ("categ", .json (.arr [rowOf [10], rowOf [20]]))]).1 =
        .ok (.json (.obj [("y", .arr [first, second])])) ∧
      (meritOf [("x", .json (rowOf [3])), ("categ", .json (rowOf [20]))]).1 =
      .ok (.json (.obj [("y", second)])) := by
  have hflat : ∀ row ∈ [rowOf [1, 2], rowOf [3]], FlatRow row := by
    intro row hrow
    rcases List.mem_pair.mp hrow with rfl | rfl <;> exact flatRow_rowOf _
  let args : Args := [("x", .json (.arr [rowOf [1, 2], rowOf [3]])),
      ("categ", .json (.arr [rowOf [10], rowOf [20]]))]
  have hx : argument args "x" = some (.arr [rowOf [1, 2], rowOf [3]]) := rfl
  have hrun : ∃ first second, meritOf args =
      (.ok (.json (.obj [("y", .arr [first, second])])), { disk := .empty }) :=
    ⟨_, _, rfl⟩
  obtain ⟨first, second, hrun⟩ := hrun
  obtain ⟨-, values, hvalues, -, hrows⟩ :=
    (sphere_rows_unless_empty .binary64 hx hflat { disk := .empty }).2 _ _ hrun
  cases hvalues
  have halone :=
    (hrows 1 _ _ rfl rfl [("x", .json (rowOf [3])),
      ("categ", .json (rowOf [20]))] ⟨rfl, rfl⟩ { disk := .empty }).1
  exact ⟨first, second, congrArg Prod.fst hrun,
    congrArg Prod.fst (halone.mpr fun h => by cases h)⟩

/-- In a matrix the empty row is given a number, and on its own an empty list. -/
theorem empty_row_alone :
    ∃ value, (meritOf [("x", .json (.arr [rowOf []]))]).1 =
      .ok (.json (.obj [("y", .arr [value])])) ∧
      (meritOf [("x", .json (rowOf []))]).1 =
      .ok (.json (.obj [("y", .arr [])])) ∧ value ≠ .arr [] := by
  refine ⟨_, rfl, rfl, ?_⟩
  rw [number]
  split <;> exact fun h => by cases h

end Computation

end Playbook
