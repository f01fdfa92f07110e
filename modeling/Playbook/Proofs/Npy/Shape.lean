import Mathlib.Algebra.BigOperators.Group.List.Basic
import Playbook.Npy
import Playbook.Proofs.Json.Codec

/-!
# Playbook — rectangular values

A value is rectangular if it is a number or a list of values of one shape. The
dimensions are read off the first items only and the reading ends at a list
without items, so what the first items say has to be compared with all the
others: the numbers are found in row-major order exactly if the value is
rectangular, and then they and the dimensions determine it.

Main results:

* `shape_eq_of_hasShape`, `flatten_eq_of_hasShape` — a rectangular value has its
  dimensions and its numbers.
* `hasShape_of_flatten` — no other value is accepted.
* `encode_ok_iff` — a value is encoded if and only if it is rectangular.
* `rebuild_numbers` — dimensions and numbers give the value back, whatever was
  done to each of the numbers.
-/

namespace Playbook.Npy

/-! ## Rectangular values -/

/-- The dimensions of a number or of a list of items of one shape. -/
inductive HasShape : Json → List Nat → Prop where
  | number (n : Number) : HasShape (.num n) []
  | empty : HasShape (.arr []) [0]
  | rows {first : Json} {rest : List Json} {dims : List Nat}
      (hfirst : HasShape first dims)
      (hrest : ∀ row ∈ rest, HasShape row dims) :
      HasShape (.arr (first :: rest)) ((rest.length + 1) :: dims)

/-- A value that has a shape. -/
def Rectangular (value : Json) : Prop := ∃ dims, HasShape value dims

mutual
/-- The numbers of a value in row-major order. -/
def numbers : Json → List Number
  | .num n => [n]
  | .arr items => numbersOfItems items
  | _ => []
termination_by structural j => j

def numbersOfItems : List Json → List Number
  | [] => []
  | x :: xs => numbers x ++ numbersOfItems xs
termination_by structural js => js
end

theorem numbersOfItems_eq_flatMap (items : List Json) :
    numbersOfItems items = items.flatMap numbers := by
  induction items with
  | nil => rfl
  | cons x xs ih => rw [numbersOfItems, ih, List.flatMap_cons]

/-! ## What is accepted -/

theorem shape_eq_of_hasShape {value : Json} {dims : List Nat}
    (h : HasShape value dims) : shape value = .ok dims := by
  induction h with
  | number n => rfl
  | empty => rfl
  | @rows first rest dims _ _ ih _ =>
    show (shape first).map _ = _
    rw [ih]
    rfl

/-- A value has at most one shape. -/
theorem HasShape.unique {value : Json} {dims dims' : List Nat}
    (h : HasShape value dims) (h' : HasShape value dims') :
    dims = dims' :=
  Except.ok.inj ((shape_eq_of_hasShape h).symm.trans (shape_eq_of_hasShape h'))

theorem flattenItems_eq {items : List Json} {dims : List Nat}
    (h : ∀ x ∈ items, flatten x dims = .ok (numbers x)) :
    flattenItems items dims = .ok (numbersOfItems items) := by
  induction items with
  | nil => rfl
  | cons x xs ih =>
    have hhead := h x (List.mem_cons_self ..)
    have htail := ih fun y hy => h y (List.mem_cons_of_mem _ hy)
    show ((flatten x dims).bind fun a => (flattenItems xs dims).map (a ++ ·)) = _
    rw [hhead, htail]
    rfl

theorem flatten_eq_of_hasShape {value : Json} {dims : List Nat}
    (h : HasShape value dims) :
    flatten value dims = .ok (numbers value) := by
  induction h with
  | number n => rfl
  | empty => rfl
  | @rows first rest dims _ _ ihfirst ihrest =>
    have hitems : ∀ x ∈ first :: rest, flatten x dims = .ok (numbers x) := by
      intro x hx
      rcases List.mem_cons.mp hx with rfl | hmem
      · exact ihfirst
      · exact ihrest x hmem
    show (if (first :: rest).length = rest.length + 1 then flattenItems
      (first :: rest) dims else _) = _
    have hlength : (first :: rest).length = rest.length + 1 := rfl
    rw [if_pos hlength, flattenItems_eq hitems]
    rfl

/-- Only the last dimension can be zero: below a list without items there is
nothing to measure. -/
def EndsAtZero : List Nat → Prop
  | [] => True
  | 0 :: dims => dims = []
  | (_ + 1) :: dims => EndsAtZero dims

theorem endsAtZero_of_shape : {value : Json} → {dims : List Nat} →
    shape value = .ok dims → EndsAtZero dims
  | .num _, _, h => by
    cases h
    trivial
  | .arr [], _, h => by
    cases h
    rfl
  | .arr (first :: rest), dims, h => by
    obtain ⟨inner, hfirst, rfl⟩ := Draft.map_ok h
    have hinner : EndsAtZero inner := endsAtZero_of_shape hfirst
    exact hinner

mutual
/-- No value is accepted against dimensions that it does not have. -/
theorem hasShape_of_flatten : (value : Json) → {dims : List Nat} →
    {found : List Number} → EndsAtZero dims →
    flatten value dims = .ok found → HasShape value dims
  | .num n, [], _, _, _ => .number n
  | .num _, _ :: _, _, _, h => by cases h
  | .arr _, [], _, _, h => by cases h
  | .arr items, dim :: dims, found, hdims, h => by
    have hboth : items.length = dim ∧ flattenItems items dims = .ok found := by
      unfold flatten at h
      split at h
      · exact ⟨‹_›, h⟩
      · cases h
    obtain ⟨rfl, hitems⟩ := hboth
    cases items with
    | nil =>
      -- a list without items would be accepted against any further dimensions
      have hnil : dims = [] := hdims
      rw [hnil]
      exact .empty
    | cons first rest =>
      have hinner : EndsAtZero dims := hdims
      have hall := hasShape_of_flattenItems (first :: rest) hinner hitems
      exact .rows (hall first (List.mem_cons_self ..)) fun row hrow =>
        hall row (List.mem_cons_of_mem _ hrow)

theorem hasShape_of_flattenItems : (items : List Json) → {dims : List Nat} →
    {found : List Number} →
    EndsAtZero dims → flattenItems items dims = .ok found →
    ∀ x ∈ items, HasShape x dims
  | [], _, _, _, _ => by simp
  | x :: xs, dims, found, hdims, h => by
    obtain ⟨a, b, hx, hxs, -⟩ := Json.bind_map_ok h
    have hhead : HasShape x dims := hasShape_of_flatten x hdims hx
    have htail : ∀ y ∈ xs, HasShape y dims := hasShape_of_flattenItems xs hdims hxs
    exact List.forall_mem_cons.mpr ⟨hhead, htail⟩
end

/-- The bytes of a rectangular value. -/
theorem encode_eq_of_hasShape {value : Json} {dims : List Nat}
    (h : HasShape value dims) :
    encode value = .ok (magic ++ littleEndian 2
      (header (isIntegral (numbers value)) dims).length ++
      header (isIntegral (numbers value)) dims ++
      (numbers value).flatMap fun n =>
        littleEndian 8 (word (isIntegral (numbers value)) n)) := by
  unfold encode
  rw [shape_eq_of_hasShape h]
  show (flatten value dims >>= _) = _
  rw [flatten_eq_of_hasShape h]
  rfl

/-- A value is encoded if and only if it is rectangular. -/
theorem encode_ok_iff {value : Json} : (∃ bytes, encode value = .ok bytes) ↔
    Rectangular value := by
  constructor
  · rintro ⟨bytes, hbytes⟩
    obtain ⟨dims, hdims, hrest⟩ := Draft.bind_ok hbytes
    obtain ⟨found, hfound, -⟩ := Draft.bind_ok hrest
    exact ⟨dims, hasShape_of_flatten value (endsAtZero_of_shape hdims) hfound⟩
  · rintro ⟨dims, h⟩
    exact ⟨_, encode_eq_of_hasShape h⟩

-- a row without items has a shape of its own, which the next row
-- has to have as well
example : HasShape (.arr [.arr [], .arr []]) [2, 0] :=
  .rows .empty (by simp [HasShape.empty])

example : encode (.arr [.arr [], .arr [.ofInt 1]]) = .error .ragged := rfl

/-! ## Runs of one size -/

theorem length_flatMap_const {α β : Type} {F : α → List β} {size : Nat}
    {xs : List α} (h : ∀ x ∈ xs, (F x).length = size) :
    (xs.flatMap F).length = xs.length * size := by
  rw [List.length_flatMap, List.map_congr_left h, List.map_const',
    List.sum_replicate_nat]

/-- That many runs of `size` entries each, one after the other. -/
def blocks {α : Type} (size count : Nat) (entries : List α) : List (List α) :=
  (List.range count).map fun i => (entries.drop (i * size)).take size

/-- Entries that were put together in runs of one size are told apart again. -/
theorem blocks_flatMap {α β : Type} {F : α → List β} {size : Nat} {xs : List α}
    (h : ∀ x ∈ xs, (F x).length = size) :
    blocks size xs.length (xs.flatMap F) = xs.map F := by
  induction xs with
  | nil => rfl
  | cons x xs ih =>
    have hhead : (F x).length = size := h x (List.mem_cons_self ..)
    have htail := ih fun y hy => h y (List.mem_cons_of_mem _ hy)
    unfold blocks
    rw [List.flatMap_cons, List.length_cons, List.range_succ_eq_map,
      List.map_cons, List.map_map, List.map_cons,
      ← htail]
    congr 1
    · rw [Nat.zero_mul, List.drop_zero, List.take_left' hhead]
    · refine List.map_congr_left fun i _ => ?_
      -- the first run is passed over
      have hdrop : (F x ++ xs.flatMap F).drop ((i + 1) * size) =
          (xs.flatMap F).drop (i * size) := by
        rw [Nat.succ_mul, Nat.add_comm, ← List.drop_drop, List.drop_left' hhead]
      exact congrArg (List.take size) hdrop

/-! ## Measures -/

mutual
/-- The length of the longest list in the data. -/
def width : Json → Nat
  | .arr items => max items.length (widthItems items)
  | .obj fields => widthFields fields
  | _ => 0
termination_by structural j => j

def widthItems : List Json → Nat
  | [] => 0
  | x :: xs => max (width x) (widthItems xs)
termination_by structural js => js

def widthFields : List (String × Json) → Nat
  | [] => 0
  | (_, x) :: xs => max (width x) (widthFields xs)
termination_by structural js => js
end

/-- A rectangular value has one number for every position. -/
theorem HasShape.length_numbers {value : Json} {dims : List Nat}
    (h : HasShape value dims) :
    (numbers value).length = dims.prod := by
  induction h with
  | number n => rfl
  | empty => rfl
  | @rows first rest dims _ _ ihfirst ihrest =>
    have hitems : ∀ x ∈ first :: rest, (numbers x).length = dims.prod :=
      List.forall_mem_cons.mpr ⟨ihfirst, ihrest⟩
    rw [numbers, numbersOfItems_eq_flatMap, length_flatMap_const hitems,
      List.prod_cons, List.length_cons]

theorem depthItems_le {bound : Nat} {items : List Json}
    (h : ∀ x ∈ items, (Draft.ofJson x).depth ≤ bound) :
    Draft.depthItems (Draft.ofJsonItems items) ≤ bound := by
  induction items with
  | nil => exact Nat.zero_le _
  | cons x xs ih =>
    have hhead := h x (List.mem_cons_self ..)
    have htail := ih fun y hy => h y (List.mem_cons_of_mem _ hy)
    exact Nat.max_le.mpr ⟨hhead, htail⟩

/-- There are as many dimensions as nested lists. -/
theorem HasShape.length_eq_depth {value : Json} {dims : List Nat}
    (h : HasShape value dims) :
    dims.length = (Draft.ofJson value).depth := by
  induction h with
  | number n => rfl
  | empty => rfl
  | @rows first rest dims _ _ ihfirst ihrest =>
    have hrest : Draft.depthItems (Draft.ofJsonItems rest) ≤ dims.length :=
      depthItems_le fun row hrow => Nat.le_of_eq (ihrest row hrow).symm
    show dims.length + 1 = max (Draft.ofJson first).depth
      (Draft.depthItems (Draft.ofJsonItems rest)) + 1
    rw [← ihfirst, Nat.max_eq_left hrest]

theorem HasShape.le_width {value : Json} {dims : List Nat}
    (h : HasShape value dims) :
    ∀ dim ∈ dims, dim ≤ width value := by
  induction h with
  | number n => simp
  | empty => simp
  | @rows first rest dims _ _ ihfirst _ =>
    intro dim hdim
    have hwidth : width (.arr (first :: rest)) =
        max (rest.length + 1) (max (width first) (widthItems rest)) := rfl
    rcases List.mem_cons.mp hdim with rfl | hmem
    · omega
    · have hfirst := ihfirst dim hmem
      omega

/-! ## Rebuilding -/

/-- The value with the given dimensions and numbers in row-major order. -/
def rebuild : List Nat → List Number → Json
  | [], found => found.head?.elim .null .num
  | dim :: dims, found => .arr ((blocks dims.prod dim found).map (rebuild dims))

mutual
/-- The value with every number replaced. -/
def convert (f : Number → Number) : Json → Json
  | .num n => .num (f n)
  | .arr items => .arr (convertItems f items)
  | other => other
termination_by structural j => j

def convertItems (f : Number → Number) : List Json → List Json
  | [] => []
  | x :: xs => convert f x :: convertItems f xs
termination_by structural js => js
end

theorem convertItems_eq_map (f : Number → Number) (items : List Json) :
    convertItems f items = items.map (convert f) := by
  induction items with
  | nil => rfl
  | cons x xs ih => exact congrArg (convert f x :: ·) ih

/-- Dimensions and numbers give the value back, whatever was done to
each of the numbers. -/
theorem rebuild_numbers {value : Json} {dims : List Nat}
    (h : HasShape value dims) (f : Number → Number) :
    rebuild dims ((numbers value).map f) = convert f value := by
  induction h with
  | number n => rfl
  | empty => rfl
  | @rows first rest dims hfirst hrest ihfirst ihrest =>
    have hlength : ∀ x ∈ first :: rest, ((numbers x).map f).length = dims.prod := by
      intro x hx
      rw [List.length_map]
      rcases List.mem_cons.mp hx with rfl | hmem
      · exact hfirst.length_numbers
      · exact (hrest x hmem).length_numbers
    have hitems : ∀ x ∈ first :: rest, rebuild dims ((numbers x).map f) =
        convert f x :=
      List.forall_mem_cons.mpr ⟨ihfirst, ihrest⟩
    -- the numbers of the items stand one after the other, in runs of one size
    have hblocks : blocks dims.prod (rest.length + 1)
        ((numbers (.arr (first :: rest))).map f) =
        (first :: rest).map fun x => (numbers x).map f := by
      rw [numbers, numbersOfItems_eq_flatMap, List.map_flatMap]
      exact blocks_flatMap hlength
    show Json.arr
      ((blocks dims.prod (rest.length + 1)
        ((numbers (.arr (first :: rest))).map f)).map (rebuild dims)) =
      .arr (convertItems f (first :: rest))
    rw [hblocks, List.map_map, convertItems_eq_map]
    exact congrArg Json.arr (List.map_congr_left hitems)

end Playbook.Npy
