import Playbook.Json.Printer

/-!
# Playbook — numeric arrays as bytes

A number or a rectangular list of lists of numbers is stored as a header that
gives the kind of number and the dimensions, followed by one little-endian
64-bit word for every number in row-major order. Numbers are stored as signed
integers if every one of them fits, and as doubles otherwise. The header is
padded so that the words start at a multiple of 64 bytes.

The dimensions are read off the first items at each level; `flatten` then checks
every item against them.
-/

namespace Playbook.Npy

/-- Why a value is not an array. -/
inductive Fault where
  | notNumeric (found : Json)
  | ragged
deriving DecidableEq, Inhabited, Repr

/-- The wording of a fault for a named array. -/
def Fault.text (name : String) : Fault → String
  | notNumeric found => s!"array '{name}' is not numeric: found " ++ found.compact
  | ragged => s!"array '{name}' is ragged; every row must have the same shape"

/-- The dimensions along first items. -/
def shape : Json → Except Fault (List Nat)
  | .num _ => .ok []
  | .arr [] => .ok [0]
  | .arr (first :: rest) => (shape first).map fun dims => (rest.length + 1) :: dims
  | other => .error (.notNumeric other)

mutual
/-- The numbers in row-major order, if every level has the given dimensions. -/
def flatten : Json → List Nat → Except Fault (List Number)
  | .num n, [] => .ok [n]
  | .arr items, dim :: dims => if items.length =
    dim then flattenItems items dims else .error .ragged
  | .arr _, [] | .num _, _ :: _ => .error .ragged
  | other, _ => .error (.notNumeric other)
termination_by structural j => j

def flattenItems : List Json → List Nat → Except Fault (List Number)
  | [], _ => .ok []
  | x :: xs, dims => (flatten x dims).bind fun a =>
    (flattenItems xs dims).map (a ++ ·)
termination_by structural js => js
end

/-- The low `count` bytes of a number, lowest first. -/
def littleEndian : (count : Nat) → Nat → List UInt8
  | 0, _ => []
  | count + 1, n => UInt8.ofNat (n % 256) :: littleEndian count (n / 256)

/-- The 64-bit pattern of a signed integer. -/
def wordOfInt (n : Int) : Nat := (n % 0x10000000000000000).toNat

/-- The dimensions as a tuple. -/
def shapeText : List Nat → String
  | [] => "()"
  | [n] => s!"({n},)"
  | dims => "(" ++ Text.join ", " (dims.map toString) ++ ")"

/-- The bytes that every array starts with: a marker and the
version of the layout. -/
def magic : List UInt8 := [0x93, 0x4E, 0x55, 0x4D, 0x50, 0x59, 1, 0]

/-- The header line: the kind of number, the order of dimensions
and the dimensions. -/
def headerText (integral : Bool) (dims : List Nat) : String :=
  "\x7b'descr': '" ++ (if integral then "<i8"
    else "<f8") ++ "', 'fortran_order': False, 'shape': " ++
    shapeText dims ++ ", \x7d"

/-- The header line padded with blanks to a multiple of 64 bytes, marker and
length included. -/
def header (integral : Bool) (dims : List Nat) : List UInt8 :=
  let text := (headerText integral dims).toUTF8.toList
  let padding := (64 - (magic.length + 2 + text.length + 1) % 64) % 64
  text ++ List.replicate padding 0x20 ++ [0x0A]

/-- Whether every number fits a signed 64-bit word. -/
def isIntegral (numbers : List Number) : Bool :=
  numbers.all fun n => n.int64?.isSome

/-- The word that stores a number. -/
def word (integral : Bool) (n : Number) : Nat :=
  if integral then wordOfInt (n.int64?.getD 0) else n.toDouble.bits.toNat

/-- The bytes of a value. -/
def encode (value : Json) : Except Fault (List UInt8) := do
  let dims ← shape value
  let numbers ← flatten value dims
  let integral := isIntegral numbers
  let head := header integral dims
  return magic ++ littleEndian 2 head.length ++ head ++
    numbers.flatMap fun n => littleEndian 8 (word integral n)

end Playbook.Npy
