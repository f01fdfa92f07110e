import Playbook.Npy

/-!
# Playbook — the bytes of an archive

An archive is a zip file whose members are stored as they are: for each member a
header and its bytes, then a directory with the place of every member, then the
place of the directory.
-/

namespace Playbook.Archive

/-- One step of the cyclic redundancy check: shifts one bit out. -/
def checkBit (n : Nat) : Nat := if n % 2 = 1 then (n / 2) ^^^ 0xEDB88320 else n / 2

/-- Takes a byte into the check. -/
def checkByte (sum : Nat) (byte : UInt8) : Nat :=
  (List.range 8).foldl (fun n _ => checkBit n) (sum ^^^ byte.toNat)

/-- The 32-bit check of bytes. -/
def checkSum (bytes : List UInt8) : Nat :=
  bytes.foldl checkByte 0xFFFFFFFF ^^^ 0xFFFFFFFF

/-- What the header of a member and its entry in the directory have in common:
version, flags, method, time, date, check, sizes and the length of the name. The
date is the first that can be written. -/
def description (name : List UInt8) (bytes : List UInt8) : List UInt8 :=
  let le := Npy.littleEndian
  le 2 20 ++ le 2 0x0800 ++ le 2 0 ++ le 2 0 ++ le 2 0x21 ++ le 4
    (checkSum bytes) ++
    le 4 bytes.length ++ le 4 bytes.length ++ le 2 name.length ++ le 2 0

/-- A member with its header. -/
def memberBytes (name : String) (bytes : List UInt8) : List UInt8 :=
  let name := name.toUTF8.toList
  Npy.littleEndian 4 0x04034B50 ++ description name bytes ++ name ++ bytes

/-- The entry of a member in the directory. -/
def entryBytes (place : Nat) (name : String) (bytes : List UInt8) : List UInt8 :=
  let le := Npy.littleEndian
  let name := name.toUTF8.toList
  le 4 0x02014B50 ++ le 2 20 ++ description name
  bytes ++ le 2 0 ++ le 2 0 ++ le 2 0 ++ le 4 0 ++ le 4 place ++ name

/-- The members from a place on, and the directory entries for them. -/
def layout : (place : Nat) → List (String × List UInt8) → List UInt8 × List UInt8
  | _, [] => ([], [])
  | place, (name, bytes) :: rest =>
    let member := memberBytes name bytes
    let (members, entries) := layout (place + member.length) rest
    (member ++ members, entryBytes place name bytes ++ entries)

/-- The bytes of an archive. -/
def toBytes (members : List (String × List UInt8)) : List UInt8 :=
  let le := Npy.littleEndian
  let (body, directory) := layout 0 members
  body ++ directory ++ le 4 0x06054B50 ++ le 2 0 ++ le 2 0 ++ le 2
    members.length ++ le 2 members.length ++
    le 4 directory.length ++ le 4 body.length ++ le 2 0

end Playbook.Archive
