import Playbook.Proofs.Npy.Header
import Playbook.Proofs.Npy.Shape

/-!
# Playbook — arrays read back

A reader of the array layout, version 1.0, takes the marker, the version, the length
of the header in two bytes, the header, and then one word of eight bytes for every
position of the dimensions and nothing else. From what the encoder writes it gets
the dimensions and the words, and these give the encoded value back: every number as
it is if all of them fit a signed word, and as its double otherwise.

How deeply lists are nested and how many items they have is bounded, since
otherwise the length of the header would not fit its two bytes.

Main results:

* `ofLittleEndian_littleEndian`, `Kind.number_word` — words are read as the
  numbers that they store.
* `read?_append` — what the reader makes of the parts of a file.
* `encode_exact` — exactly the rectangular values are encoded, and from the
  bytes each is rebuilt.
-/

namespace Playbook.Npy

/-! ## Words -/

/-- The number that bytes stand for, the lowest byte first. -/
def ofLittleEndian : List UInt8 → Nat
  | [] => 0
  | byte :: rest => byte.toNat + 256 * ofLittleEndian rest

theorem length_littleEndian (count n : Nat) :
    (littleEndian count n).length = count := by
  induction count generalizing n with
  | zero => rfl
  | succ count ih => exact congrArg (· + 1) (ih (n / 256))

theorem ofLittleEndian_littleEndian (count n : Nat) :
    ofLittleEndian (littleEndian count n) = n % 256 ^ count := by
  induction count generalizing n with
  | zero => simp [littleEndian, ofLittleEndian, Nat.mod_one]
  | succ count ih =>
    have hbyte : (UInt8.ofNat (n % 256)).toNat = n % 256 := by
      rw [UInt8.toNat_ofNat']
      omega
    rw [littleEndian, ofLittleEndian, ih, hbyte, Nat.pow_succ', Nat.mod_mul]

theorem ofLittleEndian_of_lt {count n : Nat} (h : n < 256 ^ count) :
    ofLittleEndian (littleEndian count n) = n := by
  rw [ofLittleEndian_littleEndian, Nat.mod_eq_of_lt h]

/-- The kinds of numbers that a header can name. -/
inductive Kind where
  | int64
  | double
deriving DecidableEq, Repr

namespace Kind

/-- The kind that a word in a header stands for. -/
def ofDescr? (descr : String) : Option Kind :=
  if descr = "<i8" then some int64 else if descr = "<f8" then some double else none

/-- The kind of a value whose numbers all fit a signed word, or of any other. -/
def ofIntegral (integral : Bool) : Kind := if integral then int64 else double

/-- The signed integer of which a word is the two's complement. -/
def signed (word : Nat) : Int := if word < 2 ^ 63 then word else word - 2 ^ 64

/-- The number that a word stands for. -/
def number : Kind → Nat → Number
  | int64, word => .integer (signed word)
  | double, word => .real ⟨UInt64.ofNat word⟩

theorem ofDescr?_kindText (integral : Bool) :
    ofDescr? (kindText integral) = some (ofIntegral integral) := by
  cases integral <;> rfl

theorem signed_wordOfInt {n : Int} (hlow : -2 ^ 63 ≤ n) (hhigh : n < 2 ^ 63) :
    signed (wordOfInt n) = n := by
  -- a negative number is stored as its sum with 2 ^ 64
  unfold signed wordOfInt
  split <;> omega

end Kind

/-- What is left of a number in a word: the number itself, or its double. -/
def stored (integral : Bool) (n : Number) :
    Number := if integral then n else .real n.toDouble

theorem word_lt (integral : Bool) (n : Number) : word integral n < 256 ^ 8 := by
  have hpow : (256 : Nat) ^ 8 = 2 ^ 64 := by decide
  rw [hpow]
  unfold word
  split
  · unfold wordOfInt
    omega
  · exact n.toDouble.bits.toNat_lt

/-- A word is read as the number that it stores. -/
theorem Kind.number_word {integral : Bool} {n : Number}
    (h : integral = true → n.int64?.isSome = true) :
    (Kind.ofIntegral integral).number (word integral n) = stored integral n := by
  cases integral with
  | false =>
    show Number.real ⟨UInt64.ofNat n.toDouble.bits.toNat⟩ = .real n.toDouble
    rw [UInt64.ofNat_toNat]
  | true =>
    have hsome := h rfl
    cases n with
    | real x => cases hsome
    | integer k =>
      have hrange : -0x8000000000000000 ≤ k ∧ k < 0x8000000000000000 := by
        by_contra hout
        simp [Number.int64?, hout] at hsome
      have hword : word true (.integer k) = wordOfInt k := by
        simp [word, Number.int64?, hrange]
      rw [hword]
      exact congrArg Number.integer (signed_wordOfInt (by omega) (by omega))

/-! ## Files -/

/-- What a file contains. -/
structure Contents where
  kind : Kind
  /-- Whether the first dimension varies fastest. -/
  fortranOrder : Bool
  dims : List Nat
  words : List Nat
deriving DecidableEq, Repr

/-- Reads a file of version 1.0: marker, version, length of the header, header,
and one word for every position. -/
def read? (bytes : List UInt8) : Option Contents :=
  let length := ofLittleEndian ((bytes.drop 8).take 2)
  let head := (bytes.drop 10).take length
  let payload := bytes.drop (10 + length)
  if bytes.take 6 = [0x93, 0x4E, 0x55, 0x4D, 0x50, 0x59] ∧
      (bytes.drop 6).take 2 = [1, 0] ∧ head.length = length then
    (readHeader? (head.map fun byte => Char.ofNat byte.toNat)).bind fun header =>
      (Kind.ofDescr? header.descr).bind fun kind =>
        if payload.length = 8 * header.dims.prod then
          some ⟨kind, header.fortranOrder, header.dims,
            (blocks 8 header.dims.prod payload).map ofLittleEndian⟩
        else none
  else none

/-- A file is read from its parts. -/
theorem read?_append {head payload : List UInt8} {header : Header} {kind : Kind}
    (hlength : head.length < 2 ^ 16)
    (hheader : readHeader? (head.map fun byte => Char.ofNat byte.toNat) =
      some header) (hkind : Kind.ofDescr? header.descr = some kind)
      (hpayload : payload.length = 8 * header.dims.prod) :
    read? (magic ++ littleEndian 2 head.length ++ head ++ payload) =
      some ⟨kind, header.fortranOrder, header.dims,
        (blocks 8 header.dims.prod payload).map ofLittleEndian⟩ := by
  rw [List.append_assoc (magic ++ littleEndian 2 head.length)]
  -- marker, version and length take the first ten bytes
  have hcount : ((magic ++ littleEndian 2 head.length ++ (head ++ payload)).drop
      8).take 2 =
      littleEndian 2 head.length := rfl
  have hlittle : ofLittleEndian (littleEndian 2 head.length) = head.length :=
    ofLittleEndian_of_lt hlength
  have hrest : (magic ++ littleEndian 2 head.length ++ (head ++ payload)).drop
      10 = head ++ payload := rfl
  have hhead : ((magic ++ littleEndian 2 head.length ++ (head ++ payload)).drop
      10).take head.length = head := by
    rw [hrest, List.take_left]
  have htail : (magic ++ littleEndian 2 head.length ++ (head ++ payload)).drop
      (10 + head.length) = payload := by
    rw [← List.drop_drop, hrest, List.drop_left]
  have hmarker : (magic ++ littleEndian 2 head.length ++ (head ++ payload)).take 6 =
      [0x93, 0x4E, 0x55, 0x4D, 0x50, 0x59] := rfl
  have hversion :
      ((magic ++ littleEndian 2 head.length ++ (head ++ payload)).drop 6).take
      2 = [1, 0] := rfl
  unfold read?
  rw [hcount, hlittle]
  dsimp only
  rw [hhead, htail, if_pos ⟨hmarker, hversion, rfl⟩, hheader, Option.bind_some,
    hkind, Option.bind_some,
    if_pos hpayload]

/-- What the bytes of an array consist of, for its dimensions. -/
structure Layout (dims : List Nat) (head payload bytes : List UInt8) : Prop where
  /-- The marker and version 1.0, the length of the header, the header, the
  words, and nothing else. -/
  parts : bytes = [0x93, 0x4E, 0x55, 0x4D, 0x50, 0x59] ++ [1, 0] ++
    littleEndian 2 head.length ++ head ++ payload
  /-- The two bytes are the length of the header. -/
  length : ofLittleEndian (littleEndian 2 head.length) = head.length
  newline : head.getLast? = some 0x0A
  aligned : (10 + head.length) % 64 = 0
  /-- There is one word of eight bytes for every position. -/
  payload : payload.length = 8 * dims.prod

/-- **The encoding of arrays is exact.** A value is encoded if and only if it is
rectangular. If its lists are nested no deeper than JSON text allows and are
counted in 64 bits, the bytes have the layout of version 1.0, and its reader
finds the dimensions of the value and its words: two's complements if every
number fits a signed word, doubles otherwise. The value is rebuilt from these,
each of its numbers as it is or as its double. -/
theorem encode_exact (value : Json) :
    ((∃ bytes, encode value = .ok bytes) ↔ Rectangular value) ∧
      ∀ bytes, encode value = .ok bytes →
        (Draft.ofJson value).depth ≤ Draft.maxDepth → width value < 2 ^ 64 →
        ∃ dims head payload words, HasShape value dims ∧
          Layout dims head payload bytes ∧
          read? bytes = some ⟨Kind.ofIntegral (isIntegral (numbers value)),
            false, dims, words⟩ ∧
          words = (numbers value).map (word (isIntegral (numbers value))) ∧
          words.length = dims.prod ∧
          rebuild dims
            (words.map (Kind.ofIntegral (isIntegral (numbers value))).number) =
            convert (stored (isIntegral (numbers value))) value := by
  refine ⟨encode_ok_iff, fun bytes hbytes hdepth hwidth => ?_⟩
  obtain ⟨dims, hshape⟩ := encode_ok_iff.mp ⟨bytes, hbytes⟩
  let integral := isIntegral (numbers value)
  let head := header integral dims
  let payload := (numbers value).flatMap fun n => littleEndian 8 (word integral n)
  -- otherwise the two bytes would not hold the length of the header
  have hlength : head.length < 2 ^ 16 :=
    length_header_lt (hshape.length_eq_depth ▸ hdepth) fun dim hdim =>
      Nat.lt_of_le_of_lt (hshape.le_width dim hdim) hwidth
  have hpayload : payload.length = 8 * dims.prod := by
    have hwords : ∀ n ∈ numbers value,
        (littleEndian 8 (word integral n)).length = 8 := fun n _ =>
      length_littleEndian 8 (word integral n)
    rw [length_flatMap_const hwords, hshape.length_numbers, Nat.mul_comm]
  have hparts : bytes = magic ++ littleEndian 2 head.length ++ head ++ payload :=
    Except.ok.inj (hbytes.symm.trans (encode_eq_of_hasShape hshape))
  have hwords : (blocks 8 dims.prod payload).map ofLittleEndian =
      (numbers value).map (word integral) := by
    rw [← hshape.length_numbers, blocks_flatMap fun n _ =>
      length_littleEndian 8 (word integral n), List.map_map]
    exact List.map_congr_left fun n _ => ofLittleEndian_of_lt (word_lt integral n)
  have hread : read? bytes = some ⟨Kind.ofIntegral integral, false, dims,
      (numbers value).map (word integral)⟩ := by
    rw [hparts, ← hwords]
    exact read?_append hlength (readHeader?_header integral dims)
      (Kind.ofDescr?_kindText integral) hpayload
  have hnumbers : ((numbers value).map (word integral)).map
      (Kind.ofIntegral integral).number =
      (numbers value).map (stored integral) := by
    rw [List.map_map]
    refine List.map_congr_left fun n hn => Kind.number_word fun hintegral => ?_
    exact List.all_eq_true.mp hintegral n hn
  refine ⟨dims, head, payload, _, hshape,
    ⟨hparts, ofLittleEndian_of_lt hlength, getLast?_header integral dims,
    mod_length_header integral dims, hpayload⟩, hread, rfl, ?_, ?_⟩
  · rw [List.length_map, hshape.length_numbers]
  · rw [hnumbers]
    exact rebuild_numbers hshape (stored integral)

/-- Two rows of three numbers, of which one is negative. -/
def twoRows : Json :=
  .arr [.arr [.ofInt 1, .ofInt (-2), .ofInt 3],
    .arr [.ofInt 4, .ofInt 0, .ofInt 0x7FFFFFFFFFFFFFFF]]

theorem two_rows_exact :
    ∃ bytes, encode twoRows = .ok bytes ∧
      read? bytes = some ⟨.int64, false, [2, 3],
        [1, 0xFFFFFFFFFFFFFFFE, 3, 4, 0, 0x7FFFFFFFFFFFFFFF]⟩ ∧
      rebuild [2, 3] ([1, 0xFFFFFFFFFFFFFFFE, 3, 4, 0, 0x7FFFFFFFFFFFFFFF].map
        Kind.int64.number) = twoRows := by
  have hrow : ∀ a b c : Number, HasShape (.arr [.num a, .num b, .num c]) [3] :=
    fun a b c =>
    .rows (.number a) (by simp [HasShape.number])
  have hshape : HasShape twoRows [2, 3] :=
    .rows (hrow _ _ _) (by simp [hrow, Json.ofInt])
  obtain ⟨bytes, hbytes⟩ := (encode_exact twoRows).1.mpr ⟨_, hshape⟩
  obtain ⟨dims, _, _, words, hdims, _, hread, hwords, _, hrebuild⟩ :=
    (encode_exact twoRows).2 bytes hbytes (by decide) (by decide)
  cases hdims.unique hshape
  subst hwords
  exact ⟨bytes, hbytes, hread, hrebuild⟩

end Playbook.Npy
