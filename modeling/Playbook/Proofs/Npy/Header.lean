import Mathlib.Algebra.Order.Ring.Nat
import Playbook.Npy
import Playbook.Proofs.Text

/-!
# Playbook — the header of an array

The header is the text of a dictionary with three entries, padded with blanks
and ended by a newline. Its reader takes the entries in any order, with any
blanks between them, and finds the kind of number, the order of the dimensions
and the dimensions.

Main results:

* `mod_length_header`, `length_header_lt` — the header ends where a
  multiple of 64 bytes ends, and for up to 127 dimensions below `2 ^ 64`
  its length fits sixteen bits.
* `readHeader?_header` — the kind of number and the dimensions are read from the
  header as they were written.
-/

namespace Playbook.Npy

/-! ## Reading a header -/

/-- Drops the blanks that may stand between the parts of a header. -/
def skipBlanks (cs : List Char) : List Char := cs.dropWhile (· == ' ')

/-- A number in decimal digits. -/
def readDigits? (cs : List Char) : Option Nat :=
  if cs.isEmpty || !cs.all Char.isDigit then none
    else some (Nat.ofDigitChars 10 cs 0)

/-- The numbers between commas; nothing has to follow the last comma. -/
def readNumbers? : List (List Char) → Option (List Nat)
  | [] => some []
  | [last] => if (skipBlanks last).isEmpty then some []
    else (readDigits? (skipBlanks last)).map ([·])
  | part :: rest => do return (← readDigits? (skipBlanks part)) ::
    (← readNumbers? rest)

/-- What stands between the parentheses of a tuple; a tuple of one
number has a comma. -/
def readTuple? (body : List Char) : Option (List Nat) :=
  match body.splitOn ',' with
  | [only] => if (skipBlanks only).isEmpty then some [] else none
  | parts => readNumbers? parts

/-- A value in a header. -/
inductive Literal where
  | text (s : List Char)
  | truth (b : Bool)
  | tuple (ns : List Nat)
deriving DecidableEq, Repr

/-- A value, and what follows it. -/
def readLiteral? : List Char → Option (Literal × List Char)
  | '\'' :: rest => (Text.splitFirst '\'' rest).map fun (s, rest) => (.text s, rest)
  | '(' :: rest => (Text.splitFirst ')' rest).bind fun (body, rest) =>
    (readTuple? body).map fun ns => (.tuple ns, rest)
  | 'T' :: 'r' :: 'u' :: 'e' :: rest => some (.truth true, rest)
  | 'F' :: 'a' :: 'l' :: 's' :: 'e' :: rest => some (.truth false, rest)
  | _ => none

/-- A key in quotes with its value, and what follows them. -/
def readPair? : List Char → Option ((List Char × Literal) × List Char)
  | '\'' :: rest => (Text.splitFirst '\'' rest).bind fun (key, rest) =>
    match skipBlanks rest with
    | ':' :: rest => (readLiteral? (skipBlanks rest)).map fun (value, rest) =>
      ((key, value), rest)
    | _ => none
  | _ => none

/-- Fewer than `bound` entries of a dictionary after its opening brace, and what
follows the closing one. -/
def readEntries? : (bound : Nat) → List Char →
    Option (List (List Char × Literal) × List Char)
  | 0, _ => none
  | bound + 1, cs =>
    match skipBlanks cs with
    | '\x7d' :: rest => some ([], rest)
    | cs => (readPair? cs).bind fun (entry, rest) =>
      match skipBlanks rest with
      | ',' :: rest => (readEntries? bound rest).map fun (entries, rest) =>
        (entry :: entries, rest)
      | '\x7d' :: rest => some ([entry], rest)
      | _ => none

/-- What a header says. -/
structure Header where
  descr : String
  fortranOrder : Bool
  dims : List Nat
deriving DecidableEq, Repr

/-- The header that a dictionary is: it has the three entries and no others. -/
def Header.ofEntries? (entries : List (List Char × Literal)) : Option Header :=
  match entries.lookup "descr".toList, entries.lookup "fortran_order".toList,
      entries.lookup "shape".toList with
  | some (.text descr), some (.truth fortranOrder), some (.tuple dims) =>
    if entries.length = 3 then some ⟨String.ofList descr, fortranOrder, dims⟩
      else none
  | _, _, _ => none

/-- Reads a header: a dictionary, blanks and a newline. -/
def readHeader? (cs : List Char) : Option Header :=
  match skipBlanks cs with
  | '\x7b' :: rest => (readEntries? 4 rest).bind fun (entries, rest) =>
    if skipBlanks rest = ['\n'] then Header.ofEntries? entries else none
  | _ => none

/-! ## Entries -/

/-- An entry that is followed by a comma is read before the others. -/
theorem readEntries?_cons {bound : Nat}
    {cs key colon text tail rest : List Char} {value : Literal}
    (hkey : '\'' ∉ key) (hcs : skipBlanks cs = '\'' :: (key ++ '\'' :: colon))
    (hcolon : skipBlanks colon = ':' :: text)
    (hvalue : readLiteral? (skipBlanks text) = some (value, tail))
    (htail : skipBlanks tail = ',' :: rest) :
    readEntries? (bound + 1) cs =
      (readEntries? bound rest).map fun (entries, rest) =>
        ((key, value) :: entries, rest) := by
  have hentry : readPair? ('\'' :: (key ++ '\'' :: colon)) =
      some ((key, value), tail) := by
    show (Text.splitFirst '\'' (key ++ '\'' :: colon)).bind _ = _
    rw [Text.splitFirst_append hkey, Option.bind_some]
    dsimp only
    rw [hcolon]
    show (readLiteral? (skipBlanks text)).map _ = _
    rw [hvalue]
    rfl
  rw [readEntries?, hcs]
  show (readPair? ('\'' :: (key ++ '\'' :: colon))).bind _ = _
  rw [hentry, Option.bind_some]
  dsimp only
  rw [htail]
  rfl

/-! ## Tuples -/

theorem isDigit_toDigits (n : Nat) : ∀ c ∈ Nat.toDigits 10 n, c.isDigit = true :=
  fun _ hc => Nat.isDigit_of_mem_toDigits (by decide) (by decide) hc

theorem readDigits?_toDigits (n : Nat) :
    readDigits? (Nat.toDigits 10 n) = some n := by
  have hempty : (Nat.toDigits 10 n).isEmpty = false := by simp [Nat.toDigits_ne_nil]
  have hall : (Nat.toDigits 10 n).all Char.isDigit = true :=
    List.all_eq_true.mpr (isDigit_toDigits n)
  unfold readDigits?
  rw [hempty, hall]
  exact congrArg some Nat.ofDigitChars_ten_toDigits

theorem skipBlanks_toDigits (n : Nat) :
    skipBlanks (Nat.toDigits 10 n) = Nat.toDigits 10 n := by
  cases hdigits : Nat.toDigits 10 n with
  | nil => rfl
  | cons c cs =>
    have hdigit : c.isDigit = true :=
      isDigit_toDigits n c (hdigits ▸ List.mem_cons_self ..)
    have hblank : (c == ' ') = false := by
      rw [beq_eq_false_iff_ne]
      rintro rfl
      exact absurd hdigit (by decide)
    unfold skipBlanks
    rw [List.dropWhile_cons, hblank]
    rfl

theorem readNumbers?_cons {part : List Char} {rest : List (List Char)} {n : Nat}
    {ns : List Nat} (hpart : skipBlanks part = Nat.toDigits 10 n)
    (hrest : readNumbers? rest = some ns) :
    readNumbers? (part :: rest) = some (n :: ns) := by
  -- a number has digits, so it is not taken for the blank after the last comma
  have hempty : (Nat.toDigits 10 n).isEmpty = false := by simp [Nat.toDigits_ne_nil]
  cases rest with
  | nil =>
    cases hrest
    unfold readNumbers?
    rw [hpart, hempty, readDigits?_toDigits]
    rfl
  | cons second more =>
    unfold readNumbers?
    rw [hpart, readDigits?_toDigits, hrest]
    rfl

/-- What is written between the parentheses of a tuple. -/
def tupleBody : List Nat → List Char
  | [] => []
  | [n] => Nat.toDigits 10 n ++ [',']
  | dims => [',', ' '].intercalate (dims.map (Nat.toDigits 10))

theorem toList_shapeText (dims : List Nat) :
    (shapeText dims).toList = '(' :: (tupleBody dims ++ [')']) := by
  have hnumber : ∀ n : Nat, (toString n).toList = Nat.toDigits 10 n :=
    fun _ => Nat.toList_repr
  match dims with
  | [] => rfl
  | [n] =>
    show ("(" ++ toString n ++ ",)").toList = _
    rw [String.toList_append, String.toList_append, hnumber]
    simp [tupleBody]
  | n :: m :: more =>
    show ("(" ++ ", ".intercalate ((n :: m :: more).map toString) ++ ")").toList = _
    rw [String.toList_append, String.toList_append,
      String.toList_intercalate, List.map_map]
    have hparts : (n :: m :: more).map (String.toList ∘ toString) =
        (n :: m :: more).map (Nat.toDigits 10) :=
      List.map_congr_left fun k _ => hnumber k
    rw [hparts]
    rfl

/-- A blank after a comma belongs to the part that follows. -/
theorem intercalate_comma_blank (part : List Char) (parts : List (List Char)) :
    [',', ' '].intercalate (part :: parts) =
    [','].intercalate (part :: parts.map (' ' :: ·)) := by
  induction parts generalizing part with
  | nil => rfl
  | cons second parts ih =>
    rw [List.intercalate_cons_cons, ih second, List.map_cons,
      List.intercalate_cons_cons]
    cases parts with
    | nil => simp
    | cons third parts => simp [List.intercalate_cons_cons]

/-- The dimensions are read from the tuple that they were written as. -/
theorem readTuple?_tupleBody (dims : List Nat) :
    readTuple? (tupleBody dims) = some dims := by
  have hcomma : ∀ n : Nat, ',' ∉ Nat.toDigits 10 n :=
    fun n hmem => absurd (isDigit_toDigits n _ hmem) (by decide)
  match dims with
  | [] => rfl
  | [n] =>
    have hsplit : (Nat.toDigits 10 n ++ [',']).splitOn ',' =
        [Nat.toDigits 10 n, []] := by
      have hparts : ([','].intercalate [Nat.toDigits 10 n, []]).splitOn ',' =
          [Nat.toDigits 10 n, []] :=
        List.splitOn_intercalate ',' (by simp [hcomma n]) (List.cons_ne_nil _ _)
      have hbody : [','].intercalate [Nat.toDigits 10 n, []] =
          Nat.toDigits 10 n ++ [','] := by simp [List.intercalate]
      rwa [hbody] at hparts
    unfold readTuple? tupleBody
    rw [hsplit]
    exact readNumbers?_cons (skipBlanks_toDigits n) rfl
  | n :: m :: more =>
    let parts := (m :: more).map fun k => ' ' :: Nat.toDigits 10 k
    have hbody : tupleBody (n :: m :: more) =
        [','].intercalate (Nat.toDigits 10 n :: parts) := by
      show [',', ' '].intercalate
        (Nat.toDigits 10 n :: (m :: more).map (Nat.toDigits 10)) = _
      rw [intercalate_comma_blank, List.map_map]
      rfl
    have hsplit : (tupleBody (n :: m :: more)).splitOn ',' =
        Nat.toDigits 10 n :: parts := by
      rw [hbody]
      refine List.splitOn_intercalate ',' (fun part hpart => ?_)
        (List.cons_ne_nil _ _)
      rcases List.mem_cons.mp hpart with rfl | hmem
      · exact hcomma n
      · obtain ⟨k, -, rfl⟩ := List.mem_map.mp hmem
        exact List.not_mem_cons_of_ne_of_not_mem (by decide) (hcomma k)
    have hparts : ∀ ks : List Nat, readNumbers?
        (ks.map fun k => ' ' :: Nat.toDigits 10 k) = some ks := by
      intro ks
      induction ks with
      | nil => rfl
      | cons k ks ih => exact readNumbers?_cons (skipBlanks_toDigits k) ih
    unfold readTuple?
    rw [hsplit]
    exact readNumbers?_cons (skipBlanks_toDigits n) (hparts (m :: more))

theorem mem_intercalate {α : Type} {x : α} {separator : List α}
    {parts : List (List α)} (h : x ∈ separator.intercalate parts) :
    x ∈ separator ∨ ∃ part ∈ parts, x ∈ part := by
  induction parts with
  | nil => cases h
  | cons part parts ih =>
    cases parts with
    | nil =>
      have hpart : x ∈ part := by simpa using h
      exact .inr ⟨part, List.mem_cons_self .., hpart⟩
    | cons second more =>
      rw [List.intercalate_cons_cons, List.mem_append, List.mem_append] at h
      rcases h with (hpart | hseparator) | hrest
      · exact .inr ⟨part, List.mem_cons_self .., hpart⟩
      · exact .inl hseparator
      · obtain hseparator | ⟨other, hother, hx⟩ := ih hrest
        · exact .inl hseparator
        · exact .inr ⟨other, List.mem_cons_of_mem _ hother, hx⟩

/-- A tuple has digits, commas and blanks between its parentheses. -/
theorem mem_tupleBody {dims : List Nat} {c : Char} (h : c ∈ tupleBody dims) :
    c.isDigit = true ∨ c = ',' ∨ c = ' ' := by
  match dims with
  | [] => cases h
  | [n] =>
    rcases List.mem_append.mp h with hdigit | hcomma
    · exact .inl (isDigit_toDigits n c hdigit)
    · exact .inr (.inl (List.mem_singleton.mp hcomma))
  | n :: m :: more =>
    have hbody : c ∈ [',', ' '].intercalate
        ((n :: m :: more).map (Nat.toDigits 10)) := h
    obtain hseparator | ⟨part, hpart, hc⟩ := mem_intercalate hbody
    · rcases List.mem_cons.mp hseparator with hcomma | hblank
      · exact .inr (.inl hcomma)
      · exact .inr (.inr (List.mem_singleton.mp hblank))
    · obtain ⟨k, -, rfl⟩ := List.mem_map.mp hpart
      exact .inl (isDigit_toDigits k c hc)

/-! ## Header texts -/

/-- The word for the kind of number. -/
def kindText (integral : Bool) : String := if integral then "<i8" else "<f8"

/-- The characters of a header text after its opening brace, and
what follows them. -/
def entriesText (integral : Bool) (dims : List Nat)
    (rest : List Char) : List Char :=
  "'descr': '".toList ++ ((kindText integral).toList ++
    ("', 'fortran_order': False, 'shape': (".toList ++
    (tupleBody dims ++ ')' :: (", \x7d".toList ++ rest))))

theorem toList_headerText (integral : Bool) (dims : List Nat) (rest : List Char) :
    (headerText integral dims).toList ++ rest =
    '\x7b' :: entriesText integral dims rest := by
  have hopening : "\x7b'descr': '".toList = '\x7b' :: "'descr': '".toList := rfl
  have htuple : "', 'fortran_order': False, 'shape': (".toList =
      "', 'fortran_order': False, 'shape': ".toList ++ ['('] := rfl
  unfold headerText entriesText kindText
  rw [String.toList_append, String.toList_append, String.toList_append,
    String.toList_append, toList_shapeText,
    hopening, htuple]
  simp only [List.append_assoc, List.cons_append, List.nil_append]

/-- The three entries are read as they were written. -/
theorem readEntries?_entriesText (integral : Bool) (dims : List Nat)
    (rest : List Char) :
    readEntries? 4 (entriesText integral dims rest) =
      some ([("descr".toList, .text (kindText integral).toList),
        ("fortran_order".toList, .truth false),
        ("shape".toList, .tuple dims)], rest) := by
  have hparen : ')' ∉ tupleBody dims := by
    intro hmem
    rcases mem_tupleBody hmem with hdigit | hcomma | hblank
    · exact absurd hdigit (by decide)
    · exact absurd hcomma (by decide)
    · exact absurd hblank (by decide)
  have htuple : readLiteral?
      (skipBlanks
        (' ' :: '(' :: (tupleBody dims ++ ')' :: (", \x7d".toList ++ rest)))) =
      some (.tuple dims, ", \x7d".toList ++ rest) := by
    show (Text.splitFirst ')'
      (tupleBody dims ++ ')' :: (", \x7d".toList ++ rest))).bind _ = _
    rw [Text.splitFirst_append hparen, Option.bind_some]
    dsimp only
    rw [readTuple?_tupleBody]
    rfl
  have hdescr : '\'' ∉ "descr".toList := by decide
  have horder : '\'' ∉ "fortran_order".toList := by decide
  have hshape : '\'' ∉ "shape".toList := by decide
  -- what stands before the dimensions is one of two texts, and is
  -- read by evaluation
  cases integral <;>
  · unfold entriesText
    rw [readEntries?_cons hdescr rfl rfl rfl rfl,
      readEntries?_cons horder rfl rfl rfl rfl,
      readEntries?_cons hshape rfl rfl htuple rfl]
    rfl

/-! ## Header bytes -/

theorem toList_loop (bytes : ByteArray) (i : Nat) (before : List UInt8) :
    ByteArray.toList.loop bytes i before =
    before.reverse ++ bytes.data.toList.drop i := by
  -- by induction on how many bytes are left
  induction hleft : bytes.size - i generalizing i before with
  | zero =>
    have hend : bytes.data.toList.length ≤ i := by
      rw [Array.length_toList]
      show bytes.size ≤ i
      omega
    have hdone : ¬ i < bytes.size := by omega
    rw [ByteArray.toList.loop, if_neg hdone, List.drop_eq_nil_of_le hend,
      List.append_nil]
  | succ left ih =>
    have hmore : i < bytes.size := by omega
    have hlength : i < bytes.data.toList.length := by
      rw [Array.length_toList]
      exact hmore
    have hget : bytes.get! i = bytes.data.toList[i] := by
      show bytes.data[i]! = _
      rw [getElem!_pos bytes.data i hmore]
      rfl
    rw [ByteArray.toList.loop, if_pos hmore, ih (i + 1) _ (by omega),
      List.drop_eq_getElem_cons hlength, hget,
      List.reverse_cons, List.append_assoc]
    rfl

/-- A text of characters below 128 has one byte for each of them. -/
theorem toList_toUTF8 {s : String} (h : ∀ c ∈ s.toList, c.toNat < 128) :
    s.toUTF8.toList = s.toList.map fun c => UInt8.ofNat c.toNat := by
  have hdata : s.toUTF8.toList = s.toUTF8.data.toList := toList_loop s.toUTF8 0 []
  have hbytes : s.toUTF8.data.toList = s.toList.flatMap String.utf8EncodeChar := by
    have hlist : (String.ofList s.toList).toUTF8.data.toList =
        s.toList.flatMap String.utf8EncodeChar :=
      List.toList_data_toByteArray
    rwa [String.ofList_toList] at hlist
  have hsingle : ∀ c ∈ s.toList, String.utf8EncodeChar c =
      [UInt8.ofNat c.toNat] := by
    intro c hc
    have hsize : c.utf8Size = 1 :=
      Char.utf8Size_eq_one_iff.mpr (Nat.le_of_lt_succ (h c hc))
    rw [String.utf8EncodeChar_eq_singleton hsize]
    rfl
  rw [hdata, hbytes, List.map_eq_flatMap, List.flatMap_def, List.flatMap_def,
    List.map_congr_left hsingle]

/-- A character below 128 is found again in its byte. -/
theorem ofNat_toNat_byte {c : Char} (h : c.toNat < 128) :
    Char.ofNat (UInt8.ofNat c.toNat).toNat = c := by
  have hbyte : (UInt8.ofNat c.toNat).toNat = c.toNat := by
    rw [UInt8.toNat_ofNat']
    omega
  rw [hbyte, Char.ofNat_toNat]

/-- Header texts have characters below 128 only. -/
theorem lt_of_mem_headerText {integral : Bool} {dims : List Nat} {c : Char}
    (h : c ∈ (headerText integral dims).toList) : c.toNat < 128 := by
  have htuple : ∀ c ∈ tupleBody dims, c.toNat < 128 := by
    intro c hc
    rcases mem_tupleBody hc with hdigit | rfl | rfl
    · have hnine : c.toNat ≤ 57 := (Char.isDigit_iff_toNat.mp hdigit).2
      omega
    · decide
    · decide
  have hliteral : ∀ s : String, (s.toList.all fun c => c.toNat < 128) = true →
      ∀ c ∈ s.toList, c.toNat < 128 :=
    fun _ hall c hc => of_decide_eq_true (List.all_eq_true.mp hall c hc)
  have hopening := hliteral "\x7b'descr': '" (by decide)
  have hkind := hliteral (kindText integral) (by cases integral <;> decide)
  have hmiddle := hliteral "', 'fortran_order': False, 'shape': (" (by decide)
  have hclosing := hliteral "), \x7d" (by decide)
  have htext : (headerText integral dims).toList =
      "\x7b'descr': '".toList ++ ((kindText integral).toList ++
      ("', 'fortran_order': False, 'shape': (".toList ++
        (tupleBody dims ++ "), \x7d".toList))) := by
    have hrest := toList_headerText integral dims []
    rwa [List.append_nil] at hrest
  rw [htext, List.mem_append, List.mem_append, List.mem_append,
    List.mem_append] at h
  rcases h with hc | hc | hc | hc | hc
  · exact hopening c hc
  · exact hkind c hc
  · exact hmiddle c hc
  · exact htuple c hc
  · exact hclosing c hc

/-! ## Headers -/

/-- How many blanks a text of that many bytes is padded with: marker, length and
newline count. -/
def padding (length : Nat) : Nat := (64 - (magic.length + 2 + length + 1) % 64) % 64

theorem header_eq (integral : Bool) (dims : List Nat) :
    header integral dims = ((headerText integral dims).toList.map fun c =>
      UInt8.ofNat c.toNat) ++
      List.replicate (padding (headerText integral dims).toList.length)
      0x20 ++ [0x0A] := by
  have hbytes : (headerText integral dims).toUTF8.toList =
      (headerText integral dims).toList.map fun c => UInt8.ofNat c.toNat :=
    toList_toUTF8 fun _ => lt_of_mem_headerText
  unfold header padding
  rw [hbytes]
  dsimp only
  rw [List.length_map]

theorem length_header (integral : Bool) (dims : List Nat) :
    (header integral dims).length =
    (headerText integral dims).toList.length + padding
      (headerText integral dims).toList.length + 1 := by
  rw [header_eq, List.length_append, List.length_append, List.length_map,
    List.length_replicate, List.length_singleton]

/-- The words start at a multiple of 64 bytes. -/
theorem mod_length_header (integral : Bool) (dims : List Nat) :
    (10 + (header integral dims).length) % 64 = 0 := by
  have hmagic : magic.length = 8 := rfl
  rw [length_header]
  unfold padding
  omega

theorem getLast?_header (integral : Bool) (dims : List Nat) :
    (header integral dims).getLast? = some 0x0A := by
  rw [header_eq]
  exact List.getLast?_concat ..

theorem length_tupleBody_le {dims : List Nat} (h : ∀ dim ∈ dims, dim < 2 ^ 64) :
    (tupleBody dims).length ≤ 22 * dims.length := by
  have hdigits : ∀ n < 2 ^ 64, (Nat.toDigits 10 n).length ≤ 20 := by
    intro n hn
    rw [Nat.length_toDigits_le_iff (by decide) (by decide)]
    exact Nat.lt_trans hn (by decide)
  have hparts : ∀ parts : List (List Char), (∀ part ∈ parts, part.length ≤ 20) →
      ([',', ' '].intercalate parts).length ≤ 22 * parts.length := by
    intro parts hall
    induction parts with
    | nil => exact Nat.zero_le _
    | cons part parts ih =>
      have hpart := hall part (List.mem_cons_self ..)
      have hrest := ih fun other hother =>
        hall other (List.mem_cons_of_mem _ hother)
      cases parts with
      | nil =>
        have hlength : ([',', ' '].intercalate [part]).length =
            part.length := by simp
        rw [hlength, List.length_singleton]
        omega
      | cons second more =>
        rw [List.intercalate_cons_cons, List.length_append, List.length_append]
        simp only [List.length_cons, List.length_nil] at hrest ⊢
        omega
  match dims with
  | [] => exact Nat.le_refl _
  | [n] =>
    have hn := hdigits n (h n (List.mem_cons_self ..))
    show (Nat.toDigits 10 n ++ [',']).length ≤ 22 * 1
    rw [List.length_append, List.length_singleton]
    omega
  | n :: m :: more =>
    have hbody :=
      hparts ((n :: m :: more).map (Nat.toDigits 10)) fun part hpart => by
      obtain ⟨k, hk, rfl⟩ := List.mem_map.mp hpart
      exact hdigits k (h k hk)
    rwa [List.length_map] at hbody

/-- The length of a header fits sixteen bits. -/
theorem length_header_lt {integral : Bool} {dims : List Nat}
    (hcount : dims.length ≤ 127) (hsize : ∀ dim ∈ dims, dim < 2 ^ 64) :
    (header integral dims).length < 2 ^ 16 := by
  -- twenty digits, a comma and a blank for each dimension
  have hbody := length_tupleBody_le hsize
  have hkind : (kindText integral).toList.length = 3 := by cases integral <;> rfl
  have htext : (headerText integral dims).toList.length =
      55 + (tupleBody dims).length := by
    have hrest := congrArg List.length (toList_headerText integral dims [])
    rw [List.append_nil] at hrest
    have hopening : "'descr': '".toList.length = 10 := rfl
    have hmiddle : "', 'fortran_order': False, 'shape': (".toList.length = 37 := rfl
    have hclosing : ", \x7d".toList.length = 3 := rfl
    rw [hrest]
    unfold entriesText
    simp only [List.length_cons, List.length_append, List.length_nil, hkind,
      hopening, hmiddle, hclosing]
    omega
  rw [length_header, htext]
  unfold padding
  omega

/-- A header is read as it was written. -/
theorem readHeader?_header (integral : Bool) (dims : List Nat) :
    readHeader? ((header integral dims).map fun byte => Char.ofNat byte.toNat) =
      some ⟨kindText integral, false, dims⟩ := by
  -- after the closing brace there are blanks and the newline
  let blanks :=
    List.replicate (padding (headerText integral dims).toList.length) ' '
  have hchars : (header integral dims).map (fun byte => Char.ofNat byte.toNat) =
      '\x7b' :: entriesText integral dims (blanks ++ ['\n']) := by
    have htext : ((headerText integral dims).toList.map fun c =>
        UInt8.ofNat c.toNat).map
          (fun byte => Char.ofNat byte.toNat) =
        (headerText integral dims).toList := by
      rw [List.map_map]
      exact (List.map_congr_left fun c hc =>
        ofNat_toNat_byte (lt_of_mem_headerText hc)).trans (List.map_id _)
    rw [header_eq, List.map_append, List.map_append, htext, List.map_replicate,
      List.append_assoc,
      ← toList_headerText]
    rfl
  have hblanks : skipBlanks (blanks ++ ['\n']) = ['\n'] :=
    List.dropWhile_append_of_pos fun c hc => by simp [(List.mem_replicate.mp hc).2]
  rw [hchars]
  show (readEntries? 4 (entriesText integral dims (blanks ++ ['\n']))).bind _ = _
  rw [readEntries?_entriesText, Option.bind_some]
  dsimp only
  rw [if_pos hblanks]
  cases integral <;> rfl

end Playbook.Npy
