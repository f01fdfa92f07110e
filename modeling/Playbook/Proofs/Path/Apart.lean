import Playbook.Answer
import Playbook.Proofs.Keeping

/-!
# Playbook — new files have names of their own

The name of a new file ends in its token, the index of an element if it has one,
and its extension. What comes before may be anything, dots and digits included:
the ends are told apart from behind, where the extension has no dot, the index
is decimal, and the token is of a known length. So two such names are different
if the extensions are, or else if the tokens or the indices are.

Main results:

* `Path.Apart.place_ne` — paths with different file names lead to different places.
* `Path.indexed_withIndex` — an index goes before the last dot of the last
  component, and changes nothing else.
* `Path.Named.apart`, `Path.Named.apart_of_extension` — when the names of new
  files are different.
* `Path.Exported.apart_of_index` — the export of a database is no
  file that has an index.
* `Database.exported_of_exportAs` — where a database is exported to.
-/

namespace Playbook

open Effect

namespace Path

/-! ## Different names -/

/-- The paths have different file names. -/
def Apart (p q : String) : Prop := ∃ a b, fileName? p = some a ∧
    fileName? q = some b ∧ a ≠ b

theorem Apart.symm {p q : String} (h : Apart p q) : Apart q p := by
  obtain ⟨a, b, ha, hb, hne⟩ := h
  exact ⟨b, a, hb, ha, hne.symm⟩

theorem not_apart_self (p : String) : ¬ Apart p p := by
  rintro ⟨a, b, ha, hb, hne⟩
  rw [ha] at hb
  exact hne (Option.some.inj hb)

/-- The last name that is followed on the disk is the file name, if there is one. -/
theorem getLast?_of_fileName? {path name : String}
    (h : fileName? path = some name) :
    (Disk.splitPath path).1.getLast? = some name ∧ name ≠ ".." := by
  rw [fileName?_eq] at h
  obtain ⟨last, hlast, rfl⟩ := Option.map_eq_some_iff.mp h
  obtain ⟨hlast, hback⟩ := Option.filter_eq_some_iff.mp hlast
  refine ⟨?_, fun hsame => of_decide_eq_true hback ?_⟩
  · rw [splitPath_fst, List.getLast?_map, hlast]
    rfl
  · rw [← String.toList_ofList (l := last), hsame]
    rfl

/-- Paths with different file names lead to different places. -/
theorem Apart.place_ne {p q : String} (h : Apart p q) {d d' : Disk}
    {place place' : Place} {isDir isDir' : Bool}
    (hp : d.locate p = .ok (place, isDir))
    (hq : d'.locate q = .ok (place', isDir')) : place ≠ place' := by
  obtain ⟨a, b, ha, hb, hne⟩ := h
  obtain ⟨hlast, hback⟩ := getLast?_of_fileName? ha
  obtain ⟨hlast', hback'⟩ := getLast?_of_fileName? hb
  have hplace := Disk.getLast?_of_locate hlast hback hp
  have hplace' := Disk.getLast?_of_locate hlast' hback' hq
  rintro rfl
  rw [hplace] at hplace'
  exact hne (Option.some.inj hplace')

/-! ## Indices -/

/-- The path has an index before the last dot of its last component, and is
otherwise the same. -/
def Indexed (base : String) (index : Nat) (path : String) : Prop :=
  isAbsolute path = isAbsolute base ∧ ∃ front stem extension, '.' ∉ extension ∧
    components base = front ++ [stem ++ '.' :: extension] ∧
    components path =
    front ++ [stem ++ '.' :: ((toString index).toList ++ '.' :: extension)]

/-- The index in the name of a new file, if it has one. -/
def indexText : Option Nat → List Char
  | none => []
  | some index => '.' :: (toString index).toList

/-- The file name ends in the token with a number, the index, and the extension. -/
structure Named (n : Nat) (index? : Option Nat)
    (extension path : String) : Prop where
  undotted : '.' ∉ extension.toList
  fileName : ∃ start, fileName? path =
    some (String.ofList (start ++ (Token.ofNat n).toList ++ indexText
      index? ++ '.' :: extension.toList))

section

variable (dir stem : String) {extension : String}
  (hslash : '/' ∉ extension.toList) (hdot : '.' ∉ extension.toList)

include hslash hdot

theorem named_unique (n : Nat) :
    Named n none extension (unique dir stem extension (Token.ofNat n)) := by
  obtain ⟨start, hname⟩ := fileName?_unique dir stem hslash n
  exact ⟨hdot, start, by rw [hname, indexText, List.append_nil]⟩

/-- With an index a new path starts where it did, and only its last
component is another one. -/
theorem components_withIndex (n index : Nat) :
    isAbsolute (withIndex (unique dir stem extension (Token.ofNat n)) index) =
        isAbsolute (unique dir stem extension (Token.ofNat n)) ∧
      ∃ front start, components (unique dir stem extension (Token.ofNat n)) =
          front ++ [start ++ (Token.ofNat n).toList ++ '.' :: extension.toList] ∧
        components (withIndex (unique dir stem extension (Token.ofNat n)) index) =
          front ++ [start ++ (Token.ofNat n).toList ++ '.' ::
            ((toString index).toList ++ '.' :: extension.toList)] := by
  obtain ⟨start, hname, hindexed⟩ := withIndex_unique dir stem hslash hdot n index
  -- the file name is one component, so no part of it has a slash
  have hstart : '/' ∉ start := by
    obtain ⟨parent, -, -, hcomponents⟩ := parent?_of_fileName? hname
    have hlast : start ++ (Token.ofNat n).toList ++ '.' :: extension.toList ∈
        components (unique dir stem extension (Token.ofNat n)) := by
      rw [hcomponents, String.toList_ofList]
      exact List.mem_append_right _ (List.mem_singleton_self _)
    have hnone := Text.not_mem_of_mem_pieces (List.mem_of_mem_filter hlast)
    exact fun hmem => hnone (List.mem_append_left _ (List.mem_append_left _ hmem))
  have hother : IsName (String.ofList
      (start ++ (Token.ofNat n).toList ++ '.' ::
        ((toString index).toList ++ '.' :: extension.toList))) := by
    unfold IsName
    rw [String.toList_ofList, List.append_assoc]
    refine ⟨?_, isComponent_append start ?_⟩
    · simp only [List.mem_append, List.mem_cons, not_or]
      exact ⟨hstart, Token.slash_not_mem_ofNat n, by decide,
        not_mem_toString (by decide) index, by decide, hslash⟩
    · rw [List.length_append, Token.length_ofNat]
      omega
  obtain ⟨hroot, front, hbase, hafter⟩ := components_withFileName hname hother
  rw [String.toList_ofList] at hbase hafter
  rw [hindexed]
  exact ⟨hroot, front, start, hbase, hafter⟩

/-- An index goes before the last dot of the last component of a new path, and
changes nothing else. -/
theorem indexed_withIndex (n index : Nat) :
    Indexed (unique dir stem extension (Token.ofNat n)) index
      (withIndex (unique dir stem extension (Token.ofNat n)) index) := by
  obtain ⟨hroot, front, start, hbase, hafter⟩ :=
    components_withIndex dir stem hslash hdot n index
  exact ⟨hroot, front, start ++ (Token.ofNat n).toList, extension.toList, hdot,
    hbase, hafter⟩

theorem named_withIndex (n index : Nat) :
    Named n (some index) extension
      (withIndex (unique dir stem extension (Token.ofNat n)) index) := by
  obtain ⟨-, front, start, -, hafter⟩ :=
    components_withIndex dir stem hslash hdot n index
  have hlast :
      (components (withIndex (unique dir stem extension (Token.ofNat n))
        index)).getLast? =
      some (start ++ (Token.ofNat n).toList ++ indexText
        (some index) ++ '.' :: extension.toList) := by
    rw [hafter, List.getLast?_concat, indexText, List.append_assoc (start ++ _)]
    rfl
  -- a name with a token in it does not lead back
  have hback : start ++ (Token.ofNat n).toList ++ indexText
      (some index) ++ '.' :: extension.toList ≠ ['.', '.'] := by
    intro hsame
    have hlength := congrArg List.length hsame
    simp only [List.length_append, Token.length_ofNat, List.length_cons,
      List.length_nil] at hlength
    omega
  refine ⟨hdot, start, ?_⟩
  rw [fileName?_eq, hlast, Option.filter_some, if_pos (decide_eq_true hback)]
  rfl

end

/-! ## Names that differ -/

/-- Texts that end in a dot and what follows it are only the same
if both parts are. -/
theorem append_dot_inj {front front' tail tail' : List Char} (h : '.' ∉ tail)
    (h' : '.' ∉ tail') (hsame : front ++ '.' :: tail = front' ++ '.' :: tail') :
    front = front' ∧ tail = tail' := by
  have hsplit := Text.splitLast_append h front
  rw [hsame, Text.splitLast_append h'] at hsplit
  obtain ⟨hfront, htail⟩ := Prod.mk.inj (Option.some.inj hsplit)
  exact ⟨hfront.symm, htail.symm⟩

theorem toString_inj {i j : Nat}
    (h : (toString i).toList = (toString j).toList) : i = j := by
  have hread : ∀ n : Nat, Nat.ofDigitChars 10 (toString n).toList 0 = n :=
    fun n => by
    rw [Nat.toString_eq_repr, Nat.toList_repr, Nat.ofDigitChars_ten_toDigits]
  rw [← hread i, h, hread j]

namespace Named

variable {n n' : Nat} {index? index'? : Option Nat}
  {extension extension' p q : String} (h : Named n index? extension p)
  (h' : Named n' index'? extension' q)

include h h'

/-- New files have different names if their extensions are different. -/
theorem apart_of_extension (hne : extension ≠ extension') : Apart p q := by
  obtain ⟨start, hname⟩ := h.fileName
  obtain ⟨start', hname'⟩ := h'.fileName
  refine ⟨_, _, hname, hname', fun hsame => hne ?_⟩
  exact String.toList_inj.mp
    (append_dot_inj h.undotted h'.undotted (String.ofList_inj.mp hsame)).2

/-- New files that both have an index, or both have none, have different names
if their tokens or their indices are different. -/
theorem apart (hkind : index?.isSome = index'?.isSome)
    (hne : Token.ofNat n ≠ Token.ofNat n' ∨ index? ≠ index'?) : Apart p q := by
  obtain ⟨start, hname⟩ := h.fileName
  obtain ⟨start', hname'⟩ := h'.fileName
  refine ⟨_, _, hname, hname', fun hsame => ?_⟩
  have hfront :=
    (append_dot_inj h.undotted h'.undotted (String.ofList_inj.mp hsame)).1
  have hparts : start ++ (Token.ofNat n).toList = start' ++
      (Token.ofNat n').toList ∧ index? = index'? := by
    cases index? with
    | none =>
      cases index'? with
      | none =>
        simp only [indexText, List.append_nil] at hfront
        exact ⟨hfront, rfl⟩
      | some j => cases hkind
    | some i =>
      cases index'? with
      | none => cases hkind
      | some j =>
        have hdigits : ∀ k : Nat, '.' ∉ (toString k).toList :=
          not_mem_toString (by decide)
        obtain ⟨htokens, hindices⟩ := append_dot_inj (hdigits i) (hdigits j) hfront
        exact ⟨htokens, congrArg some (toString_inj hindices)⟩
  -- tokens have one length, so they are the same if what ends in them is
  have htokens :=
    (List.append_inj'
      hparts.1 (by rw [Token.length_ofNat, Token.length_ofNat])).2
  exact hne.elim (fun hne => hne (String.toList_inj.mp htokens))
    fun hne => hne hparts.2

end Named

/-! ## Exports -/

/-- The path is one of a new file that a database is exported to. -/
def Exported (path : String) : Prop :=
  ∃ dir name extension n, extension ∈ ["npz", "json"] ∧
    path = unique dir (name ++ ".dbexport") extension (Token.ofNat n)

theorem Exported.named {path : String} (h : Exported path) :
    ∃ n, ∃ extension ∈ ["npz", "json"], Named n none extension path := by
  obtain ⟨dir, name, extension, n, hextension, rfl⟩ := h
  refine ⟨n, extension, hextension, ?_⟩
  rcases List.mem_pair.mp hextension with rfl | rfl
  · exact named_unique dir _ (by decide) (by decide) n
  · exact named_unique dir _ (by decide) (by decide) n

/-- The token of an export follows the last letter of its kind. -/
theorem Exported.fileName {path : String} (h : Exported path) :
    ∃ start n extension, '.' ∉ extension ∧
    fileName? path = some (String.ofList
      (start ++ ['t'] ++ '.' :: (Token.ofNat n).toList ++ '.' :: extension)) := by
  obtain ⟨dir, name, extension, n, hextension, rfl⟩ := h
  have hkind : '/' ∉ extension.toList ∧ '.' ∉ extension.toList := by
    rcases List.mem_pair.mp hextension with rfl | rfl <;> decide
  have hstem : name ++ ".dbexport" ≠ "" := by
    intro hsame
    have hlength := congrArg (List.length ∘ String.toList) hsame
    simp [String.toList_append] at hlength
  obtain ⟨front, hfront⟩ :=
    toList_unique_of_stem dir hstem extension (Token.ofNat n)
  -- the name of the database may have slashes in it, but what follows the last
  -- letter of the kind has none
  have hpath : (unique dir (name ++ ".dbexport") extension (Token.ofNat n)).toList =
      (front ++ name.toList ++ ".dbexpor".toList) ++
      ('t' :: '.' :: ((Token.ofNat n).toList ++ '.' :: extension.toList)) := by
    rw [hfront]
    simp [String.toList_append]
  have hnone : '/' ∉ 't' :: '.' ::
      ((Token.ofNat n).toList ++ '.' :: extension.toList) := by
    simp only [List.mem_append, List.mem_cons, not_or]
    exact ⟨by decide, by decide, Token.slash_not_mem_ofNat n, by decide, hkind.1⟩
  have hlength : 2 <
      ('t' :: '.' :: ((Token.ofNat n).toList ++ '.' ::
        extension.toList)).length := by
    rw [List.length_cons, List.length_cons, List.length_append, Token.length_ofNat]
    omega
  obtain ⟨start, hname⟩ := fileName?_of_toList hpath hnone hlength
  refine ⟨start, n, extension.toList, hkind.2, ?_⟩
  rw [hname]
  simp

/-- The export of a database is no file that has an index: a token follows
another letter in its name than in theirs. -/
theorem Exported.apart_of_index {p q : String} (h : Exported p) {n index : Nat}
    {extension : String} (h' : Named n (some index) extension q) :
    Apart p q := by
  obtain ⟨start, m, kind, hkind, hname⟩ := h.fileName
  obtain ⟨start', hname'⟩ := h'.fileName
  refine ⟨_, _, hname, hname', fun hsame => ?_⟩
  have hfront := (append_dot_inj hkind h'.undotted (String.ofList_inj.mp hsame)).1
  have hbefore : start ++ ['t'] = start' ++ (Token.ofNat n).toList :=
    (append_dot_inj (Token.dot_not_mem_ofNat m)
      (not_mem_toString (by decide) index) hfront).1
  have hlast := congrArg List.getLast? hbefore
  rw [List.getLast?_concat, List.getLast?_append_of_ne_nil _
    (Token.toList_ofNat_ne_nil n)] at hlast
  exact Token.not_mem_ofNat (fun _ => Nat.digitChar_ne 't' rfl) n
    (List.mem_of_getLast? hlast.symm)

/-- The export of a database has another extension than a script or a sentinel. -/
theorem Exported.apart_of_extension {p q : String} (h : Exported p) {n : Nat}
    {index? : Option Nat} {extension : String} (h' : Named n index? extension q)
    (hextension : extension ∉ ["npz", "json"]) : Apart p q := by
  obtain ⟨m, kind, hkind, hnamed⟩ := h.named
  exact hnamed.apart_of_extension h' fun hsame => hextension (hsame ▸ hkind)

/-- A new path has its extension. -/
theorem extension?_unique (dir stem : String) {extension : String}
    (hslash : '/' ∉ extension.toList)
    (hdot : '.' ∉ extension.toList) (n : Nat) :
    extension? (unique dir stem extension (Token.ofNat n)) = some extension := by
  obtain ⟨start, hname⟩ := fileName?_unique dir stem hslash n
  have hstem : (start ++ (Token.ofNat n).toList).isEmpty = false := by
    rw [List.isEmpty_eq_false_iff]
    exact List.append_ne_nil_of_right_ne_nil _ (Token.toList_ofNat_ne_nil n)
  unfold extension?
  rw [hname]
  dsimp only [bind, Option.bind]
  rw [String.toList_ofList, Text.splitLast_append hdot]
  dsimp only
  rw [hstem, if_neg Bool.false_ne_true, String.ofList_toList]

theorem npz_unique (dir stem : String) (n : Nat) :
    npz (unique dir stem "npz" (Token.ofNat n)) =
    unique dir stem "npz" (Token.ofNat n) := by
  unfold npz
  rw [extension?_unique dir stem (by decide) (by decide)]
  exact if_pos (beq_self_eq_true _)

theorem json_unique (dir stem : String) (n : Nat) :
    json (unique dir stem "json" (Token.ofNat n)) =
    unique dir stem "json" (Token.ofNat n) := by
  unfold json isJson
  rw [extension?_unique dir stem (by decide) (by decide)]
  exact if_pos (by decide)

end Path

/-- A database is exported to a new file. -/
theorem Database.exported_of_exportAs {d : Database} {format path : String}
    {w w' : World} (h : (d.exportAs format).run w = (.ok path, w')) :
    Path.Exported path := by
  unfold exportAs at h
  split at h
  · obtain ⟨token, w₁, htoken, h⟩ := run_bind_ok h
    cases htoken
    rw [Act.run_onDisk] at h
    have hpath := eq_of_exportArchive (run_of_fst_eq (Prod.mk.inj h).1)
    rw [Path.npz_unique] at hpath
    exact ⟨d.exportDir, d.name, "npz", w.tokens, by decide, hpath⟩
  · split at h
    · obtain ⟨target, w₁, htarget, h⟩ := run_bind_ok h
      rw [Act.run_uniquePath] at htarget
      cases htarget
      rw [Act.run_onDisk] at h
      have hpath : path = Path.json
          (Path.unique d.exportDir (d.name ++ ".dbexport") "json"
            (Token.ofNat w.tokens)) :=
        (Document.readText_of_write (run_of_fst_eq (Prod.mk.inj h).1)).1
      rw [Path.json_unique] at hpath
      exact ⟨d.exportDir, d.name, "json", w.tokens, by decide, hpath⟩
    · cases h

end Playbook
