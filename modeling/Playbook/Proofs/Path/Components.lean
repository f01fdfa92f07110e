import Mathlib.Data.List.Basic
import Playbook.Proofs.Disk
import Playbook.Proofs.Text

/-!
# Playbook — the components of a path

A path is cut at its slashes; the pieces that are neither empty nor a lone dot
are its components. What a path means depends on them only: they are the names
that are followed on the disk, the file name is the last of them, and the
components of a path below a directory come after those of the directory.

Main results:

* `Path.fileName?_eq` — the file name is the last component, unless that leads back.
* `Path.components_join` — the components of a path below a directory.
* `Path.extension?_of_toList` — the extension of a path that was extended, which
  it has unless the path ended in a slash.
* `Disk.locate_ok` — where a path leads is a matter of its text,
  if it leads anywhere.
* `Path.place_join` — the place of a relative path that leads nowhere back is
  below the place of its directory.
* `Path.Below.place_json_join` — so is the place of its document.
* `Path.components_withFileName` — another file name is another last component.
-/

namespace Playbook

namespace Path

/-- The piece names something: it is neither empty nor a lone dot. -/
def isComponent (piece : List Char) : Bool := piece ≠ [] ∧ piece ≠ ['.']

/-- The pieces between the slashes of a path that name something. -/
def components (path : String) : List (List Char) :=
  (Text.pieces '/' path.toList).filter isComponent

/-- The names that are followed on the disk are the components. -/
theorem splitPath_fst (path : String) :
    (Disk.splitPath path).1 = (components path).map String.ofList := by
  have hkept : ∀ piece : List Char,
      decide (String.ofList piece ≠ "" ∧ String.ofList piece ≠ ".") =
          isComponent piece := by
    intro piece
    have hofList : ∀ s : String, String.ofList piece = s ↔
        piece = s.toList := fun s =>
      ⟨fun h => by rw [← h, String.toList_ofList],
        fun h => by rw [h, String.ofList_toList]⟩
    unfold isComponent
    simp only [ne_eq, hofList]
    rfl
  unfold Disk.splitPath components
  dsimp only
  rw [List.filter_map]
  congr 2
  funext piece
  exact hkept piece

theorem isComponent_of_ne {piece : List Char} (hnil : piece ≠ [])
    (hdot : piece ≠ ['.']) : isComponent piece = true :=
  decide_eq_true ⟨hnil, hdot⟩

theorem isComponent_append (start : List Char) {tail : List Char}
    (h : 1 < tail.length) : isComponent (start ++ tail) = true := by
  have hlong : 1 < (start ++ tail).length := by
    rw [List.length_append]
    exact Nat.lt_of_lt_of_le h (Nat.le_add_left _ _)
  refine isComponent_of_ne ?_ ?_ <;> intro hsame <;> rw [hsame] at hlong <;>
    exact absurd hlong (by decide)

/-! ## The last component -/

/-- A text of more than one character without slashes is the end of the last
component of what it ends. -/
theorem getLast?_components {path : String} {front tail : List Char}
    (hpath : path.toList = front ++ tail) (hslash : '/' ∉ tail)
    (hlength : 1 < tail.length) :
    ∃ start, (Text.pieces '/' front).getLast? = some start ∧
    (components path).getLast? = some (start ++ tail) := by
  obtain ⟨before, start, hfront, hpieces⟩ := Text.exists_last_piece '/' front
  refine ⟨start, by rw [hfront, List.getLast?_concat], ?_⟩
  unfold components
  rw [hpath, hpieces tail hslash, List.filter_append,
    List.filter_cons_of_pos (isComponent_append start hlength),
    List.filter_nil, List.getLast?_concat]

/-- What is stripped from the end of a text that is given
backwards is no component. -/
theorem filter_pieces_stripBack (back : List Char) :
    (Text.pieces '/' (stripBack back).reverse).filter isComponent =
    (Text.pieces '/' back.reverse).filter isComponent := by
  induction back using stripBack.induct with
  | case1 rest ih =>
    rw [stripBack, ih, List.reverse_cons, Text.pieces_append_cons,
      List.filter_append]
    exact (List.append_nil _).symm
  | case2 rest ih =>
    have hback : ('.' :: '/' :: rest).reverse =
        rest.reverse ++ '/' :: ['.'] := by simp
    rw [stripBack, ih, hback, Text.pieces_append_cons, List.filter_append]
    exact (List.append_nil _).symm
  | case3 back hslash hdot => rw [stripBack.eq_3 _ hslash hdot]

/-- What was stripped ends neither in a slash nor in a lone dot behind a slash. -/
theorem stripBack_ne (back : List Char) :
    (∀ rest, stripBack back ≠ '/' :: rest) ∧
    ∀ rest, stripBack back ≠ '.' :: '/' :: rest := by
  induction back using stripBack.induct with
  | case1 rest ih => rwa [stripBack]
  | case2 rest ih => rwa [stripBack]
  | case3 back hslash hdot =>
    rw [stripBack.eq_3 _ hslash hdot]
    exact ⟨hslash, hdot⟩

theorem stripBack_suffix (back : List Char) : stripBack back <:+ back := by
  induction back using stripBack.induct with
  | case1 rest ih =>
    rw [stripBack]
    exact ih.trans (List.suffix_cons _ _)
  | case2 rest ih =>
    rw [stripBack]
    exact ih.trans ((List.suffix_cons _ _).trans (List.suffix_cons _ _))
  | case3 back hslash hdot => rw [stripBack.eq_3 _ hslash hdot]

theorem eq_slash_of_dropWhile {back before : List Char} {c : Char}
    (h : back.dropWhile (· != '/') = c :: before) : c = '/' := by
  have hhead := List.head_dropWhile_not (· != '/') (l := back)
      (by rw [h]; exact List.cons_ne_nil _ _)
  simpa [h] using hhead

/-- The components of a text that is given backwards are those before its last
slash, and what follows that slash. -/
theorem filter_pieces_dropWhile (back : List Char) :
    (Text.pieces '/' back.reverse).filter isComponent =
      (Text.pieces '/' (back.dropWhile (· != '/')).reverse).filter isComponent ++
        [(back.takeWhile (· != '/')).reverse].filter isComponent := by
  generalize hname : back.takeWhile (· != '/') = name
  have hfree : '/' ∉ name.reverse := by
    rw [List.mem_reverse, ← hname]
    intro hmem
    exact absurd (List.mem_takeWhile_imp hmem) (by decide)
  have hsplit : name ++ back.dropWhile (· != '/') = back :=
    hname ▸ List.takeWhile_append_dropWhile
  cases hbefore : back.dropWhile (· != '/') with
  | nil =>
    rw [hbefore, List.append_nil] at hsplit
    rw [← hsplit, Text.pieces_of_not_mem hfree]
    rfl
  | cons c before =>
    obtain rfl := eq_slash_of_dropWhile hbefore
    rw [hbefore] at hsplit
    rw [← hsplit, List.reverse_append, List.reverse_cons, List.append_assoc,
      List.singleton_append,
      Text.pieces_append_cons, Text.pieces_append_cons,
      Text.pieces_of_not_mem hfree, List.filter_append, List.filter_append]
    exact congrArg (· ++ _) (List.append_nil _).symm

/-- The last component of a text that is given backwards. -/
theorem getLast?_filter_pieces (back : List Char) :
    ((Text.pieces '/' back.reverse).filter isComponent).getLast? =
      (some ((stripBack back).takeWhile (· != '/')).reverse).filter
      isComponent := by
  obtain ⟨hslash, hdot⟩ := stripBack_ne back
  rw [← filter_pieces_stripBack, filter_pieces_dropWhile]
  generalize stripBack back = cs at hslash hdot
  cases hkept : isComponent (cs.takeWhile (· != '/')).reverse with
  | true =>
    rw [List.filter_cons_of_pos hkept, List.filter_nil, List.getLast?_concat,
      Option.filter_some, if_pos hkept]
  | false =>
    -- nothing stands before a last piece that names nothing
    have hname : cs.takeWhile (· != '/') = [] ∨
        cs.takeWhile (· != '/') = ['.'] := by
      by_contra hnot
      obtain ⟨hnil, hlone⟩ := not_or.mp hnot
      rw [isComponent_of_ne (mt List.reverse_eq_nil_iff.mp hnil)
        (mt List.reverse_eq_iff.mp hlone)] at hkept
      cases hkept
    have hbefore : cs.dropWhile (· != '/') = [] := by
      have hsplit : cs.takeWhile (· != '/') ++ cs.dropWhile (· != '/') = cs :=
        List.takeWhile_append_dropWhile
      cases hdrop : cs.dropWhile (· != '/') with
      | nil => rfl
      | cons c before =>
        obtain rfl := eq_slash_of_dropWhile hdrop
        rcases hname with hnil | hlone
        · rw [hnil, hdrop] at hsplit
          exact absurd hsplit.symm (hslash before)
        · rw [hlone, hdrop] at hsplit
          exact absurd hsplit.symm (hdot before)
    rw [hbefore, List.filter_cons_of_neg (Bool.eq_false_iff.mp hkept),
      Option.filter_some, if_neg (Bool.eq_false_iff.mp hkept)]
    rfl

/-- The file name is the last component, unless that leads back. -/
theorem fileName?_eq (path : String) :
    fileName? path = (((components path).getLast?).filter (· ≠ ['.', '.'])).map
      String.ofList := by
  have hlast := getLast?_filter_pieces path.toList.reverse
  rw [List.reverse_reverse] at hlast
  unfold components
  rw [hlast]
  unfold fileName? splitBack
  dsimp only
  generalize ((stripBack path.toList.reverse).takeWhile (· != '/')).reverse = name
  split
  · next h => rcases h with rfl | rfl | rfl <;> rfl
  · next h =>
    obtain ⟨hnil, hdot, hback⟩ := not_or.mp h |>.imp_right not_or.mp
    rw [Option.filter_some, if_pos (isComponent_of_ne hnil hdot),
      Option.filter_some, if_pos (decide_eq_true hback)]
    rfl

/-! ## Paths below a directory -/

/-- A relative path is put after the slash of a directory, which is added if it
is not there. -/
theorem toList_join_of_relative {dir path : String}
    (h : isAbsolute path = false) (hdir : dir ≠ "") :
    ∃ front, (join dir path).toList = front ++ '/' :: path.toList ∧
    (dir.toList = front ++ ['/'] ∨ dir.toList = front) := by
  unfold join
  rw [h, String.isEmpty_eq_false_iff.mpr hdir, Bool.or_false,
    if_neg Bool.false_ne_true]
  split
  · next hslash =>
    obtain ⟨front, hfront⟩ := Text.endsWith_eq_true.mp hslash
    refine ⟨front, ?_, Or.inl hfront⟩
    rw [String.toList_append, hfront, List.append_assoc]
    rfl
  · refine ⟨dir.toList, ?_, Or.inr rfl⟩
    rw [String.toList_append, String.toList_append, List.append_assoc]
    rfl

theorem join_empty (path : String) : join "" path = path := by
  unfold join
  exact if_pos (Bool.or_true _)

/-- A relative path starts where its directory does. -/
theorem isAbsolute_join {path : String} (h : isAbsolute path = false)
    (dir : String) :
    isAbsolute (join dir path) = isAbsolute dir := by
  by_cases hdir : dir = ""
  · rw [hdir, join_empty, h]
    rfl
  · obtain ⟨front, hjoin, hfront | rfl⟩ := toList_join_of_relative h hdir
    · cases front <;> simp [isAbsolute, hjoin, hfront]
    · cases hlist : dir.toList with
      | nil => exact absurd (String.toList_eq_nil_iff.mp hlist) hdir
      | cons c rest => simp [isAbsolute, hjoin, hlist]

/-- The components of a relative path come after those of its directory. -/
theorem components_join {path : String} (h : isAbsolute path = false)
    (dir : String) :
    components (join dir path) = components dir ++ components path := by
  by_cases hdir : dir = ""
  · rw [hdir, join_empty]
    rfl
  · obtain ⟨front, hjoin, hfront⟩ := toList_join_of_relative h hdir
    have hcomponents : components dir = (Text.pieces '/' front).filter
        isComponent := by
      rcases hfront with hslash | rfl
      · unfold components
        rw [hslash, Text.pieces_append_cons, List.filter_append]
        exact List.append_nil _
      · rfl
    rw [hcomponents]
    unfold components
    rw [hjoin, Text.pieces_append_cons, List.filter_append]

/-- A relative path with components has the same file name below a directory. -/
theorem fileName?_join {path : String} (h : isAbsolute path = false)
    (hne : components path ≠ []) (dir : String) :
    fileName? (join dir path) = fileName? path := by
  rw [fileName?_eq, fileName?_eq, components_join h,
    List.getLast?_append_of_ne_nil _ hne]

theorem isAbsolute_append {path : String} (hne : path ≠ "") (ending : String) :
    isAbsolute (path ++ ending) = isAbsolute path := by
  unfold isAbsolute
  rw [String.toList_append,
    List.head?_append_of_ne_nil _ (mt String.toList_eq_nil_iff.mp hne)]

theorem isAbsolute_json {path : String} (hne : path ≠ "") :
    isAbsolute (json path) = isAbsolute path := by
  unfold json
  split
  · rfl
  · exact isAbsolute_append hne ".json"

/-- A relative path can be extended before or after it is put below a directory. -/
theorem join_append {path : String} (h : isAbsolute path = false)
    (hne : path ≠ "") (dir ending : String) :
    join dir path ++ ending = join dir (path ++ ending) := by
  unfold join
  rw [isAbsolute_append hne, h]
  split
  · rfl
  · split
    · exact String.append_assoc
    · rw [String.append_assoc, String.append_assoc]

/-- The document of a relative path with components is below the same directory. -/
theorem json_join {path : String} (h : isAbsolute path = false)
    (hne : components path ≠ []) (dir : String) :
    json (join dir path) = join dir (json path) := by
  have hjson : isJson (join dir path) = isJson path := by
    unfold isJson extension?
    rw [fileName?_join h hne]
  have hpath : path ≠ "" := by
    rintro rfl
    exact hne rfl
  unfold json
  rw [hjson]
  split
  · rfl
  · exact join_append h hpath dir ".json"

/-! ## Extensions -/

/-- Nothing follows the last slash of the path. -/
def Unnamed (path : String) : Prop :=
  (Text.pieces '/' path.toList).getLast? = some []

instance (path : String) : Decidable (Unnamed path) :=
  inferInstanceAs (Decidable (_ = _))

/-- A path that was extended has the extension, unless nothing but the extension
follows the last slash. -/
theorem extension?_of_toList {path extended : String} {ending : List Char}
    (h : extended.toList = path.toList ++ '.' :: ending) (hne : ending ≠ [])
    (hslash : '/' ∉ ending) (hdot : '.' ∉ ending) :
    extension? extended = if Unnamed path then none
    else some (String.ofList ending) := by
  have hends : '/' ∉ '.' :: ending :=
    List.not_mem_cons_of_ne_of_not_mem (by decide) hslash
  have hlength : 1 < ('.' :: ending).length :=
    Nat.succ_lt_succ (List.length_pos_iff.mpr hne)
  obtain ⟨start, hstart, hlast⟩ := getLast?_components h hends hlength
  have hunnamed : Unnamed path ↔ start = [] := by
    unfold Unnamed
    rw [hstart, Option.some_inj]
  -- a name with more behind its last dot does not lead back
  have hback : start ++ '.' :: ending ≠ ['.', '.'] := by
    intro hsame
    have hdots : ∀ c ∈ start ++ '.' :: ending, c = '.' := by
      simp [hsame]
    obtain ⟨c, hc⟩ := List.exists_mem_of_ne_nil ending hne
    exact hdot (hdots c (List.mem_append_right _ (List.mem_cons_of_mem _ hc)) ▸ hc)
  have hname : fileName? extended =
      some (String.ofList (start ++ '.' :: ending)) := by
    rw [fileName?_eq, hlast, Option.filter_some, if_pos (decide_eq_true hback)]
    rfl
  unfold extension?
  rw [hname]
  dsimp only [bind, Option.bind]
  rw [String.toList_ofList, Text.splitLast_append hdot]
  simp only [hunnamed, List.isEmpty_iff]

end Path

namespace Disk

/-! ## Places -/

/-- The place after one more name, if that can be followed. -/
def step (place : Place) (name : String) : Place :=
  if name = ".." then place.dropLast else place ++ [name]

/-- The place that a path leads to if it leads anywhere. -/
def place (d : Disk) (path : String) : Place :=
  (splitPath path).1.foldl step (d.base path)

/-- Where a path leads to depends on the working directory only. -/
theorem place_of_cwd {d e : Disk} (h : e.cwd = d.cwd) (path : String) :
    e.place path = d.place path := by
  unfold place base
  rw [h]

theorem enter_ok {d : Disk} {place next : Place} {name : String}
    (h : d.enter place name = .ok next) : next = step place name := by
  unfold enter at h
  unfold step
  split at h
  · next hback =>
    cases h
    rw [if_pos hback]
  · next hback =>
    rw [if_neg hback]
    split at h
    · cases h
    · split at h <;> cases h
      rfl

/-- Names that can be followed lead to the place that they say. -/
theorem follow_ok {d : Disk} (names : List String) {place last : Place}
    (h : names.foldlM d.enter place = .ok last) :
    last = names.foldl step place := by
  induction names generalizing place with
  | nil =>
    cases h
    rfl
  | cons name names ih =>
    rw [List.foldlM_cons] at h
    rw [List.foldl_cons]
    cases henter : d.enter place name with
    | error kind =>
      rw [henter] at h
      cases h
    | ok next =>
      rw [henter] at h
      rw [ih h, enter_ok henter]

/-- Names that do not lead back are appended to the place. -/
theorem foldl_step {names : List (List Char)} (h : ['.', '.'] ∉ names)
    (place : Place) :
    (names.map String.ofList).foldl step place =
    place ++ names.map String.ofList := by
  induction names generalizing place with
  | nil => exact (List.append_nil _).symm
  | cons name names ih =>
    obtain ⟨hback, hnames⟩ := not_or.mp (mt List.mem_cons.mpr h)
    have hstep : step place (String.ofList name) =
        place ++ [String.ofList name] := by
      unfold step
      rw [if_neg]
      intro hsame
      exact hback (by rw [← String.toList_ofList (l := name), hsame]; rfl)
    rw [List.map_cons, List.foldl_cons, hstep, ih hnames, List.append_assoc]
    rfl

/-- A path that may lead to a file leads to its place, and neither a slash nor a
lone dot is at its end. -/
theorem locate_ok {d : Disk} {path : String} {place : Place}
    (h : d.locate path = .ok (place, false)) :
    place = d.place path ∧ (splitPath path).2 = false := by
  unfold locate at h
  dsimp only at h
  split at h
  · cases h
  · split at h
    · cases h
    · next last hlast =>
      obtain ⟨front, hnames⟩ := List.getLast?_eq_some_iff.mp hlast
      rw [hnames, List.dropLast_concat] at h
      cases hfollow : front.foldlM d.enter (d.base path) with
      | error kind =>
        rw [hfollow] at h
        cases h
      | ok dir =>
        rw [hfollow] at h
        dsimp only [bind, Except.bind] at h
        split at h
        · cases h
        · next hback =>
          split at h
          · cases h
          · obtain ⟨hplace, hdot⟩ := Prod.mk.inj (Except.ok.inj h)
            refine ⟨?_, hdot⟩
            rw [← hplace, Disk.place, hnames,
              List.foldl_concat, ← follow_ok front hfollow, step,
              if_neg hback]

/-- A path that may lead to a file names it. -/
theorem named_of_locate {d : Disk} {path : String} {place : Place}
    (h : d.locate path = .ok (place, false)) :
    ∃ last, (Text.pieces '/' path.toList).getLast? = some last ∧
    Path.isComponent last = true := by
  have hend := (locate_ok h).2
  obtain ⟨before, last, hself, -⟩ := Text.exists_last_piece '/' path.toList
  refine ⟨last, by rw [hself, List.getLast?_concat], ?_⟩
  unfold splitPath at hend
  dsimp only at hend
  rw [hself, List.map_append, List.map_singleton, List.getLast?_concat,
    Bool.or_eq_false_iff] at hend
  refine Path.isComponent_of_ne ?_ ?_ <;> rintro rfl
  · exact absurd hend.1 (by decide)
  · exact absurd hend.2 (by decide)

/-- A file is read at the place that its path says. -/
theorem read_eq_ok {d : Disk} {path : String} {content : Content} :
    d.read path = .ok content ↔ d.locate path = .ok (d.place path, false) ∧
      ∃ executable, d.get? (d.place path) = some (.file content executable) := by
  unfold read
  constructor
  · intro h
    cases hlookup : d.lookup path with
    | error kind =>
      rw [hlookup] at h
      cases h
    | ok found =>
      obtain ⟨place, entry⟩ := found
      rw [hlookup] at h
      cases entry with
      | directory => cases h
      | file held executable =>
        cases h
        obtain ⟨hlocate, hget⟩ := file_of_lookup hlookup
        obtain rfl := (locate_ok hlocate).1
        exact ⟨hlocate, executable, hget⟩
  · rintro ⟨hlocate, executable, hget⟩
    rw [lookup_of_file hlocate hget]
    rfl

end Disk

namespace Path

/-- A relative path that leads nowhere back leads to the place of its directory
and its components more. -/
theorem place_join {path : String} (h : isAbsolute path = false)
    (hback : ['.', '.'] ∉ components path) (d : Disk) (dir : String) :
    d.place (join dir path) = d.place dir ++ (components path).map
      String.ofList := by
  unfold Disk.place Disk.base
  rw [splitPath_fst, isAbsolute_join h, components_join h,
    List.map_append, ← splitPath_fst dir,
    List.foldl_append, Disk.foldl_step hback]

/-- The path has components, and its document is below the directory that the
path is put in. -/
structure Below (path : String) : Prop where
  relative : isAbsolute path = false
  named : components path ≠ []
  forward : ['.', '.'] ∉ components (json path)

/-- The document of a path below a directory leads to the place of the directory
and the components of its own more. -/
theorem Below.place_json_join {path : String} (h : Below path) (d : Disk)
    (dir : String) :
    d.place (json (join dir path)) = d.place dir ++ (components (json path)).map
      String.ofList := by
  have hpath : path ≠ "" := by
    rintro rfl
    exact h.named rfl
  rw [json_join h.relative h.named,
    place_join ((isAbsolute_json hpath).trans h.relative) h.forward]

/-! ## Names -/

/-- The text is a single component. -/
def IsName (name : String) : Prop := '/' ∉ name.toList ∧
    isComponent name.toList = true

namespace IsName

variable {name : String} (h : IsName name)

include h

theorem pieces_eq : Text.pieces '/' name.toList = [name.toList] :=
  Text.pieces_of_not_mem h.1

theorem components_eq : components name = [name.toList] := by
  unfold components
  rw [h.pieces_eq, List.filter_cons_of_pos h.2, List.filter_nil]

theorem isAbsolute_eq : isAbsolute name = false := by
  unfold isAbsolute
  rw [beq_eq_false_iff_ne]
  exact fun hhead => h.1 (List.mem_of_mem_head? hhead)

theorem not_unnamed : ¬ Unnamed name := by
  unfold Unnamed
  rw [h.pieces_eq, List.getLast?_singleton, Option.some_inj]
  exact (of_decide_eq_true h.2).1

/-- The document of a name is a name, and does not lead back. -/
theorem json_name : IsName (json name) ∧ (json name).toList ≠ ['.', '.'] := by
  unfold json
  split
  · next hjson =>
    refine ⟨h, fun hback => ?_⟩
    obtain rfl : name = ".." := String.toList_inj.mp hback
    exact absurd hjson (by decide)
  · have hlength : 5 ≤ (name ++ ".json").toList.length := by
      rw [String.toList_append, List.length_append]
      exact Nat.le_add_left 5 _
    refine ⟨⟨?_, isComponent_of_ne ?_ ?_⟩, ?_⟩
    · rw [String.toList_append, List.mem_append, not_or]
      exact ⟨h.1, by decide⟩
    all_goals
      intro hsame
      rw [hsame] at hlength
      exact absurd hlength (by decide)

theorem below : Below name where
  relative := h.isAbsolute_eq
  named := by
    rw [h.components_eq]
    exact List.cons_ne_nil _ _
  forward := by
    obtain ⟨hname, hback⟩ := h.json_name
    rw [hname.components_eq, List.mem_singleton]
    exact Ne.symm hback

end IsName

/-! ## Other file names -/

/-- A path with a file name has a parent, which starts where the path does and
has the components before the name. -/
theorem parent?_of_fileName? {path name : String} (h : fileName? path = some name) :
    ∃ parent, parent? path = some parent ∧ isAbsolute parent = isAbsolute path ∧
      components path = components parent ++ [name.toList] := by
  let last := (splitBack path).1
  let before := (splitBack path).2
  have hname : isComponent last.reverse = true ∧ name.toList = last.reverse := by
    unfold fileName? at h
    dsimp only at h
    split at h
    · cases h
    · next hnot =>
      obtain ⟨hnil, hdot, -⟩ := not_or.mp hnot |>.imp_right not_or.mp
      cases h
      exact ⟨isComponent_of_ne hnil hdot, String.toList_ofList⟩
  have hcomponents : components path =
      (Text.pieces '/' (stripBack before).reverse).filter
      isComponent ++ [name.toList] := by
    have hsplit := filter_pieces_dropWhile (stripBack path.toList.reverse)
    rw [filter_pieces_stripBack, List.reverse_reverse] at hsplit
    have hlast : [last.reverse].filter isComponent = [last.reverse] :=
      List.filter_cons_of_pos hname.1
    rw [filter_pieces_stripBack, hname.2, ← hlast]
    exact hsplit
  have hne : ¬ (splitBack path).1.isEmpty = true := by
    intro hempty
    have hnil : last = [] := List.isEmpty_iff.mp hempty
    rw [hnil] at hname
    cases hname.1
  rw [hcomponents]
  cases hback : stripBack before with
  | nil =>
    have hparent : parent? path = some (if isAbsolute path then "/" else "") := by
      unfold parent?
      dsimp only
      rw [if_neg hne, hback]
    refine ⟨_, hparent, ?_, ?_⟩
    · cases isAbsolute path <;> rfl
    · cases isAbsolute path <;> rfl
  | cons c rest =>
    have hparent : parent? path = some (String.ofList (c :: rest).reverse) := by
      unfold parent?
      dsimp only
      rw [if_neg hne, hback]
    -- the parent is the beginning of the path
    obtain ⟨front, hfront⟩ : c :: rest <:+ path.toList.reverse := by
      rw [← hback]
      exact (stripBack_suffix before).trans
        ((List.dropWhile_suffix _).trans (stripBack_suffix _))
    have hpath : path.toList = (c :: rest).reverse ++ front.reverse := by
      rw [← List.reverse_append, hfront, List.reverse_reverse]
    refine ⟨_, hparent, ?_, ?_⟩
    · unfold isAbsolute
      rw [hpath, String.toList_ofList, List.head?_append_of_ne_nil]
      exact mt List.reverse_eq_nil_iff.mp (List.cons_ne_nil c rest)
    · unfold components
      rw [String.toList_ofList]

/-- A path with another file name starts where it did, and only its last
component is another one. -/
theorem components_withFileName {path name other : String}
    (h : fileName? path = some name) (hother : IsName other) :
    isAbsolute (withFileName path other) = isAbsolute path ∧
      ∃ front, components path = front ++ [name.toList] ∧
      components (withFileName path other) = front ++ [other.toList] := by
  obtain ⟨parent, hparent, hroot, hcomponents⟩ := parent?_of_fileName? h
  have hjoin : withFileName path other = join parent other := by
    unfold withFileName
    rw [h, hparent]
    rfl
  rw [hjoin, isAbsolute_join hother.isAbsolute_eq,
    components_join hother.isAbsolute_eq, hother.components_eq]
  exact ⟨hroot, components parent, hcomponents, rfl⟩

end Path

end Playbook
