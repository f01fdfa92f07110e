import Playbook.Document
import Playbook.Proofs.Effect

/-!
# Playbook — reading what was written

Writing a file changes one place and makes no directory disappear. So every path
that led somewhere still leads there, and the path that was written to leads to
what was written. Whether the device lets an operation end well or not, what it
changes is at the places that its path names.

Main results:

* `locate_put` — a path keeps its place when a file is put where no directory is.
* `write_cases` — writing changes nothing, breaks off in the middle of
  the file, or is done.
* `gainsDirectories_makeDirectories` — creating directories adds nothing else,
  also where it fails.
* `foldl_removeQuietly_spec` — after files were removed only paths of files that
  the device guards lead to a file.
* `removed_foldl_removeQuietly` — removing files clears their places and no others.
* `stored_write` — writing stores the content at its path, and every
  other place is as it was.
* `read_write`, `readText_write` — what was written reads back.
* `readText_of_write` — so does a document, under the path that writing it gives.
-/

namespace Playbook

/-- Whatever is on the disk, the path does not lead to the place. -/
def Path.Misses (path : String) (place : Place) : Prop :=
  ∀ (d : Disk) (isDir : Bool), d.locate path ≠ .ok (place, isDir)

namespace Disk

/-! ## Places -/

theorem find_filter_ne (entries : List (Place × Entry)) {place other : Place}
    (h : place ≠ other) :
    find (entries.filter (·.1 ≠ place)) other = find entries other := by
  induction entries with
  | nil => rfl
  | cons entry rest ih =>
    obtain ⟨p, e⟩ := entry
    by_cases hp : p = place
    · rw [List.filter_cons_of_neg (by simpa using hp), ih, find, if_neg (hp ▸ h)]
    · rw [List.filter_cons_of_pos (by simpa using hp), find, find, ih]

theorem find_filter_self (entries : List (Place × Entry)) (place : Place) :
    find (entries.filter (·.1 ≠ place)) place = none := by
  induction entries with
  | nil => rfl
  | cons entry rest ih =>
    obtain ⟨p, e⟩ := entry
    by_cases hp : p = place
    · rw [List.filter_cons_of_neg (by simpa using hp), ih]
    · rw [List.filter_cons_of_pos (by simpa using hp), find, if_neg hp, ih]

@[simp] theorem put_cwd (d : Disk) (place : Place) (entry : Entry) :
    (d.put place entry).cwd = d.cwd := rfl

/-- An entry that was put at a place stands there, and all others stand
where they stood. -/
theorem get?_put (d : Disk) (place : Place) (entry : Entry) (other : Place) :
    (d.put place entry).get? other =
      if other <+: d.cwd then some .directory
      else if place = other then some entry else d.get? other := by
  unfold get? put
  split
  · rfl
  · by_cases hp : place = other
    · simp [find, hp]
    · rw [find, if_neg hp, if_neg hp, find_filter_ne _ hp]

/-- The working directory is no file, and neither are the directories above it. -/
theorem not_prefix_of_ne_directory {d : Disk} {place : Place}
    (h : d.get? place ≠ some .directory) :
    ¬ place <+: d.cwd := fun hprefix => h (by unfold get?; rw [if_pos hprefix])

/-- Putting a file where no directory is leaves all directories. -/
theorem directory_put {d : Disk} {place : Place} {entry : Entry}
    (h : d.get? place ≠ some .directory) {other : Place}
    (hd : d.get? other = some .directory) :
    (d.put place entry).get? other = some .directory := by
  rw [get?_put]
  split
  · rfl
  · split
    · next heq => exact absurd (heq ▸ hd) h
    · exact hd

/-! ## Paths -/

section

variable {d e : Disk} (hcwd : e.cwd = d.cwd)
  (hdir : ∀ place, d.get? place = some .directory → e.get? place = some .directory)

include hdir

theorem enter_of_directories {place next : Place} {name : String}
    (h : d.enter place name = .ok next) : e.enter place name = .ok next := by
  unfold enter at h ⊢
  split
  · next hname => rwa [if_pos hname] at h
  · next hname =>
    rw [if_neg hname] at h
    split
    · next hlong => rwa [if_pos hlong] at h
    · next hlong =>
      rw [if_neg hlong] at h
      cases hget : d.get? (place ++ [name]) with
      | none =>
        rw [hget] at h
        cases h
      | some entry =>
        cases entry with
        | file content executable =>
          rw [hget] at h
          cases h
        | directory =>
          rw [hget] at h
          rw [hdir _ hget]
          exact h

/-- Names that lead through directories lead to the same place where these
directories are. -/
theorem follow_of_directories (names : List String) {place last : Place}
    (h : names.foldlM d.enter place = .ok last) :
    names.foldlM e.enter place = .ok last := by
  induction names generalizing place with
  | nil => exact h
  | cons name names ih =>
    rw [List.foldlM_cons] at h ⊢
    cases henter : d.enter place name with
    | error kind =>
      rw [henter] at h
      cases h
    | ok next =>
      rw [henter] at h
      rw [enter_of_directories hdir henter]
      exact ih h

include hcwd

theorem locate_of_directories {path : String} {found : Place × Bool}
    (h : d.locate path = .ok found) : e.locate path = .ok found := by
  have hbase : e.base path = d.base path := by
    unfold base
    rw [hcwd]
  -- only the names before the last are followed; the last need not be there
  unfold locate at h ⊢
  rw [hbase]
  dsimp only at h ⊢
  split
  · next kind hrefuse =>
    rw [hrefuse] at h
    cases h
  · next hrefuse =>
    rw [hrefuse] at h
    dsimp only at h
    split
    · next hlast =>
      rw [hlast] at h
      exact h
    · next last hlast =>
      rw [hlast] at h
      dsimp only at h
      cases hfollow : (splitPath path).1.dropLast.foldlM d.enter (d.base path) with
      | error kind =>
        rw [hfollow] at h
        cases h
      | ok dir =>
        rw [hfollow] at h
        rw [follow_of_directories hdir _ hfollow]
        exact h

end

/-- A path keeps its place when a file is put where no directory is. -/
theorem locate_put {d : Disk} {place : Place} {entry : Entry}
    (h : d.get? place ≠ some .directory) {path : String} {found : Place × Bool}
    (hlocate : d.locate path = .ok found) :
    (d.put place entry).locate path = .ok found :=
  locate_of_directories (put_cwd d place entry) (fun _ => directory_put h) hlocate

/-! ## Files -/

/-- A file is written at the place its path leads to, which is not a directory. -/
theorem target_ok {d : Disk} {path : String} {place : Place} {executable : Bool}
    (h : d.target path = .ok (place, executable)) :
    d.locate path = .ok (place, false) ∧ d.get? place ≠ some .directory := by
  unfold target at h
  cases hlocate : d.locate path with
  | error kind =>
    rw [hlocate] at h
    cases h
  | ok found =>
    obtain ⟨other, isDir⟩ := found
    rw [hlocate] at h
    dsimp only [bind, Except.bind] at h
    -- a new file at a free place, or a file in place of a file
    cases hplace : d.get? other with
    | none =>
      rw [hplace] at h
      dsimp only at h
      by_cases hdot : endsInDot path
      · rw [if_pos hdot] at h
        cases h
      · rw [if_neg hdot] at h
        cases isDir with
        | true => cases h
        | false =>
          cases h
          exact ⟨rfl, by simp [hplace]⟩
    | some entry =>
      rw [hplace] at h
      cases entry with
      | directory => cases h
      | file old executable =>
        cases isDir with
        | true => cases h
        | false =>
          cases h
          exact ⟨rfl, by simp [hplace]⟩

/-- Writing is refused and changes nothing, breaks off in the middle of the
file, or is done. -/
theorem write_cases (d : Disk) (path : String) (content : Content) :
    (∃ kind, d.write path content = (.error kind, d)) ∨
      (∃ place executable kind left, d.target path = .ok (place, executable) ∧
        d.device.write d.entries place content = some (kind, some left) ∧
        d.write path content = (.error kind, d.put place (.file left executable))) ∨
      ∃ place executable, d.target path = .ok (place, executable) ∧
        d.write path content =
        (.ok (), d.put place (.file content executable)) := by
  unfold write
  cases htarget : d.target path with
  | error kind => exact Or.inl ⟨kind, rfl⟩
  | ok found =>
    obtain ⟨place, executable⟩ := found
    dsimp only
    cases hdevice : d.device.write d.entries place content with
    | none => exact Or.inr (Or.inr ⟨place, executable, rfl, rfl⟩)
    | some trouble =>
      obtain ⟨kind, left⟩ := trouble
      cases left with
      | none => exact Or.inl ⟨kind, rfl⟩
      | some left =>
        exact Or.inr (Or.inl ⟨place, executable, kind, left, rfl, hdevice, rfl⟩)

/-- Writing a file puts it at the place its path leads to, which
is not a directory. -/
theorem write_ok {d d' : Disk} {path : String} {content : Content}
    (h : d.write path content = (.ok (), d')) :
    ∃ place executable, d.locate path = .ok (place, false) ∧
      d.get? place ≠ some .directory ∧
      d' = d.put place (.file content executable) := by
  rcases write_cases d path content with
    ⟨kind, hrun⟩ | ⟨_, _, kind, _, -, -, hrun⟩ | ⟨place, executable, htarget, hrun⟩
  · rw [hrun] at h
    cases h
  · rw [hrun] at h
    cases h
  · rw [hrun] at h
    cases h
    obtain ⟨hlocate, hplace⟩ := target_ok htarget
    exact ⟨place, executable, hlocate, hplace, rfl⟩

/-- However it ends, writing leaves the disk alone or puts a file at the place
its path leads to. -/
theorem write_leaves (d : Disk) (path : String) (content : Content) :
    (d.write path content).2 = d ∨
      ∃ place left executable, d.locate path = .ok (place, false) ∧
        d.get? place ≠ some .directory ∧
        (d.write path content).2 = d.put place (.file left executable) := by
  rcases write_cases d path content with
    ⟨kind, hrun⟩ | ⟨place, executable, kind, left, htarget, -, hrun⟩ |
    ⟨place, executable, htarget, hrun⟩
  · exact Or.inl (by rw [hrun])
  · obtain ⟨hlocate, hplace⟩ := target_ok htarget
    exact Or.inr ⟨place, left, executable, hlocate, hplace, by rw [hrun]⟩
  · obtain ⟨hlocate, hplace⟩ := target_ok htarget
    exact Or.inr ⟨place, content, executable, hlocate, hplace, by rw [hrun]⟩

theorem lookup_of_file {d : Disk} {path : String} {place : Place}
    {content : Content} {executable : Bool}
    (hlocate : d.locate path = .ok (place, false))
    (hget : d.get? place = some (.file content executable)) :
    d.lookup path = .ok (place, .file content executable) := by
  unfold lookup
  rw [hlocate]
  dsimp only [bind, Except.bind]
  rw [hget]
  rfl

theorem file_of_lookup {d : Disk} {path : String} {place : Place}
    {content : Content} {executable : Bool}
    (h : d.lookup path = .ok (place, .file content executable)) :
    d.locate path = .ok (place, false) ∧
    d.get? place = some (.file content executable) := by
  unfold lookup at h
  cases hlocate : d.locate path with
  | error kind =>
    rw [hlocate] at h
    cases h
  | ok found =>
    obtain ⟨other, isDir⟩ := found
    rw [hlocate] at h
    dsimp only [bind, Except.bind] at h
    cases hget : d.get? other with
    | none =>
      rw [hget] at h
      cases h
    | some entry =>
      rw [hget] at h
      cases entry with
      | directory => cases h
      | file found e =>
        cases isDir with
        | true => cases h
        | false =>
          cases h
          exact ⟨rfl, hget⟩

/-- What was written reads back. -/
theorem read_write {d d' : Disk} {path : String} {content : Content}
    (h : d.write path content = (.ok (), d')) : d'.read path = .ok content := by
  obtain ⟨place, executable, hlocate, hplace, rfl⟩ := write_ok h
  have hget : (d.put place (.file content executable)).get? place =
      some (.file content executable) := by
    rw [get?_put, if_neg (not_prefix_of_ne_directory hplace), if_pos rfl]
  unfold read
  rw [lookup_of_file (locate_put hplace hlocate) hget]
  rfl

/-- A text that was written reads back. -/
theorem readText_write {d d' : Disk} {path text : String}
    (h : d.write path (.text text) = (.ok (), d')) :
    d'.readText path = .ok text := by
  unfold readText
  rw [read_write h]
  rfl

/-! ## What other places keep -/

theorem get?_put_of_ne {place other : Place} (h : place ≠ other) (d : Disk)
    (entry : Entry) :
    (d.put place entry).get? other = d.get? other := by
  rw [get?_put, if_neg h]
  split
  · next hprefix =>
    unfold get?
    rw [if_pos hprefix]
  · rfl

theorem get?_clear_of_ne {place other : Place} (h : place ≠ other) (d : Disk) :
    (d.clear place).get? other = d.get? other := by
  unfold get? clear
  rw [find_filter_ne _ h]

/-- No file stands at a place that was cleared. -/
theorem get?_clear_ne_file (d : Disk) (place : Place) (content : Content)
    (executable : Bool) :
    (d.clear place).get? place ≠ some (.file content executable) := by
  intro hfile
  unfold get? clear at hfile
  rw [find_filter_self] at hfile
  split at hfile <;> cases hfile

theorem get?_write {place : Place} {path : String}
    (hmiss : Path.Misses path place) (d : Disk) (content : Content) :
    (d.write path content).2.get? place = d.get? place := by
  rcases write_leaves d path content with
    hsame | ⟨found, left, executable, hlocate, -, hput⟩
  · rw [hsame]
  · rw [hput]
    refine get?_put_of_ne ?_ d _
    rintro rfl
    exact hmiss d _ hlocate

/-! ## Directories -/

/-- Only free places have changed, and they are directories now. -/
structure GainsDirectories (d d' : Disk) : Prop where
  places : ∀ place, d'.get? place = d.get? place ∨
    d.get? place = none ∧ d'.get? place = some .directory
  cwd : d'.cwd = d.cwd
  device : d'.device = d.device

namespace GainsDirectories

variable {d d' d'' : Disk}

theorem refl (d : Disk) : GainsDirectories d d := ⟨fun _ => Or.inl rfl, rfl, rfl⟩

theorem trans (h : GainsDirectories d d') (k : GainsDirectories d' d'') :
    GainsDirectories d d'' := by
  refine ⟨fun place => ?_, k.cwd.trans h.cwd, k.device.trans h.device⟩
  rcases h.places place with hsame | ⟨hnone, hdirectory⟩
  · rw [← hsame]
    exact k.places place
  · rcases k.places place with hsame | ⟨hnone', -⟩
    · exact Or.inr ⟨hnone, hsame.trans hdirectory⟩
    · rw [hdirectory] at hnone'
      cases hnone'

/-- What stood somewhere stands there still. -/
theorem get?_of_some (h : GainsDirectories d d') {place : Place} {entry : Entry}
    (hthere : d.get? place = some entry) : d'.get? place = some entry := by
  rcases h.places place with hsame | ⟨hnone, -⟩
  · rw [hsame, hthere]
  · rw [hnone] at hthere
    cases hthere

end GainsDirectories

/-- A directory is only created at a free place, unless the device refuses it. -/
theorem gainsDirectories_create {d : Disk} {place : Place}
    (hfree : d.get? place = none) :
    GainsDirectories d (d.create place).2 := by
  unfold create
  split
  · exact .refl d
  · refine ⟨fun other => ?_, rfl, rfl⟩
    by_cases hother : place = other
    · subst hother
      refine Or.inr ⟨hfree, ?_⟩
      rw [get?_put, if_pos rfl]
      split <;> rfl
    · exact Or.inl (get?_put_of_ne hother d _)

theorem gainsDirectories_ensure (names : List String) (d : Disk) (dir : Place) :
    GainsDirectories d (d.ensure dir names).2 := by
  -- by induction on the names, each of which leads on, is created, or ends this
  induction names generalizing d dir with
  | nil => exact .refl d
  | cons name rest ih =>
    rw [ensure]
    split
    · exact ih d _
    · split
      · exact .refl d
      · dsimp only
        cases hnext : d.get? (dir ++ [name]) with
        | some found =>
          cases found with
          | directory => exact ih d _
          | file content executable => exact .refl d
        | none =>
          have hcreate := gainsDirectories_create hnext
          rcases hrun : d.create (dir ++ [name]) with ⟨kind | _, d₁⟩
          · rw [hrun] at hcreate
            exact hcreate
          · rw [hrun] at hcreate
            exact hcreate.trans (ih d₁ _)

/-- Creating directories creates directories, also where it fails half-way. -/
theorem gainsDirectories_makeDirectories (d : Disk) (path : String) :
    GainsDirectories d (d.makeDirectories path).2 := by
  unfold makeDirectories
  split
  · exact .refl d
  · split
    · exact .refl d
    · dsimp only
      split
      · split
        · exact .refl d
        · have hensure :=
            gainsDirectories_ensure (splitPath path).1.dropLast d (d.base path)
          split <;> next hrun => rwa [hrun] at hensure
        · exact .refl d
      · exact gainsDirectories_ensure _ d _

theorem get?_makeDirectories {place : Place} {entry : Entry} {d : Disk}
    (path : String) (hthere : d.get? place = some entry) :
    (d.makeDirectories path).2.get? place = some entry :=
  (gainsDirectories_makeDirectories d path).get?_of_some hthere

/-! ## Files that appear and disappear -/

/-- Every file of the new disk was there before, or one of the paths leads to it. -/
def Adds (made : List String) (d d' : Disk) : Prop :=
  ∀ place content executable, d'.get? place = some (.file content executable) →
    d.get? place = some (.file content executable) ∨
    ∃ path ∈ made, d'.locate path = .ok (place, false)

theorem Adds.refl (d : Disk) : Adds [] d d := fun _ _ _ h => Or.inl h

/-- What adds no file can come before what adds files. -/
theorem Adds.after {made : List String} {d d' d'' : Disk}
    (h' : Adds made d' d'') (h : Adds [] d d') : Adds made d d'' := by
  intro place content executable hfile
  refine (h' place content executable hfile).imp_left fun hthere => ?_
  exact (h place content executable hthere).resolve_right fun ⟨_, hnil, _⟩ =>
    List.not_mem_nil hnil

theorem GainsDirectories.adds {d d' : Disk} (h : GainsDirectories d d') :
    Adds [] d d' := by
  intro place content executable hfile
  rcases h.places place with hsame | ⟨-, hdirectory⟩
  · exact Or.inl (hsame ▸ hfile)
  · rw [hdirectory] at hfile
    cases hfile

theorem adds_put {d : Disk} {place : Place}
    (hplace : d.get? place ≠ some .directory) {path : String}
    (hlocate : d.locate path = .ok (place, false)) (entry : Entry) :
    Adds [path] d (d.put place entry) := by
  intro other content executable hfile
  by_cases hother : place = other
  · subst hother
    exact Or.inr ⟨path, List.mem_singleton_self path, locate_put hplace hlocate⟩
  · left
    rwa [get?_put_of_ne hother] at hfile

/-- The only file that writing adds is at the path. -/
theorem adds_write {d d' : Disk} {path : String} {content : Content}
    (h : d.write path content = (.ok (), d')) : Adds [path] d d' := by
  obtain ⟨place, executable, hlocate, hplace, rfl⟩ := write_ok h
  exact adds_put hplace hlocate _

/-- The path leads to a file with the content; of all other places only free
ones have changed, to directories. -/
structure Stored (path : String) (content : Content) (d d' : Disk) : Prop where
  read : d'.read path = .ok content
  others : ∃ place, d'.locate path = .ok (place, false) ∧
    ∀ other, place ≠ other → d'.get? other = d.get? other ∨
    d.get? other = none ∧ d'.get? other = some .directory

/-- Where only directories were created before, writing stores the content and
changes nothing else. -/
theorem stored_write {d d₁ d' : Disk} {path : String} {content : Content}
    (hbefore : GainsDirectories d d₁) (h : d₁.write path content = (.ok (), d')) :
    Stored path content d d' := by
  refine ⟨read_write h, ?_⟩
  obtain ⟨place, executable, hlocate, hplace, rfl⟩ := write_ok h
  refine ⟨place, locate_put hplace hlocate, fun other hother => ?_⟩
  rw [get?_put_of_ne hother]
  exact hbefore.places other

theorem Stored.adds {d d' : Disk} {path : String} {content : Content}
    (h : Stored path content d d') :
    Adds [path] d d' := by
  obtain ⟨place, hlocate, hothers⟩ := h.others
  intro other content' executable hfile
  by_cases hother : place = other
  · exact Or.inr ⟨path, List.mem_singleton_self path, hother ▸ hlocate⟩
  · rcases hothers other hother with hsame | ⟨-, hdirectory⟩
    · exact Or.inl (hsame ▸ hfile)
    · rw [hdirectory] at hfile
      cases hfile

/-- Writing to the path has broken off after the file was opened, where only
directories were created before: what the file holds is what the device left. -/
structure BrokenWrite (path : String) (d d' : Disk) : Prop where
  broken : ∃ (d₁ : Disk) (place : Place) (executable : Bool)
    (content left : Content) (kind : IoKind),
    GainsDirectories d d₁ ∧ d₁.target path = .ok (place, executable) ∧
      d₁.device.write d₁.entries place content = some (kind, some left) ∧
      d' = d₁.put place (.file left executable)

theorem BrokenWrite.after {path : String} {d d₁ d' : Disk}
    (h : BrokenWrite path d₁ d') (hbefore : GainsDirectories d d₁) :
    BrokenWrite path d d' := by
  obtain ⟨d₂, place, executable, content, left, kind, hgains, hrest⟩ := h.broken
  exact ⟨d₂, place, executable, content, left, kind, hbefore.trans hgains, hrest⟩

/-- A write that fails has broken off, or it has changed nothing. -/
theorem eq_or_broken_of_write_error {d d' : Disk} {path : String}
    {content : Content} {kind : IoKind}
    (h : d.write path content = (.error kind, d')) :
    d' = d ∨ BrokenWrite path d d' := by
  rcases write_cases d path content with
    ⟨_, hrun⟩ | ⟨place, executable, _, left, htarget, hdevice, hrun⟩ |
    ⟨_, _, -, hrun⟩
  · rw [hrun] at h
    cases h
    exact Or.inl rfl
  · rw [hrun] at h
    cases h
    exact Or.inr ⟨d, place, executable, content, left, _, .refl d,
      htarget, hdevice, rfl⟩
  · rw [hrun] at h
    cases h

/-- What stands on the one disk stands on the other, which is the
same disk otherwise. -/
structure Within (d d' : Disk) : Prop where
  entries : ∀ place entry, d.get? place = some entry → d'.get? place = some entry
  cwd : d'.cwd = d.cwd
  device : d'.device = d.device

theorem Within.refl (d : Disk) : Within d d := ⟨fun _ _ h => h, rfl, rfl⟩

theorem Within.trans {d d' d'' : Disk} (h : Within d d') (k : Within d' d'') :
    Within d d'' :=
  ⟨fun place entry hthere => k.entries place entry (h.entries place entry hthere),
    k.cwd.trans h.cwd, k.device.trans h.device⟩

/-- What stands where less stands is no new file. -/
theorem Within.adds {d d' : Disk} (h : Within d' d) : Adds [] d d' :=
  fun place content executable hfile =>
    Or.inl (h.entries place (.file content executable) hfile)

/-- Where less stands, a path that leads somewhere leads there
on the fuller disk. -/
theorem Within.locate {d d' : Disk} (h : Within d d') {path : String}
    {found : Place × Bool} (hlocate : d.locate path = .ok found) :
    d'.locate path = .ok found :=
  locate_of_directories h.cwd (fun place => h.entries place .directory) hlocate

theorem isFile_iff {d : Disk} {path : String} : d.isFile path = true ↔
    ∃ place content executable, d.locate path = .ok (place, false) ∧
      d.get? place = some (.file content executable) := by
  unfold isFile
  constructor
  · intro h
    split at h
    · next place content executable hlookup =>
      exact ⟨place, content, executable, file_of_lookup hlookup⟩
    · cases h
  · rintro ⟨place, content, executable, hlocate, hget⟩
    rw [lookup_of_file hlocate hget]

/-- Where less stands, no path leads to a file that did not lead to one. -/
theorem Within.isFile {d d' : Disk} (h : Within d d') {path : String}
    (hfile : d.isFile path = true) :
    d'.isFile path = true := by
  obtain ⟨place, content, executable, hlocate, hget⟩ := isFile_iff.mp hfile
  exact isFile_iff.mpr ⟨place, content, executable, h.locate hlocate,
    h.entries _ _ hget⟩

theorem within_clear (d : Disk) {place : Place} {content : Content}
    {executable : Bool}
    (hfile : d.get? place = some (.file content executable)) :
    Within (d.clear place) d := by
  refine ⟨fun other entry hthere => ?_, rfl, rfl⟩
  by_cases hother : place = other
  · subst hother
    -- the place is that of a file, so nothing is left there
    have hplace : ¬ place <+: d.cwd :=
      not_prefix_of_ne_directory (by rw [hfile]; simp)
    unfold get? clear at hthere
    rw [find_filter_self, if_neg hplace] at hthere
    cases hthere
  · rwa [get?_clear_of_ne hother] at hthere

/-! ## Removing files -/

/-- The device does not remove the file at the path. -/
def Guards (d : Disk) (path : String) : Prop :=
  ∃ place, d.locate path = .ok (place, false) ∧ d.device.remove place ≠ none

/-- Removing a file clears its place; where a path leads to no file, or to one
that the device does not remove, nothing happens. -/
theorem removeQuietly_cases (d : Disk) (path : String) :
    d.removeQuietly path = d ∧ (d.isFile path = true → d.Guards path) ∨
      ∃ place content executable, d.locate path = .ok (place, false) ∧
        d.get? place = some (.file content executable) ∧
        d.device.remove place = none ∧
        d.removeQuietly path = d.clear place := by
  unfold removeQuietly remove isFile
  cases hlookup : d.lookup path with
  | error kind => exact Or.inl ⟨rfl, fun h => by cases h⟩
  | ok found =>
    obtain ⟨place, entry⟩ := found
    cases entry with
    | directory => exact Or.inl ⟨rfl, fun h => by cases h⟩
    | file content executable =>
      obtain ⟨hlocate, hget⟩ := file_of_lookup hlookup
      dsimp only
      cases hdevice : d.device.remove place with
      | some kind =>
        exact Or.inl ⟨rfl, fun _ => ⟨place, hlocate, by simp [hdevice]⟩⟩
      | none =>
        exact Or.inr ⟨place, content, executable, hlocate, hget, hdevice, rfl⟩

/-- Removing a file leaves less, and if the path still leads to a file, the
device guards it. -/
theorem removeQuietly_spec (d : Disk) (path : String) :
    Within (d.removeQuietly path) d ∧
      ((d.removeQuietly path).isFile path = true →
        (d.removeQuietly path).Guards path) := by
  rcases removeQuietly_cases d path with
    ⟨hsame, hguards⟩ | ⟨place, content, executable, hlocate, hget, -, hclear⟩
  · rw [hsame]
    exact ⟨.refl d, hguards⟩
  · rw [hclear]
    have hwithin := within_clear d hget
    refine ⟨hwithin, fun hfile => ?_⟩
    obtain ⟨other, content', executable', hlocate', hget'⟩ := isFile_iff.mp hfile
    have hback := hwithin.locate hlocate'
    rw [hlocate] at hback
    cases hback
    exact absurd hget' (get?_clear_ne_file d place content' executable')

/-- A file that is guarded on the fuller disk and still there is guarded
where less stands. -/
theorem Guards.of_within {d d' : Disk} {path : String} (h : d'.Guards path)
    (hless : Within d d') (hfile : d.isFile path = true) : d.Guards path := by
  obtain ⟨place, hlocate, hdevice⟩ := h
  obtain ⟨other, _, _, hother, -⟩ := isFile_iff.mp hfile
  have hback := hless.locate hother
  rw [hlocate] at hback
  cases hback
  exact ⟨place, hother, hless.device ▸ hdevice⟩

/-- Removing files one after the other leaves less, and the paths that still
lead to a file are those of files that the device guards. -/
theorem foldl_removeQuietly_spec (paths : List String) (d : Disk) :
    Within (paths.foldl removeQuietly d) d ∧ ∀ path ∈ paths,
      (paths.foldl removeQuietly d).isFile path = true →
      (paths.foldl removeQuietly d).Guards path := by
  induction paths generalizing d with
  | nil => exact ⟨.refl d, fun _ h => (List.not_mem_nil h).elim⟩
  | cons path rest ih =>
    obtain ⟨hfirst, hguarded⟩ := removeQuietly_spec d path
    obtain ⟨hrest, hothers⟩ := ih (d.removeQuietly path)
    refine ⟨hrest.trans hfirst, fun other hother hfile => ?_⟩
    rcases List.mem_cons.mp hother with rfl | hmem
    · -- what is removed afterwards brings nothing back
      exact (hguarded (hrest.isFile hfile)).of_within hrest hfile
    · exact hothers other hmem hfile

/-- Removing files leaves all directories. -/
theorem directory_foldl_removeQuietly (paths : List String) {d : Disk}
    {place : Place} (h : d.get? place = some .directory) :
    (paths.foldl removeQuietly d).get? place = some .directory := by
  induction paths generalizing d with
  | nil => exact h
  | cons path rest ih =>
    rw [List.foldl_cons]
    refine ih ?_
    rcases removeQuietly_cases d path with
      ⟨hsame, -⟩ | ⟨other, content, executable, -, hfile, -, hclear⟩
    · rw [hsame, h]
    · have hne : other ≠ place := by
        rintro rfl
        rw [h] at hfile
        cases hfile
      rw [hclear, get?_clear_of_ne hne, h]

/-- A file at a place that the device guards is not removed. -/
theorem get?_foldl_removeQuietly_of_guarded (paths : List String) {d : Disk}
    {place : Place} (h : d.device.remove place ≠ none) :
    (paths.foldl removeQuietly d).get? place = d.get? place := by
  induction paths generalizing d with
  | nil => rfl
  | cons path rest ih =>
    have hless := (removeQuietly_spec d path).1
    rw [List.foldl_cons, ih (hless.device ▸ h)]
    rcases removeQuietly_cases d path with
      ⟨hsame, -⟩ | ⟨found, _, _, -, -, hdevice, hclear⟩
    · rw [hsame]
    · have hne : found ≠ place := by
        rintro rfl
        exact h hdevice
      rw [hclear, get?_clear_of_ne hne]

/-- A place to which none of the paths leads keeps what stands there. -/
theorem get?_foldl_removeQuietly_of_others (paths : List String) {d : Disk}
    {place : Place} (h : ∀ path ∈ paths, d.locate path ≠ .ok (place, false)) :
    (paths.foldl removeQuietly d).get? place = d.get? place := by
  induction paths generalizing d with
  | nil => rfl
  | cons path rest ih =>
    obtain ⟨hpath, hrest⟩ := List.forall_mem_cons.mp h
    have hless := (removeQuietly_spec d path).1
    -- with fewer directories no other path leads to the place either
    have hothers : ∀ other ∈ rest, (d.removeQuietly path).locate other ≠
        .ok (place, false) :=
      fun other hother hlocate => hrest other hother (hless.locate hlocate)
    rw [List.foldl_cons, ih hothers]
    rcases removeQuietly_cases d path with
      ⟨hsame, -⟩ | ⟨found, content, executable, hlocate, -, -, hclear⟩
    · rw [hsame]
    · have hne : found ≠ place := by
        rintro rfl
        exact hpath hlocate
      rw [hclear, get?_clear_of_ne hne]

theorem get?_foldl_removeQuietly {place : Place} {paths : List String}
    (hmiss : ∀ path ∈ paths, Path.Misses path place) (d : Disk) :
    (paths.foldl removeQuietly d).get? place = d.get? place :=
  get?_foldl_removeQuietly_of_others paths fun path hpath =>
  hmiss path hpath d false

/-- The files at the paths have been removed, except for those that the device
guards, and nothing else has changed. -/
structure Removed (paths : List String) (d d' : Disk) : Prop where
  gone : ∀ path ∈ paths, d'.isFile path = true → d.Guards path
  cleared : ∀ path ∈ paths, ∀ place, d.locate path = .ok (place, false) →
    d.device.remove place = none → d'.get? place = none
  guarded : ∀ place, d.device.remove place ≠ none → d'.get? place = d.get? place
  others : ∀ place, (∀ path ∈ paths, d.locate path ≠ .ok (place, false)) →
    d'.get? place = d.get? place

/-- Removing files clears their places and no others. -/
theorem removed_foldl_removeQuietly {paths : List String} {d : Disk}
    (hfiles : ∀ path ∈ paths, d.isFile path = true) :
    Removed paths d (paths.foldl removeQuietly d) := by
  obtain ⟨hless, hguards⟩ := foldl_removeQuietly_spec paths d
  have hgone : ∀ path ∈ paths, (paths.foldl removeQuietly d).isFile path =
      true → d.Guards path := by
    intro path hpath hfile
    obtain ⟨place, hlocate, hdevice⟩ := hguards path hpath hfile
    exact ⟨place, hless.locate hlocate, hless.device ▸ hdevice⟩
  refine ⟨hgone, fun path hpath place hlocate hdevice => ?_,
    fun place => get?_foldl_removeQuietly_of_guarded paths,
    fun place => get?_foldl_removeQuietly_of_others paths⟩
  cases hleft : (paths.foldl removeQuietly d).get? place with
  | none => rfl
  | some entry =>
    -- what is left is the file that was there, and the path still leads to it
    obtain ⟨found, content, executable, hfound, hfile⟩ :=
      isFile_iff.mp (hfiles path hpath)
    rw [hlocate] at hfound
    cases hfound
    have hentry := hless.entries place entry hleft
    rw [hfile] at hentry
    cases hentry
    have hlocate' : (paths.foldl removeQuietly d).locate path =
        .ok (place, false) :=
      locate_of_directories hless.cwd.symm (fun _ =>
        directory_foldl_removeQuietly paths) hlocate
    obtain ⟨other, hother, hrefused⟩ :=
      hgone path hpath
        (isFile_iff.mpr ⟨place, content, executable, hlocate', hleft⟩)
    rw [hlocate] at hother
    cases hother
    exact absurd hdevice hrefused

end Disk

namespace Store

/-- A change is made, or it fails and what it did before stays done. -/
theorem run_change (cause : IoKind → Cause) (f : Disk → Disk.Change) (d : Disk) :
    (∃ d', f d = (.ok (), d') ∧ (change cause f).run d = (.ok (), d')) ∨
      ∃ kind d', f d = (.error kind, d') ∧
        (change cause f).run d = (.error (cause kind), d') := by
  unfold change
  dsimp only [ExceptT.run]
  rcases hf : f d with ⟨kind | _, d'⟩
  · exact Or.inr ⟨kind, d', rfl, rfl⟩
  · exact Or.inl ⟨d', rfl, rfl⟩

/-- However it ends, a change leaves what the change of the disk leaves. -/
theorem run_change_snd (cause : IoKind → Cause)
    (f : Disk → Disk.Change) (d : Disk) :
    ((change cause f).run d).2 = (f d).2 := by
  rcases run_change cause f d with ⟨d', hf, hrun⟩ | ⟨kind, d', hf, hrun⟩ <;>
    rw [hf, hrun]

/-- What the change of the disk does not break holds along the change. -/
theorem along_change {R : Disk → Disk → Prop} {cause : IoKind → Cause}
    {f : Disk → Disk.Change} (h : ∀ d, R d (f d).2) :
    Effect.Along R (change cause f) := by
  intro d
  rw [run_change_snd]
  exact h d

/-- A change that did not fail is the change of the disk. -/
theorem run_change_ok {cause : IoKind → Cause} {f : Disk → Disk.Change}
    {disk disk' : Disk} (h : (change cause f).run disk = (.ok (), disk')) :
    f disk = (.ok (), disk') := by
  rcases run_change cause f disk with ⟨changed, hf, hrun⟩ | ⟨kind, changed, -, hrun⟩
  · rw [hrun] at h
    cases h
    exact hf
  · rw [hrun] at h
    cases h

/-- The directory of a file is there or is created, or creating
it fails half-way. -/
theorem run_makeParent (cause : IoKind → Cause) (path : String) (d : Disk) :
    ∃ d', d.GainsDirectories d' ∧ ((makeParent cause path).run d = (.ok (), d') ∨
      ∃ parent kind, Path.parent? path = some parent ∧
        d.makeDirectories parent = (.error kind, d') ∧
        (makeParent cause path).run d = (.error (cause kind), d')) := by
  unfold makeParent
  split
  · exact ⟨d, .refl d, Or.inl rfl⟩
  · exact ⟨d, .refl d, Or.inl rfl⟩
  · next parent _ hparent =>
    have hgains := Disk.gainsDirectories_makeDirectories d parent
    rcases run_change cause (·.makeDirectories parent) d with
      ⟨d', hmake, hrun⟩ | ⟨kind, d', hrefuse, hrun⟩
    · rw [hmake] at hgains
      exact ⟨d', hgains, Or.inl hrun⟩
    · rw [hrefuse] at hgains
      exact ⟨d', hgains, Or.inr ⟨parent, kind, hparent, hrefuse, hrun⟩⟩

theorem gainsDirectories_makeParent (cause : IoKind → Cause) (path : String) :
    Effect.Along Disk.GainsDirectories (makeParent cause path) := by
  intro d
  obtain ⟨d', hgains, hrun | ⟨_, _, -, -, hrun⟩⟩ := run_makeParent cause path d <;>
    rwa [hrun]

theorem gainsDirectories_makeDirectories (path : String) :
    Effect.Along Disk.GainsDirectories (makeDirectories path) :=
  along_change fun d => Disk.gainsDirectories_makeDirectories d path

end Store

/-- A document that was written has been written as the text of its value, once
its directory was there. -/
theorem Document.run_write_ok {path written : String} {value : Json}
    {disk disk' : Disk}
    (h : (Document.write path value).run disk = (.ok written, disk')) :
    written = Path.json path ∧
      ∃ disk₁ : Disk, disk₁.write written (.text value.pretty) =
      (.ok (), disk') := by
  obtain ⟨_, disk₁, -, h⟩ := Effect.run_bind_ok h
  obtain ⟨_, disk₂, hwrite, h⟩ := Effect.run_bind_ok h
  cases h
  exact ⟨rfl, disk₁, Store.run_change_ok hwrite⟩

/-- A document that was written reads back, under the path that writing it gives. -/
theorem Document.readText_of_write {path written : String} {value : Json}
    {disk disk' : Disk}
    (h : (Document.write path value).run disk = (.ok written, disk')) :
    written = Path.json path ∧ disk'.readText written = .ok value.pretty := by
  obtain ⟨hwritten, disk₁, hwrite⟩ := Document.run_write_ok h
  exact ⟨hwritten, Disk.readText_write hwrite⟩

end Playbook
