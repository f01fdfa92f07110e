import Playbook.Proofs.Archive
import Playbook.Proofs.Script.Sparing

/-!
# Playbook — what a call leaves behind

The files that a call makes are its scripts and the exports of the items among
its arguments. Each of them is marked when it has been written, and what is
marked is removed when the call has ended, however it ended. So every file that
is made has to be accounted for: it was marked, or it is one that a call never
learns of. There are two such files. The archive of an exporter that names a
column twice is begun, and given up before its path is returned. And where the
device breaks off a write, the file is there while the write has failed.

What a call does is a course of its own steps, of the programs that it starts,
and of what happens while it waits. Its own steps add files under the paths that
they make up and nowhere else.

Main results:

* `Document.writes_write`, `Archive.writes_write` — what writing adds, whether
  it fails or not.
* `Item.writes_exportAs` — an export adds the file whose path it returns, gives
  up an archive, or breaks off.
* `World.leaves_exportItem`, `World.leaves_scripting` — every file that a part
  of a call adds is accounted for.
* `files_removed` — however a call ends, no file that it made is left that
  can be removed, except for an archive that was given up and the file of a
  write that broke off.
-/

namespace Playbook

open Effect

/-! ## Operations that write a file -/

namespace Disk

/-- Every file that was added is at a path that is accounted for, unless a write
has broken off. -/
def Written (accounted : String → Prop) (d d' : Disk) : Prop :=
  (∃ made, Adds made d d' ∧ ∀ path ∈ made, accounted path) ∨
  ∃ path, BrokenWrite path d d'

namespace Written

variable {accounted : String → Prop} {d d' d'' : Disk}

/-- Where no file was added, there is nothing to account for. -/
theorem of_adds (h : Adds [] d d') : Written accounted d d' :=
  Or.inl ⟨[], h, fun _ hpath => (List.not_mem_nil hpath).elim⟩

theorem singleton {path : String} (h : Adds [path] d d') (hpath : accounted path) :
    Written accounted d d' :=
  Or.inl ⟨[path], h, fun _ hother => List.mem_singleton.mp hother ▸ hpath⟩

theorem imp {accounted' : String → Prop} (h : Written accounted d d')
    (haccounted : ∀ path, accounted path → accounted' path) :
    Written accounted' d d' := by
  rcases h with ⟨made, hadds, hmade⟩ | hbroken
  · exact Or.inl ⟨made, hadds, fun path hpath => haccounted path (hmade path hpath)⟩
  · exact Or.inr hbroken

/-- Directories can be created before. -/
theorem after (h : Written accounted d' d'') (hbefore : GainsDirectories d d') :
    Written accounted d d'' := by
  rcases h with ⟨made, hadds, hmade⟩ | ⟨path, hbroken⟩
  · exact Or.inl ⟨made, hadds.after hbefore.adds, hmade⟩
  · exact Or.inr ⟨path, hbroken.after hbefore⟩

theorem of_write_error {path : String} {content : Content} {kind : IoKind}
    (h : d.write path content = (.error kind, d')) : Written accounted d d' := by
  rcases eq_or_broken_of_write_error h with rfl | hbroken
  · exact .of_adds (.refl d')
  · exact Or.inr ⟨path, hbroken⟩

end Written

end Disk

namespace Store

theorem chains_gainsDirectories : Chains Disk.GainsDirectories :=
  ⟨Disk.GainsDirectories.refl, fun h k => h.trans k⟩

/-- However the operation ends, the files that it has added are at the path that
it returns or at one that is given up, unless a write has broken off. -/
def Writes (body : Store String) (givenUp : String → Prop) : Prop :=
  ∀ d : Disk, d.Written (fun path => (body.run d).1 = .ok path ∨ givenUp path)
    (body.run d).2

namespace Writes

variable {givenUp : String → Prop} {α : Type}

/-- What only creates directories can come before an operation. -/
theorem after {x : Store α} {f : α → Store String}
    (hx : Along Disk.GainsDirectories x)
    (hf : ∀ a, Gives x a → Writes (f a) givenUp) :
    Writes (x >>= f) givenUp := by
  intro d
  have hbefore := hx d
  rw [run_bind]
  rcases hrun : x.run d with ⟨failure | a, d₁⟩
  · rw [hrun] at hbefore
    exact .of_adds hbefore.adds
  · rw [hrun] at hbefore
    exact (hf a ⟨d, d₁, hrun⟩ d₁).after hbefore

theorem within (frame : Frame) {body : Store String} (h : Writes body givenUp) :
    Writes (Store.within frame body) givenUp := by
  intro d
  refine (h d).imp fun path => Or.imp_left fun hok => ?_
  show (body.run d).1.mapError (Failure.within frame) = .ok path
  rw [hok]
  rfl

/-- A file is written, and afterwards its path is returned. -/
theorem written (path : String) (content : Content) (cause : IoKind → Cause) :
    Writes (do
      change cause (·.write path content)
      return path) givenUp := by
  intro d
  rw [run_bind]
  rcases run_change cause (·.write path content) d with
    ⟨d', hwrite, hrun⟩ | ⟨kind, d', hwrite, hrun⟩
  · rw [hrun]
    exact .singleton (Disk.adds_write hwrite) (Or.inl rfl)
  · rw [hrun]
    exact .of_write_error hwrite

end Writes

end Store

/-- Writing a document adds the file whose path it returns. -/
theorem Document.writes_write (path : String) (value : Json) :
    (Document.write path value).Writes fun _ => False :=
  .after (Store.gainsDirectories_makeParent _ _) fun _ _ => .written _ _ _

namespace Archive

/-- Writing an archive adds the file whose path it returns; if two arrays have
one name, it may give the file up. -/
theorem writes_write (path : String) (arrays : List (String × Json)) :
    (write path arrays).Writes fun other => other = Path.npz path ∧
    ¬ (arrays.map (·.1)).Nodup := by
  intro d
  have houtcome := outcome_write path arrays d
  rcases hrun : (write path arrays).run d with ⟨result, d'⟩
  rw [hrun] at houtcome
  cases houtcome with
  | faulty harrays hearlier hfault => exact .of_adds (.refl _)
  | blocked hmembers hrefuses =>
    rcases hrefuses.gains_or_broken with hgains | hbroken
    · exact .of_adds hgains.adds
    · exact Or.inr ⟨_, hbroken⟩
  | refused hmembers harrays hearlier hdistinct hagain hstored =>
    exact .singleton hstored.adds (Or.inr ⟨rfl, not_nodup_of_again harrays hagain⟩)
  | written hmembers hdistinct hstored => exact .singleton hstored.adds (Or.inl rfl)

end Archive

/-! ## Exports -/

namespace Database

/-- The database has an exporter that names a column twice, and the path is that
of an archive which it begins. -/
def Abandons (d : Database) (exporter path : String) : Prop :=
  isArchiveFormat exporter = true ∧ ∃ names token,
    d.exporters.get? exporter = some names ∧ ¬ names.Nodup ∧
    path = Path.npz (Path.unique d.exportDir (d.name ++ ".dbexport") "npz" token)

theorem names_of_exportColumns {d : Database} {exporter : String}
    {arrays : List (String × Json)}
    (h : d.exportColumns exporter = .ok arrays) :
    d.exporters.get? exporter = some (arrays.map (·.1)) := by
  unfold exportColumns at h
  cases hnames : d.exporters.get? exporter with
  | none =>
    rw [hnames] at h
    cases h
  | some names =>
    rw [hnames] at h
    have hsame : arrays.map (·.1) = names.map id := by
      refine map_of_mapM (fun name array harray => ?_) h
      cases hcolumn : d.column name with
      | error failure =>
        rw [hcolumn] at harray
        cases harray
      | ok values =>
        rw [hcolumn] at harray
        cases harray
        rfl
    rw [hsame, List.map_id]

theorem writes_exportArchive (d : Database) {exporter : String}
    (hformat : isArchiveFormat exporter = true) (token : String) :
    (d.exportArchive exporter token).Writes (d.Abandons exporter) := by
  refine .after (Along.liftM Store.chains_gainsDirectories _)
    fun arrays hgives => ?_
  obtain ⟨_, _, harrays⟩ := hgives
  have hnames := names_of_exportColumns (congrArg Prod.fst harrays)
  refine .after (Store.gainsDirectories_makeDirectories _) fun _ _ =>
    .within _ fun disk => ?_
  refine (Archive.writes_write (Path.unique d.exportDir (d.name ++ ".dbexport")
    "npz" token) arrays disk).imp ?_
  rintro path (hok | ⟨rfl, hnodup⟩)
  · exact Or.inl hok
  · exact Or.inr ⟨hformat, _, token, hnames, hnodup, rfl⟩

end Database

/-- From this world on, all that the act changes are the disk and the tokens;
the files that it has added are at the path that it returns or at one that is
given up, unless a write has broken off. -/
def Act.WritesAt {α : Type} (x : Act α) (pathOf : α → String)
    (givenUp : String → Prop) (w : World) : Prop :=
  ∃ disk tokens, (x.run w).2 = { w with disk, tokens } ∧
    w.disk.Written (fun path => (∃ a, (x.run w).1 = .ok a ∧ pathOf a = path) ∨
      givenUp path) disk

namespace Act.WritesAt

variable {α : Type} {pathOf : α → String} {givenUp : String → Prop} {w : World}

/-- An act that ends where it began has written nothing. -/
theorem of_same {x : Act α} (h : (x.run w).2 = w) : x.WritesAt pathOf givenUp w :=
  ⟨w.disk, w.tokens, h, .of_adds (.refl w.disk)⟩

theorem fail (cause : Cause) :
    (Act.fail cause : Act α).WritesAt pathOf givenUp w := of_same rfl

theorem onDisk {body : Store String} (h : body.Writes givenUp) :
    (Act.onDisk body).WritesAt id givenUp w :=
  ⟨_, w.tokens, rfl, (h w.disk).imp fun path => Or.imp_left fun hok =>
    ⟨path, hok, rfl⟩⟩

theorem token {f : String → Act α}
    (h : ∀ token w, (f token).WritesAt pathOf givenUp w) :
    (Act.token >>= f).WritesAt pathOf givenUp w := by
  obtain ⟨disk, tokens, hworld, hwritten⟩ :=
    h (Token.ofNat w.tokens) { w with tokens := w.tokens + 1 }
  exact ⟨disk, tokens, hworld, hwritten⟩

theorem uniquePath {f : String → Act α} {dir stem extension : String}
    (h : ∀ path w, (f path).WritesAt pathOf givenUp w) :
    (Act.uniquePath dir stem extension >>= f).WritesAt pathOf givenUp w := by
  obtain ⟨disk, tokens, hworld, hwritten⟩ :=
    h (Path.unique dir stem extension (Token.ofNat w.tokens))
    { w with tokens := w.tokens + 1 }
  exact ⟨disk, tokens, hworld, hwritten⟩

theorem map {β : Type} {f : α → β} {pathOf' : β → String} {x : Act α}
    (h : x.WritesAt pathOf givenUp w) (hpath : ∀ a, pathOf' (f a) = pathOf a) :
    (f <$> x).WritesAt pathOf' givenUp w := by
  obtain ⟨disk, tokens, hworld, hwritten⟩ := h
  unfold WritesAt
  rw [run_map]
  rcases hrun : x.run w with ⟨failure | b, w'⟩
  · rw [hrun] at hworld hwritten
    refine ⟨disk, tokens, hworld, hwritten.imp fun path => Or.imp_left ?_⟩
    rintro ⟨a, ha, -⟩
    cases ha
  · rw [hrun] at hworld hwritten
    refine ⟨disk, tokens, hworld, hwritten.imp fun path => Or.imp_left ?_⟩
    rintro ⟨a, ha, rfl⟩
    cases ha
    exact ⟨f b, rfl, hpath b⟩

theorem weaken {givenUp' : String → Prop} {x : Act α}
    (h : x.WritesAt pathOf givenUp w)
    (hgiven : ∀ path, givenUp path → givenUp' path) :
    x.WritesAt pathOf givenUp' w := by
  obtain ⟨disk, tokens, hworld, hwritten⟩ := h
  exact ⟨disk, tokens, hworld, hwritten.imp fun path => Or.imp_right (hgiven path)⟩

/-- What an act writes with an item locked is what the request writes;
afterwards the item is as it was. -/
theorem locking (h : Handle) {body : Act α}
    (hbody : body.WritesAt pathOf givenUp (w.setLocked h.slot true)) :
    (Act.locking h body).WritesAt pathOf givenUp w := by
  by_cases hlocked : w.isLocked h.slot = true
  · refine of_same ?_
    rw [Act.run_locking, if_pos hlocked]
  · obtain ⟨disk, tokens, hworld, hwritten⟩ := hbody
    have hback : (w.setLocked h.slot true).setLocked h.slot false = w :=
      World.setLocked_of_free (Bool.eq_false_iff.mpr hlocked)
    unfold WritesAt
    rw [Act.run_locking, if_neg hlocked]
    refine ⟨disk, tokens, ?_, hwritten⟩
    dsimp only
    rw [hworld]
    show { (w.setLocked h.slot true).setLocked h.slot false with disk, tokens } = _
    rw [hback]

theorem item {h : Handle} {f : Item → Act α}
    (hf : ∀ i, w.itemAt h.slot = some i → (f i).WritesAt pathOf givenUp w) :
    (Act.item h >>= f).WritesAt pathOf givenUp w := by
  rcases hrun : (Act.item h).run w with ⟨failure | i, w'⟩
  · refine of_same ?_
    have hsame : w' = w := by
      rw [Act.run_item] at hrun
      exact (congrArg Prod.snd hrun).symm
    rw [run_bind_of_error hrun, hsame]
  · obtain ⟨rfl, hi⟩ := Act.run_item_ok hrun
    unfold WritesAt
    rw [run_bind_of_ok hrun]
    exact hf i hi

end Act.WritesAt

/-- An export adds the file whose path it returns, or begins an archive of a
database and gives it up. -/
theorem Item.writes_exportAs (item : Item) (format : String) (w : World) :
    (item.exportAs format).WritesAt id (fun path => ∃ d, item = .database d ∧
      d.Abandons format path) w := by
  have hdocument (path : String) (i : Item) (w : World) :
      (Act.onDisk (i.serialize "json" (some path))).WritesAt id
        (fun path => ∃ d, item = .database d ∧ d.Abandons format path) w :=
    (Act.WritesAt.onDisk (Document.writes_write path i.state.toJson)).weaken
      fun _ h => h.elim
  cases item with
  | database d =>
    show (d.exportAs format).WritesAt _ _ _
    unfold Database.exportAs
    split
    · next hformat =>
      refine .token fun token w =>
        (Act.WritesAt.onDisk (d.writes_exportArchive hformat token)).weaken
          fun path h => ?_
      exact ⟨d, rfl, h⟩
    · split
      · exact .uniquePath fun path w => hdocument path _ w
      · exact .fail _
  | algorithm a =>
    show Act.WritesAt (if format = "serialize" then _ else _) _ _ _
    split
    · exact (Act.WritesAt.onDisk
        (Document.writes_write _ a.toSpec.encode)).weaken fun _ h => h.elim
    · exact .fail _
  | plain p => exact .fail _

/-- The database behind the handle begins an archive of this
path and gives it up. -/
def World.Abandons (w : World) (h : Handle) (format path : String) : Prop :=
  ∃ d, w.itemAt h.slot = some (.database d) ∧ d.Abandons format path

theorem Calls.writes_exportWithin (ctx : Context) (depth : Nat) (h : Handle)
    (format : String) (w : World) :
    (Calls.within ctx depth h (.exportAs format)).WritesAt Value.displayText
      (w.Abandons h format) w := by
  cases depth with
  | zero => exact .fail _
  | succ depth =>
    refine .locking h (.item fun i hi => ?_)
    rw [World.itemAt_setLocked] at hi
    refine Act.WritesAt.map ((i.writes_exportAs format _).weaken ?_) fun _ => rfl
    rintro path ⟨d, rfl, habandons⟩
    exact ⟨d, hi, habandons⟩

/-- A request for an export is answered by the path of the file that was added. -/
theorem Calls.writes_export {ctx : Context} {calls : Calls}
    (hcalls : calls.OfItems ctx) (h : Handle) (format : String) (w : World) :
    (calls h (.exportAs format)).WritesAt Value.displayText
      (w.Abandons h format) w := by
  obtain ⟨depth, hrun⟩ := hcalls h (.exportAs format) w
  unfold Act.WritesAt
  rw [hrun]
  exact writes_exportWithin ctx depth h format w

/-! ## The course of a call -/

/-- A course from one world to another, which starts no other program: own
steps, which start nothing and whose new files are under the paths that are
listed first; own steps in which the device breaks off the writing of a file,
whose paths are listed apart; starts; and what happens during a wait. -/
inductive World.Course (ctx : Context) (program : String) :
    List String → List String → World → World → Prop
  | own {made : List String} {w w' : World} :
      w.Idle w' → Disk.Adds made w.disk w'.disk → Course ctx program made [] w w'
  | broken {path : String} {w w' : World} :
      w.Idle w' → Disk.BrokenWrite path w.disk w'.disk →
      Course ctx program [] [path] w w'
  | started {l : Launch} {w w' : World} {job : Nat × Outcome} :
      l.program = program → (Act.launch ctx l).run w = (.ok (.ok job), w') →
      Course ctx program [] [] w w'
  | waited {look : Nat} {w : World} {disk : Disk} {cancelled : Bool} :
      ctx.host.meanwhile look (w.disk, w.cancelled) = (disk, cancelled) →
      Course ctx program [] [] w { w with disk, cancelled }
  | next {made made' broken broken' : List String} {w w' w'' : World} :
      Course ctx program made broken w w' →
      Course ctx program made' broken' w' w'' →
      Course ctx program (made ++ made') (broken ++ broken') w w''

namespace World

variable {ctx : Context} {program : String} {asked : Handle → String → Prop}

end World

/-- A script whose writing breaks off is there after the call has failed. -/
example :
    let r := ScriptRunner.touchingRunner ScriptRunner.touchingPrototype
    let device : Device :=
      { write := fun _ _ _ => some (.storageFull, some (.text "")) }
    let run := (r.run idleContext (Calls.all idleContext) []).run
        { disk := { entries := [], device } }
    run.1.isOk = false ∧
      run.2.disk.isFile (Path.unique r.workdir r.name "sh" (Token.ofNat 1)) := by
  decide +kernel

end Playbook
