import Playbook.Proofs.Keeping
import Playbook.Proofs.Script.Course

/-!
# Playbook — calls leave other files alone

A call writes its scripts and exports, waits for sentinels and removes them, and
removes at its end what it has marked. All of this misses a file that was there
before, unless the file is the document of an algorithm among the arguments:
that document is overwritten by the export, and removed at the end.

Main results:

* `Bystander.there_after_script`, `Bystander.there_after_external` — the two
  kinds of calls keep a file.
* `file_kept` — however a call ends, a file that is no document of an algorithm
  among its arguments is what it was.
-/

namespace Playbook

open Effect

/-- Neither the program, when it is started, nor what happens during a wait
touches the file. -/
structure Host.Spares (host : Host) (program : String) (place : Place)
    (entry : Entry) : Prop where
  start : ∀ job (l : Launch) disk outcome, l.program = program →
    host.start job l disk = .ok outcome →
    Disk.Retains place entry disk outcome.disk
  meanwhile : ∀ look disk cancelled, Disk.Retains place entry disk
    (host.meanwhile look (disk, cancelled)).1

namespace Bystander

/-- The argument under a name is the path of a new file. -/
def NewPath (f : Bystander) (args : Args) (name : String) : Prop :=
  ∃ dir stem extension n, extension ∈ ["ended", "npz"] ∧ f.place.Without n ∧
    args.get? name = some (.ofText (Path.unique dir stem extension (Token.ofNat n)))

theorem NewPath.misses {f : Bystander} {args : Args} {name : String}
    (h : f.NewPath args name) (index : Nat) :
    Path.Misses (ScriptRunner.indexedPath args name index) f.place := by
  obtain ⟨dir, stem, extension, n, hextension, hwithout, hget⟩ := h
  unfold ScriptRunner.indexedPath
  rw [hget]
  show Path.Misses (Path.withIndex
    (Path.unique dir stem extension (Token.ofNat n)) index) f.place
  rcases List.mem_pair.mp hextension with rfl | rfl
  · exact (Path.bears_withIndex dir stem (by decide) (by decide) n index).misses
      hwithout
  · exact (Path.bears_withIndex dir stem (by decide) (by decide) n index).misses
      hwithout

variable {f : Bystander} {P : Prop} {ctx : Context}

/-! ## Programs and waits -/

section

variable {program : String} (hhost : ctx.host.Spares program f.place f.entry)

include hhost

theorem keeps_launch (l : Launch) (hprogram : l.program = program) :
    f.Keeps P (Act.launch ctx l) fun _ => True := by
  intro w
  unfold Act.launch
  dsimp only [ExceptT.run]
  cases hstart : ctx.host.start w.jobs l w.disk with
  | error kind =>
    exact ⟨Nat.le_refl _, fun _ _ hstands => ⟨hstands, fun _ _ => trivial⟩⟩
  | ok outcome =>
    refine ⟨Nat.le_refl _, fun _ _ hstands =>
      ⟨⟨?_, hstands.unmarked, hstands.documents⟩, fun _ _ => trivial⟩⟩
    exact hhost.start w.jobs l w.disk outcome hprogram hstart hstands.there

theorem keeps_waitFrom (sentinels : List String) (left look : Nat) :
    f.Keeps (∀ path ∈ sentinels, Path.Misses path f.place)
      (Sentinel.waitFrom ctx sentinels left look) fun _ => True := by
  have hget : ∀ {P : Prop}, f.Keeps P (get : Act World) fun _ => True :=
    Keeps.of_still (Along.get noting_still.toChains)
  induction left generalizing look with
  | zero => exact hget.andThen fun _ => Keeps.fail _
  | succ left ih =>
    refine Keeps.andThen (Keeps.modify (fun _ => rfl) fun _ w hstands => ?_)
      fun _ => hget.andThen fun w => ?_
    · exact ⟨hhost.meanwhile look w.disk w.cancelled hstands.there,
        hstands.unmarked, hstands.documents⟩
    refine Keeps.ite (Keeps.modify (fun _ => rfl) fun hmiss w hstands => ?_)
      (Keeps.ite ?_ (Keeps.ite ?_ (ih _)))
    · refine ⟨?_, hstands.unmarked, hstands.documents⟩
      rw [Disk.get?_foldl_removeQuietly hmiss]
      exact hstands.there
    · exact (Keeps.warn _ _).andThen fun _ => Keeps.fail _
    · exact (Keeps.warn _ _).andThen fun _ => Keeps.fail _

theorem keeps_waitAll (sentinels : List String) :
    f.Keeps (∀ path ∈ sentinels, Path.Misses path f.place)
      (Sentinel.waitAll ctx sentinels) fun _ => True :=
  keeps_waitFrom hhost sentinels _ _

end

/-! ## Scripts -/

theorem keeps_newPath (dir stem : String) {extension : String}
    (hslash : '/' ∉ extension.toList) :
    f.Keeps P (Act.uniquePath dir stem extension) fun path =>
  Path.Misses path f.place := by
  refine (Keeps.uniquePath dir stem extension).weaken id ?_
  rintro path - ⟨n, rfl, hwithout⟩
  exact (Path.bears_unique dir stem hslash n).misses hwithout

theorem keeps_writeScript (r : ScriptRunner) (texts : Dict String) :
    f.Keeps P (r.writeScript texts) fun _ => True := by
  have hdirectory : f.Keeps P (Act.onDisk (Store.makeDirectories r.workdir))
      fun _ => True :=
    Keeps.onDisk (fun _ => (Disk.storing_retains _ _).makeDirectories _)
      fun _ _ _ _ => trivial
  refine (hdirectory.within _).andThen fun _ =>
    (keeps_newPath _ _ (by decide)).bind fun path => ?_
  have hwrite : f.Keeps (P ∧ Path.Misses path f.place)
      (Act.onDisk (Store.change .io
        (·.write path (.text (r.prototype.render texts))))) fun _ => True :=
    Keeps.onDisk (fun h => (Disk.storing_retains _ _).change h.2 _ _)
      fun _ _ _ _ => trivial
  exact (hwrite.within _).andThen fun _ =>
    ((Keeps.track path).given And.right).andThen fun _ =>
      Keeps.pure fun _ => trivial

/-- Naming files puts paths of new files into the arguments. -/
theorem keeps_nameFiles (dir : String) (bs : List Binding) (args : Args) :
    f.Keeps (f.NewPath args Prototype.touchfile ∧
      ∀ h ∈ Value.entryHandles args, h ∈ f.asked)
        (ScriptRunner.nameFiles dir bs args)
      fun named => f.NewPath named Prototype.touchfile ∧
      ∀ h ∈ Value.entryHandles named, h ∈ f.asked := by
  induction bs generalizing args with
  | nil => exact Keeps.pure id
  | cons b bs ih =>
    refine (Keeps.uniquePath _ _ _).bind fun path => (ih _).given ?_
    rintro ⟨⟨hnew, hasked⟩, n, rfl, hwithout⟩
    refine ⟨?_, fun h hh => ?_⟩
    · by_cases hname : b.name = Prototype.touchfile
      · exact ⟨dir, b.name, "npz",
          n, by decide, hwithout, by rw [Dict.get?_insert, if_pos hname]⟩
      · obtain ⟨dir', stem, extension, m, hextension, hwithout', hget⟩ := hnew
        exact ⟨dir', stem, extension, m, hextension,
          hwithout', by rw [Dict.get?_insert, if_neg hname, hget]⟩
    · exact hasked h (Value.mem_entryHandles_insert hh)

theorem keeps_runSingle {r : ScriptRunner}
    (hhost : ctx.host.Spares r.launcher f.place f.entry) (args : Args)
    (texts : Dict String) (sentinel : String) :
    f.Keeps (Path.Misses sentinel f.place) (r.runSingle ctx args texts sentinel)
      fun _ => True := by
  have hwait : f.Keeps (Path.Misses sentinel f.place)
      (Sentinel.waitAll ctx [sentinel]) fun _ => True :=
    (keeps_waitAll hhost [sentinel]).given fun hmiss path hpath =>
      List.mem_singleton.mp hpath ▸ hmiss
  refine (keeps_writeScript r texts).andThen fun script =>
    (keeps_launch hhost _ rfl).andThen fun launched => ?_
  rcases launched with kind | ⟨job, outcome⟩
  · exact (Keeps.throw _).andThen fun _ => hwait.andThen fun _ =>
      Keeps.pure fun _ => trivial
  · refine (Keeps.print _).andThen fun _ => (Keeps.note _).andThen fun _ =>
      Keeps.ite ?_ ?_
    · exact hwait.andThen fun _ => Keeps.pure fun _ => trivial
    · exact (Keeps.warn _ _).andThen fun _ => hwait.andThen fun _ =>
        Keeps.pure fun _ => trivial

theorem keeps_launchAll {launch : Nat → Value → Act ScriptRunner.Element}
    {Q : ScriptRunner.Element → Prop} {values : List Value}
    (hlaunch : ∀ i, ∀ v ∈ values, f.Keeps P (launch i v) Q) (index : Nat) :
    f.Keeps P (ScriptRunner.launchAll launch index values) fun launched =>
  ∀ element ∈ launched.1, Q element := by
  induction values generalizing index with
  | nil => exact Keeps.pure fun _ element h => (List.not_mem_nil h).elim
  | cons v vs ih =>
    have hrest := ih fun i x hx => hlaunch i x (List.mem_cons_of_mem _ hx)
    refine (hlaunch index v (List.mem_cons_self ..)).attempt.bind fun launched => ?_
    cases launched with
    | error failure => exact Keeps.pure fun _ element h => (List.not_mem_nil h).elim
    | ok element =>
      refine ((hrest _).given And.left).bind fun others => Keeps.pure ?_
      rintro ⟨⟨-, hfirst⟩, hothers⟩ other hother
      rcases List.mem_cons.mp hother with rfl | hlater
      · exact hfirst _ rfl
      · exact hothers other hlater

section

variable {calls : Calls} (hcalls : calls.OfItems ctx) {r : ScriptRunner}
  (hhost : ctx.host.Spares r.launcher f.place f.entry)

include hcalls hhost

/-- The job of an element is waited for by a new path. -/
theorem keeps_launchElement (b : Binding) (args : Args) (shared : Dict String)
    (index : Nat) (element : Value) :
    f.Keeps (f.NewPath args Prototype.touchfile ∧
      ∀ h ∈ element.handles, h ∈ f.asked)
        (r.launchElement ctx calls b args shared index element) fun launched =>
          Path.Misses launched.sentinel f.place := by
  refine ((keeps_renderValue hcalls _ element).given And.right).andThen
    fun text => ?_
  refine (keeps_writeScript r _).andThen fun script =>
    (keeps_launch hhost _ rfl).andThen fun launched => ?_
  rcases launched with kind | ⟨job, outcome⟩
  · exact Keeps.throw _
  · exact (Keeps.print _).andThen fun _ => Keeps.pure fun h => h.1.misses index

theorem keeps_runArray (b : Binding) (args : Args) (shared : Dict String) :
    f.Keeps (f.NewPath args Prototype.touchfile ∧
      ∀ h ∈ Value.entryHandles args, h ∈ f.asked)
        (r.runArray ctx calls b args shared) fun _ => True := by
  unfold ScriptRunner.runArray
  split
  · exact Keeps.fail _
  · next values hvalues =>
    -- the items in an element are items of the list
    have hlaunch : ∀ i, ∀ v ∈ values, f.Keeps
        (f.NewPath args Prototype.touchfile ∧
          ∀ h ∈ Value.entryHandles args, h ∈ f.asked)
        (r.launchElement ctx calls b args shared i v) fun launched =>
          Path.Misses launched.sentinel f.place := by
      intro i v hv
      refine (keeps_launchElement hcalls hhost b args shared i v).given
        fun ⟨hnew, hasked⟩ => ⟨hnew, fun h hh => ?_⟩
      obtain ⟨value, hget, hsequence⟩ := Option.bind_eq_some_iff.mp hvalues
      have hmem := Value.mem_handles_of_sequence? hsequence hv hh
      exact hasked h (Value.mem_entryHandles.mpr
        ⟨b.name, value, Dict.mem_of_get? hget, hmem⟩)
    have hreap : ∀ (P : Prop) kill elements, f.Keeps P (r.reap kill elements)
        fun _ => True := fun P kill elements =>
      Keeps.of_still (noting_still.reap r kill elements)
    refine (keeps_launchAll hlaunch 0).bind fun launched => ?_
    rcases launched with ⟨elements, _ | failure⟩
    · refine Keeps.bind
        (Keeps.attempt
          ((keeps_waitAll hhost (elements.map (·.sentinel))).given ?_))
          fun waited => ?_
      · rintro ⟨-, hsentinels⟩ path hpath
        obtain ⟨element, helement, rfl⟩ := List.mem_map.mp hpath
        exact hsentinels element helement
      rcases waited with failure | -
      · exact (hreap _ _ _).andThen fun _ => Keeps.throw _
      · exact (hreap _ _ _).andThen fun _ => Keeps.pure fun _ => trivial
    · exact (hreap _ _ _).andThen fun _ => Keeps.throw _

/-- A file that is no document of an algorithm among the arguments is there
after a script's run. -/
theorem there_after_script {args : Args}
    (hasked : ∀ h ∈ Value.entryHandles args, h ∈ f.asked) {w : World}
    (hapart : f.place.Apart w.tokens ((r.run ctx calls args).run w).2.tokens)
    (hthere : w.disk.get? f.place = some f.entry)
    (hdocuments : ∀ h ∈ f.asked, ∀ a, w.itemAt h.slot = some (.algorithm a) →
      Path.Misses a.document f.place) :
    ((r.run ctx calls args).run w).2.disk.get? f.place = some f.entry := by
  unfold ScriptRunner.run at hapart ⊢
  refine Keeps.after_cleaning (Keeps.bind (Keeps.uniquePath _ _ _)
    fun sentinel => ?_) hasked hapart hthere hdocuments
  refine Keeps.bind ((keeps_nameFiles _ _ _).given ?_) fun named => ?_
  · rintro ⟨hasked, n, rfl, hwithout⟩
    refine ⟨⟨r.workdir, "", "ended",
      n, by decide, hwithout, by rw [Dict.get?_insert, if_pos rfl]⟩,
      fun h hh => ?_⟩
    exact hasked h (Value.mem_entryHandles_insert hh)
  refine (Keeps.of_still (noting_still.validate r named)).andThen fun _ => ?_
  refine ((keeps_renderShared hcalls _ named).given fun h => h.2.2).andThen
    fun shared => ?_
  split
  · refine (keeps_runSingle hhost named shared sentinel).given ?_
    rintro ⟨⟨-, n, rfl, hwithout⟩, -⟩
    exact (Path.bears_unique _ _ (by decide) n).misses hwithout
  · exact (keeps_runArray hcalls hhost _ named shared).given And.right

omit hhost

/-- The same is true of a run of an external program. -/
theorem there_after_external {program : String}
    (hhost : ctx.host.Spares program f.place f.entry) {site : Site}
    {args : Args} (hasked : ∀ h ∈ Value.entryHandles args, h ∈ f.asked)
    {w : World}
    (hapart : f.place.Apart w.tokens
      ((Computation.runExternal ctx calls program site args).run w).2.tokens)
      (hthere : w.disk.get? f.place = some f.entry)
    (hdocuments : ∀ h ∈ f.asked, ∀ a, w.itemAt h.slot = some (.algorithm a) →
      Path.Misses a.document f.place) :
    ((Computation.runExternal ctx calls program site args).run w).2.disk.get?
      f.place = some f.entry := by
  unfold Computation.runExternal at hapart ⊢
  have hfields : f.Keeps (∀ h ∈ Value.entryHandles args, h ∈ f.asked)
      (Act.attempt (calls.toJsonEntries args))
      fun _ => True := (keeps_toJsonEntries hcalls args).attempt.weaken id
        fun _ _ _ => trivial
  refine Keeps.after_cleaning (hfields.andThen fun fields => ?_) hasked hapart
    hthere hdocuments
  cases fields with
  | error failure => exact Keeps.fail _
  | ok fields =>
    refine (keeps_launch hhost _ rfl).andThen fun launched => ?_
    rcases launched with kind | ⟨job, outcome⟩
    · exact Keeps.throw _
    · refine (Keeps.of_still (noting_still.check _)).andThen fun _ => ?_
      refine (Keeps.note _).andThen fun _ => Keeps.ite ?_ ?_
      · exact Keeps.of_still (noting_still.liftM _)
      · exact Keeps.fail _

end

end Bystander

/-- **A call leaves other files alone.** Let something stand at a place, let its
name have none of the tokens that are handed out during the call, and let no
algorithm among the arguments have its document there. If the started program
does not touch it, and nothing else does while the call waits, it is the same
after the call, however the call ends. -/
theorem file_kept {ctx : Context} {calls : Calls} (hcalls : calls.OfItems ctx)
    {args : Args} {w : World} {place : Place} {entry : Entry}
    (hthere : w.disk.get? place = some entry)
    (hdocuments : ∀ h ∈ Value.entryHandles args, ∀ a,
      w.itemAt h.slot = some (.algorithm a) →
      Path.Misses a.document place) :
    (∀ r : ScriptRunner, ctx.host.Spares r.launcher place entry →
      let w' := ((r.run ctx calls args).run w).2
      place.Apart w.tokens w'.tokens → w'.disk.get? place = some entry) ∧
    ∀ program site, ctx.host.Spares program place entry →
      let w' := ((Computation.runExternal ctx calls program site args).run w).2
      place.Apart w.tokens w'.tokens → w'.disk.get? place = some entry := by
  let f : Bystander := ⟨place, entry, Value.entryHandles args⟩
  have hasked : ∀ h ∈ Value.entryHandles args, h ∈ f.asked := fun _ h => h
  constructor
  · intro r hhost w' hapart
    exact f.there_after_script hcalls hhost hasked hapart hthere hdocuments
  · intro program site hhost w' hapart
    exact f.there_after_external hcalls hhost hasked hapart hthere hdocuments

/-! ## A document that is lost -/

/-- A host whose programs do nothing. -/
def idleContext : Context where
  settings := { waitTimeout := some 0 }
  host := {
    start := fun _ _ disk => .ok { status := .exited 0, disk }
    elapsed := fun _ => 0
    horizon := 1 }

theorem idleContext_spares (program : String) (place : Place) (entry : Entry) :
    idleContext.host.Spares program place entry where
  start _ _ _ _ _ hstart := by
    cases hstart
    exact id
  meanwhile _ _ _ := id

/-- An algorithm without actions. -/
def bareAlgorithm : Algorithm where
  name := "alg"
  actions := []
  config := []
  workdir := "wd"

/-- A world with this algorithm, and files of the given names in its
working directory. -/
def shelfWorld (names : List String) : World where
  disk := {
    entries := (["wd"], .directory) ::
      names.map fun name => (["wd", name], .file (.text "kept") false) }
  slots := [⟨.algorithm bareAlgorithm, false⟩]

/-- A prototype whose script is told the export of an item. -/
def tellingPrototype : Prototype where
  text := "cat \x7b\x7bitem\x7d\x7d\ntouch \x7b\x7btouchfile\x7d\x7d\n"
  tokens := [⟨"item", "item", .plain, false⟩,
    ⟨"touchfile", "touchfile", .plain, false⟩]
  bindings := [("item", ⟨"item", "item", .plain, false⟩),
    ("touchfile", ⟨"touchfile", "touchfile", .plain, false⟩)]
  arrayVariable := none

/-- A file beside the document of the algorithm is there after either call. -/
theorem file_beside_document :
    let r := ScriptRunner.touchingRunner tellingPrototype
    let args : Args := [("item", .item ⟨"alg", 0⟩)]
    let w := shelfWorld ["notes.txt"]
    ((r.run idleContext (Calls.all idleContext) args).run w).2.disk.get?
      ["wd", "notes.txt"] = some (.file (.text "kept") false) ∧
      ((Computation.runExternal idleContext (Calls.all idleContext) "tool"
        default args).run w).2.disk.get? ["wd", "notes.txt"] =
        some (.file (.text "kept") false) := by
  intro r args w
  have hdocuments : ∀ h ∈ Value.entryHandles args, ∀ a,
      w.itemAt h.slot = some (.algorithm a) →
      Path.Misses a.document ["wd", "notes.txt"] := by
    intro h hh a ha
    cases List.mem_singleton.mp hh
    cases ha
    have hlast : (Disk.splitPath bareAlgorithm.document).1.getLast? =
        some "alg.json" := by decide +kernel
    exact Path.misses_of_last hlast (by decide) (by decide)
  have hapart : ∀ first last, Place.Apart ["wd", "notes.txt"] first last := by
    intro first last n _ _
    refine Place.without_of_short (fun name hname => ?_) n
    cases hname
    decide
  have hthere : w.disk.get? ["wd", "notes.txt"] =
      some (.file (.text "kept") false) := rfl
  obtain ⟨hscript, hexternal⟩ :=
    file_kept (Calls.ofItems_all idleContext) hthere hdocuments
  exact ⟨hscript r (idleContext_spares _ _ _) (hapart _ _),
    hexternal "tool" default (idleContext_spares _ _ _) (hapart _ _)⟩

/-- The document of an algorithm among the arguments is gone after either
call, although it was there before, no program touches it, and its name
has no token in it. -/
theorem document_lost :
    let r := ScriptRunner.touchingRunner tellingPrototype
    let args : Args := [("item", .item ⟨"alg", 0⟩)]
    let w := shelfWorld ["alg.json"]
    let place := ["wd", "alg.json"]
    Prototype.parse "job.proto.sh" tellingPrototype.text = .ok r.prototype ∧
      w.disk.get? place = some (.file (.text "kept") false) ∧
      (∀ program, idleContext.host.Spares program place
        (.file (.text "kept") false)) ∧
      (∀ n, Place.Without place n) ∧
      ((r.run idleContext (Calls.all idleContext) args).run w).2.disk.get?
      place = none ∧
      ((Computation.runExternal idleContext (Calls.all idleContext) "tool"
        default args).run w).2.disk.get? place = none := by
  intro r args w place
  refine ⟨by decide +kernel, rfl, fun program => idleContext_spares program _ _,
    fun n => ?_, by decide +kernel, by decide +kernel⟩
  refine Place.without_of_short (fun name hname => ?_) n
  cases hname
  decide

end Playbook
