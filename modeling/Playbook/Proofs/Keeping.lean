import Playbook.Proofs.Naming
import Playbook.Proofs.Script.Jobs

/-!
# Playbook — files that acts keep

What a call writes and removes are scripts, sentinels and exports. Most of them
have new names, so a file that was there before the call stays what it was: this
module says so of each part of a call (`Bystander.Keeps`), from operations on
the disk up to the exports of the items among the arguments. An algorithm is
different: it is always exported to the document of its own name, so a file at
that place is no bystander.

The names that are handed out grow in number with every act. So the condition that
none of them is in the name of the file is passed from a sequence to its parts.

Main results:

* `Disk.Storing.exportArchive` — what holds over creating directories and
  writing holds over documents, archives and exports.
* `Bystander.Keeps.bind` — a sequence keeps a file if its parts do, the second
  with what the first has established.
* `Bystander.keeps_exportItem` — an export keeps a file that is not the document
  of the algorithm that is exported.
* `Bystander.keeps_renderShared`, `Bystander.keeps_toJsonEntries` — so do all
  exports of a call.
-/

namespace Playbook

open Effect

/-! ## Operations on the disk -/

/-- A relation that holds over creating directories, and over writing to the
paths that `P` allows, however these end. -/
structure Disk.Storing (P : String → Prop) (R : Disk → Disk → Prop) : Prop
    extends Chains R where
  directories : ∀ d path, R d (d.makeDirectories path).2
  write : ∀ d path content, P path → R d (d.write path content).2

namespace Disk.Storing

variable {P : String → Prop} {R : Disk → Disk → Prop} (hR : Disk.Storing P R)

include hR

theorem makeDirectories (path : String) : Along R (Store.makeDirectories path) :=
  Store.along_change fun d => hR.directories d path

theorem makeParent (cause : IoKind → Cause) (path : String) :
    Along R (Store.makeParent cause path) := by
  unfold Store.makeParent
  split
  · exact Along.pure hR.toChains _
  · exact Along.pure hR.toChains _
  · exact Store.along_change fun d => hR.directories d _

theorem change {path : String} (hpath : P path) (cause : IoKind → Cause)
    (content : Content) :
    Along R (Store.change cause (·.write path content)) :=
  Store.along_change fun d => hR.write d path content hpath

theorem writeDocument {path : String} (hpath : P (Path.json path))
    (value : Json) : Along R (Document.write path value) :=
  Along.bind hR.toChains (hR.makeParent _ _) fun _ =>
    Along.bind hR.toChains (hR.change hpath _ _) fun _ => Along.pure hR.toChains _

theorem writeArchive {path : String} (hpath : P (Path.npz path))
    (arrays : List (String × Json)) :
    Along R (Archive.write path arrays) := by
  refine Along.bind hR.toChains (Along.liftM hR.toChains _) fun members => ?_
  refine Along.bind hR.toChains (hR.makeParent _ _) fun _ =>
    Along.bind hR.toChains (hR.change hpath _ _) fun _ => ?_
  split
  · exact Along.bind hR.toChains (Along.throw hR.toChains _) fun _ =>
      Along.pure hR.toChains _
  · exact Along.pure hR.toChains _

theorem exportArchive {d : Database} {token : String}
    (hpath : P
      (Path.npz (Path.unique d.exportDir (d.name ++ ".dbexport") "npz" token)))
      (exporter : String) :
    Along R (d.exportArchive exporter token) := by
  refine Along.bind hR.toChains (Along.liftM hR.toChains _) fun arrays => ?_
  exact Along.bind hR.toChains (hR.makeDirectories _) fun _ =>
    hR.writeArchive hpath arrays

end Disk.Storing

/-- If the entry stands at the place on the one disk, it stands
there on the other. -/
def Disk.Retains (place : Place) (entry : Entry) (d d' : Disk) : Prop :=
  d.get? place = some entry → d'.get? place = some entry

/-- What stands at a place is left there by writing to paths that
do not lead there. -/
theorem Disk.storing_retains (place : Place) (entry : Entry) :
    Disk.Storing (Path.Misses · place) (Disk.Retains place entry) where
  refl _ h := h
  trans h k hthere := k (h hthere)
  directories _ path := Disk.get?_makeDirectories path
  write d _ content hmiss hthere := by rw [Disk.get?_write hmiss d content, hthere]

/-- Writing an archive gives the path that it was written to. -/
theorem Archive.eq_of_write {path written : String}
    {arrays : List (String × Json)} {d d' : Disk}
    (h : (Archive.write path arrays).run d = (.ok written, d')) :
    written = Path.npz path := by
  obtain ⟨members, d₁, -, h⟩ := run_bind_ok h
  obtain ⟨_, d₂, -, h⟩ := run_bind_ok h
  obtain ⟨_, d₃, -, h⟩ := run_bind_ok h
  split at h
  · obtain ⟨_, d₄, hthrow, -⟩ := run_bind_ok h
    cases hthrow
  · cases h
    rfl

/-- A frame changes nothing about a result. -/
theorem Store.run_within_ok {α : Type} {frame : Frame} {body : Store α}
    {d d' : Disk} {a : α} (h : (Store.within frame body).run d = (.ok a, d')) :
    body.run d = (.ok a, d') := by
  have hrun : (Store.within frame body).run d =
      ((body.run d).1.mapError (Failure.within frame), (body.run d).2) := rfl
  rw [hrun] at h
  rcases hbody : body.run d with ⟨failure | b, d₁⟩
  · rw [hbody] at h
    cases h
  · rw [hbody] at h
    cases h
    rfl

theorem Database.eq_of_exportArchive {db : Database}
    {exporter token written : String} {d d' : Disk}
    (h : (db.exportArchive exporter token).run d = (.ok written, d')) :
    written = Path.npz (Path.unique db.exportDir (db.name ++ ".dbexport")
      "npz" token) := by
  obtain ⟨arrays, d₁, -, h⟩ := run_bind_ok h
  obtain ⟨_, d₂, -, h⟩ := run_bind_ok h
  exact Archive.eq_of_write (Store.run_within_ok h)

/-! ## Bystanders -/

/-- No token with a number from the first on, up to the last, is in the last
name of the place. -/
def Place.Apart (place : Place) (first last : Nat) : Prop :=
  ∀ n, first ≤ n → n < last → place.Without n

/-- The document that an algorithm is exported to. -/
def Algorithm.document (a : Algorithm) : String :=
  Path.json (Path.join a.workdir a.name)

/-- A file that was there before a call: its place, what stands there, and the
items that the call may export. -/
structure Bystander where
  place : Place
  entry : Entry
  asked : List Handle

namespace Bystander

/-- The file is there, and neither the paths of files to be removed nor the
documents of the items lead to it. -/
structure Stands (f : Bystander) (w : World) : Prop where
  there : w.disk.get? f.place = some f.entry
  unmarked : ∀ path ∈ w.generated, Path.Misses path f.place
  documents : ∀ h ∈ f.asked, ∀ a, w.itemAt h.slot = some (.algorithm a) →
    Path.Misses a.document f.place

/-- A world in which neither the disk nor the items have changed, and no name
was handed out or marked. -/
structure Still (w w' : World) : Prop where
  disk : w'.disk = w.disk
  tokens : w'.tokens = w.tokens
  generated : w'.generated = w.generated
  slots : w'.slots = w.slots

theorem noting_still : Noting Still where
  refl _ := ⟨rfl, rfl, rfl, rfl⟩
  trans h k := ⟨k.disk.trans h.disk, k.tokens.trans h.tokens,
    k.generated.trans h.generated, k.slots.trans h.slots⟩
  event _ _ _ _ := ⟨rfl, rfl, rfl, rfl⟩

theorem Stands.of_still {f : Bystander} {w w' : World} (h : f.Stands w)
    (hstill : Still w w') : f.Stands w' := by
  refine ⟨hstill.disk ▸ h.there, hstill.generated ▸ h.unmarked,
    fun item hitem a ha => h.documents item hitem a ?_⟩
  unfold World.itemAt at ha ⊢
  rwa [hstill.slots] at ha

/-- Given `P`, the act leaves the file standing as long as no name that it hands
out is in the name of the file, and what it returns satisfies `Q`. Names are
handed out in the order of their numbers. -/
def Keeps (f : Bystander) {α : Type} (P : Prop) (x : Act α) (Q : α → Prop) : Prop :=
  ∀ w, w.tokens ≤ (x.run w).2.tokens ∧
    (f.place.Apart w.tokens (x.run w).2.tokens → P → f.Stands w →
      f.Stands (x.run w).2 ∧ ∀ a, (x.run w).1 = .ok a → Q a)

namespace Keeps

variable {f : Bystander} {α β : Type} {P P' : Prop} {x : Act α} {Q : α → Prop}
  {Q' : β → Prop}

theorem pure {a : α} (h : P → Q a) : f.Keeps P (Pure.pure a : Act α) Q := by
  intro w
  refine ⟨Nat.le_refl _, fun _ hP hstands => ⟨hstands, fun b hb => ?_⟩⟩
  cases hb
  exact h hP

theorem throw (failure : Failure) : f.Keeps P (throw failure : Act α) Q :=
  fun w => ⟨Nat.le_refl _, fun _ _ hstands => ⟨hstands, fun a ha => by cases ha⟩⟩

theorem fail (cause : Cause) : f.Keeps P (Act.fail cause : Act α) Q := Keeps.throw _

theorem weaken {R : α → Prop} (hx : f.Keeps P x Q) (hP : P' → P)
    (hQ : ∀ a, P' → Q a → R a) : f.Keeps P' x R := by
  intro w
  obtain ⟨hle, hkeeps⟩ := hx w
  refine ⟨hle, fun hapart hP' hstands => ?_⟩
  obtain ⟨hafter, hresult⟩ := hkeeps hapart (hP hP') hstands
  exact ⟨hafter, fun a ha => hQ a hP' (hresult a ha)⟩

theorem given (hx : f.Keeps P x Q) (hP : P' → P) :
    f.Keeps P' x Q := hx.weaken hP fun _ _ h => h

/-- A sequence keeps the file if its parts do, the second with what the first
has established. -/
theorem bind {g : α → Act β} (hx : f.Keeps P x Q)
    (hg : ∀ a, f.Keeps (P ∧ Q a) (g a) Q') : f.Keeps P (x >>= g) Q' := by
  intro w
  obtain ⟨hle, hkeeps⟩ := hx w
  rw [run_bind]
  rcases hrun : x.run w with ⟨failure | a, w₁⟩
  · rw [hrun] at hle hkeeps
    exact ⟨hle, fun hapart hP hstands =>
      ⟨(hkeeps hapart hP hstands).1, fun b hb => by cases hb⟩⟩
  · rw [hrun] at hle hkeeps
    obtain ⟨hle', hkeeps'⟩ := hg a w₁
    refine ⟨Nat.le_trans hle hle', fun hapart hP hstands => ?_⟩
    -- the names of either part are among those of the sequence
    obtain ⟨hbetween, hresult⟩ :=
      hkeeps (fun n hn hlt => hapart n hn (Nat.lt_of_lt_of_le hlt hle')) hP
        hstands
    exact hkeeps' (fun n hn hlt => hapart n (Nat.le_trans hle hn) hlt) ⟨hP,
      hresult a rfl⟩ hbetween

/-- What comes after a part that establishes nothing is given what
the part was given. -/
theorem andThen {g : α → Act β} (hx : f.Keeps P x fun _ => True)
    (hg : ∀ a, f.Keeps P (g a) Q') :
    f.Keeps P (x >>= g) Q' :=
  hx.bind fun a => (hg a).given And.left

theorem map {g : α → β} (hx : f.Keeps P x Q) (hQ : ∀ a, Q a → Q' (g a)) :
    f.Keeps P (g <$> x) Q' := by
  rw [map_eq_pure_bind]
  exact hx.bind fun a => Keeps.pure fun h => hQ a h.2

theorem ite {c : Prop} [Decidable c] {y : Act α} (hx : f.Keeps P x Q)
    (hy : f.Keeps P y Q) :
    f.Keeps P (if c then x else y) Q := by
  split
  · exact hx
  · exact hy

theorem attempt (hx : f.Keeps P x Q) :
    f.Keeps P (Act.attempt x) fun result => ∀ a, result = .ok a → Q a := by
  intro w
  obtain ⟨hle, hkeeps⟩ := hx w
  refine ⟨hle, fun hapart hP hstands => ?_⟩
  obtain ⟨hafter, hresult⟩ := hkeeps hapart hP hstands
  refine ⟨hafter, fun result hok a ha => hresult a ?_⟩
  have hattempt : (Act.attempt x).run w = (.ok (x.run w).1, (x.run w).2) :=
    Act.run_attempt_of rfl
  rw [hattempt] at hok
  cases hok
  exact ha

theorem within (frame : Frame) (hx : f.Keeps P x Q) :
    f.Keeps P (Act.within frame x) Q := by
  intro w
  obtain ⟨hle, hkeeps⟩ := hx w
  refine ⟨hle, fun hapart hP hstands => ?_⟩
  obtain ⟨hafter, hresult⟩ := hkeeps hapart hP hstands
  exact ⟨hafter, fun a ha =>
    hresult a (congrArg Prod.fst (Act.run_within_ok (run_of_fst_eq ha)))⟩

/-- What touches neither the disk nor the items keeps every file. -/
theorem of_still (h : Along Still x) : f.Keeps P x fun _ => True := by
  intro w
  have hstill := h w
  exact ⟨Nat.le_of_eq hstill.tokens.symm, fun _ _ hstands =>
    ⟨hstands.of_still hstill, fun _ _ => trivial⟩⟩

theorem note (event : Event) : f.Keeps P (Act.note event) fun _ => True :=
  of_still fun _ => ⟨rfl, rfl, rfl, rfl⟩

theorem warn (message : String) (fields : List Field) :
    f.Keeps P (Act.warn message fields) fun _ => True := note _

theorem print (text : String) : f.Keeps P (Act.print text) fun _ => True :=
  of_still fun _ => ⟨rfl, rfl, rfl, rfl⟩

theorem onDisk {body : Store α}
    (hbody : P → Along (Disk.Retains f.place f.entry) body)
    (hresult : P → ∀ d a, (body.run d).1 = .ok a → Q a) :
    f.Keeps P (Act.onDisk body) Q := by
  intro w
  refine ⟨Nat.le_refl _, fun _ hP hstands =>
    ⟨⟨hbody hP w.disk hstands.there, hstands.unmarked, hstands.documents⟩, ?_⟩⟩
  exact fun a ha => hresult hP w.disk a ha

theorem token : f.Keeps P Act.token fun token => ∃ n, token = Token.ofNat n ∧
    f.place.Without n := by
  intro w
  refine ⟨Nat.le_succ _, fun hapart _ hstands =>
    ⟨⟨hstands.there, hstands.unmarked, hstands.documents⟩, ?_⟩⟩
  rintro token ⟨⟩
  exact ⟨w.tokens, rfl, hapart w.tokens (Nat.le_refl _) (Nat.lt_succ_self _)⟩

theorem uniquePath (dir stem extension : String) :
    f.Keeps P (Act.uniquePath dir stem extension) fun path =>
    ∃ n, path = Path.unique dir stem extension (Token.ofNat n) ∧
    f.place.Without n := by
  refine token.bind fun token => Keeps.pure ?_
  rintro ⟨-, n, rfl, hwithout⟩
  exact ⟨n, rfl, hwithout⟩

/-- A file may be marked to be removed if its path does not lead to the place. -/
theorem track (path : String) :
    f.Keeps (Path.Misses path f.place) (Act.track path) fun _ => True := by
  intro w
  refine ⟨Nat.le_refl _, fun _ hmiss hstands =>
    ⟨⟨hstands.there, fun other hother => ?_, hstands.documents⟩,
      fun _ _ => trivial⟩⟩
  rcases List.mem_cons.mp hother with rfl | hbefore
  · exact hmiss
  · exact hstands.unmarked other hbefore

theorem modify {g : World → World} (htokens : ∀ w, (g w).tokens = w.tokens)
    (hg : P → ∀ w, f.Stands w → f.Stands (g w)) :
    f.Keeps P (modify g : Act Unit) fun _ => True :=
  fun w => ⟨Nat.le_of_eq (htokens w).symm, fun _ hP hstands =>
    ⟨hg hP w hstands, fun _ _ => trivial⟩⟩

/-- However a call ends, the file is still there after the files that the call
marked have been removed. -/
theorem after_cleaning (hx : f.Keeps P x fun _ => True) (hP : P) {w : World}
    (hapart : f.place.Apart w.tokens ((Act.cleaning x).run w).2.tokens)
    (hthere : w.disk.get? f.place = some f.entry)
    (hdocuments : ∀ h ∈ f.asked, ∀ a, w.itemAt h.slot = some (.algorithm a) →
      Path.Misses a.document f.place) :
    ((Act.cleaning x).run w).2.disk.get? f.place = some f.entry := by
  obtain ⟨-, hkeeps⟩ := hx { w with generated := [] }
  obtain ⟨hafter, -⟩ := hkeeps hapart hP ⟨hthere, fun path h =>
    (List.not_mem_nil h).elim, hdocuments⟩
  rw [Act.run_cleaning]
  dsimp only
  rw [Disk.get?_foldl_removeQuietly fun path h =>
    hafter.unmarked path (List.mem_reverse.mp h)]
  exact hafter.there

theorem locking (h : Handle) (hx : f.Keeps P x Q) :
    f.Keeps P (Act.locking h x) Q := by
  intro w
  rw [Act.run_locking]
  split
  · exact ⟨Nat.le_refl _, fun _ _ hstands => ⟨hstands, fun a ha => by cases ha⟩⟩
  · obtain ⟨hle, hkeeps⟩ := hx (w.setLocked h.slot true)
    refine ⟨hle, fun hapart hP hstands => ?_⟩
    have hlocked : f.Stands (w.setLocked h.slot true) :=
      ⟨hstands.there, hstands.unmarked, fun i hi a ha =>
        hstands.documents i hi a (by rwa [World.itemAt_setLocked] at ha)⟩
    obtain ⟨hafter, hresult⟩ := hkeeps hapart hP hlocked
    refine ⟨⟨hafter.there, hafter.unmarked, fun i hi a ha =>
      hafter.documents i hi a ?_⟩, hresult⟩
    rwa [World.itemAt_setLocked] at ha

theorem item (h : Handle) : f.Keeps (h ∈ f.asked) (Act.item h)
    fun i => ∀ a, i = .algorithm a → Path.Misses a.document f.place := by
  intro w
  rw [Act.run_item]
  refine ⟨Nat.le_refl _, fun _ hasked hstands =>
    ⟨hstands, fun i hi a ha => hstands.documents h hasked a ?_⟩⟩
  unfold World.itemAt
  cases hslot : w.slots[h.slot]? with
  | none =>
    rw [hslot] at hi
    cases hi
  | some s =>
    rw [hslot] at hi
    cases hi
    rw [Option.map_some, ha]

end Keeps

/-! ## Exports -/

variable {f : Bystander} {P : Prop}

theorem keeps_writeDocument {path : String} (value : Json)
    (hmiss : P → Path.Misses (Path.json path) f.place) :
    f.Keeps P (Act.onDisk (Document.write path value)) fun written =>
  Path.Misses written f.place := by
  refine Keeps.onDisk (fun hP => (Disk.storing_retains _ _).writeDocument
    (hmiss hP) value) fun hP d written hwritten => ?_
  rw [(Document.readText_of_write (run_of_fst_eq hwritten)).1]
  exact hmiss hP

/-- The export of an item goes to a new file, or to the document of an algorithm. -/
theorem keeps_exportAs (i : Item) (format : String) :
    f.Keeps (∀ a, i = .algorithm a → Path.Misses a.document f.place)
      (i.exportAs format)
      fun path => Path.Misses path f.place := by
  cases i with
  | database d =>
    refine Keeps.ite (Keeps.bind Keeps.token fun token => ?_)
      (Keeps.ite (Keeps.bind (Keeps.uniquePath _ _ _) fun path => ?_)
        (Keeps.fail _))
    · have hmiss : (∃ n, token = Token.ofNat n ∧ f.place.Without n) →
          Path.Misses
            (Path.npz (Path.unique d.exportDir (d.name ++ ".dbexport") "npz"
              token)) f.place := by
        rintro ⟨n, rfl, hwithout⟩
        exact (Path.bears_unique _ _ (by decide) n).npz.misses hwithout
      refine Keeps.onDisk (fun h => (Disk.storing_retains _ _).exportArchive
        (hmiss h.2) format) fun h disk path hpath => ?_
      rw [Database.eq_of_exportArchive (run_of_fst_eq hpath)]
      exact hmiss h.2
    · refine keeps_writeDocument _ ?_
      rintro ⟨-, n, rfl, hwithout⟩
      exact (Path.bears_unique _ _ (by decide) n).json.misses hwithout
  | algorithm a =>
    exact Keeps.ite (keeps_writeDocument _ fun h => h a rfl) (Keeps.fail _)
  | plain p => exact Keeps.fail _

/-- The answer to a request for an export is the path of the file. -/
theorem keeps_export {ctx : Context} {calls : Calls}
    (hcalls : calls.OfItems ctx) (h : Handle) (format : String) :
    f.Keeps (h ∈ f.asked) (calls h (.exportAs format)) fun value =>
  Path.Misses value.displayText f.place := by
  intro w
  obtain ⟨depth, hrun⟩ := hcalls h (.exportAs format) w
  rw [hrun]
  have hkeeps : f.Keeps (h ∈ f.asked) (Calls.within ctx depth h (.exportAs format))
      fun value => Path.Misses value.displayText f.place := by
    cases depth with
    | zero => exact Keeps.fail _
    | succ depth =>
      refine Keeps.locking h ((Keeps.item h).bind fun i => ?_)
      exact ((keeps_exportAs i format).given And.right).map fun path hmiss => hmiss
  exact hkeeps w

variable {ctx : Context} {calls : Calls} (hcalls : calls.OfItems ctx)

include hcalls

theorem keeps_exportItem (h : Handle) (format : String) :
    f.Keeps (h ∈ f.asked) (calls.exportItem h format) fun _ => True := by
  refine (keeps_export hcalls h format).bind fun answer => ?_
  exact ((Keeps.track _).given And.right).andThen fun _ =>
    Keeps.pure fun _ => trivial

section

-- the halves of a mutual block do not count as uses of what they share
set_option linter.unusedSectionVars false

mutual
theorem keeps_toJson : (v : Value) →
    f.Keeps (∀ h ∈ v.handles, h ∈ f.asked) (calls.toJson v) fun _ => True
  | .json _ => Keeps.pure fun _ => trivial
  | .item h => ((keeps_exportItem hcalls h _).given fun hasked =>
    hasked h (List.mem_singleton_self h)).map fun _ h => h
  | .list items => (keeps_toJsonItems items).map fun _ h => h
  | .map entries => (keeps_toJsonEntries entries).map fun _ h => h

theorem keeps_toJsonItems : (vs : List Value) →
    f.Keeps (∀ h ∈ Value.itemHandles vs, h ∈ f.asked)
      (calls.toJsonItems vs) fun _ => True
  | [] => Keeps.pure fun _ => trivial
  | v :: vs => by
    refine ((keeps_toJson v).given fun hasked h hh =>
      hasked h (List.mem_append_left _ hh)).andThen fun _ => ?_
    refine ((keeps_toJsonItems vs).given fun hasked h hh =>
      hasked h (List.mem_append_right _ hh)).andThen fun _ => ?_
    exact Keeps.pure fun _ => trivial

theorem keeps_toJsonEntries : (vs : List (String × Value)) →
    f.Keeps (∀ h ∈ Value.entryHandles vs, h ∈ f.asked)
      (calls.toJsonEntries vs) fun _ => True
  | [] => Keeps.pure fun _ => trivial
  | (_, v) :: vs => by
    refine ((keeps_toJson v).given fun hasked h hh =>
      hasked h (List.mem_append_left _ hh)).andThen fun _ => ?_
    refine ((keeps_toJsonEntries vs).given fun hasked h hh =>
      hasked h (List.mem_append_right _ hh)).andThen fun _ => ?_
    exact Keeps.pure fun _ => trivial
end

mutual
theorem keeps_renderValue (format : String) : (v : Value) →
    f.Keeps (∀ h ∈ v.handles, h ∈ f.asked)
      (ScriptRunner.renderValue calls format v) fun _ => True
  | .json _ => Keeps.pure fun _ => trivial
  | .item h => (keeps_exportItem hcalls h format).given fun hasked =>
    hasked h (List.mem_singleton_self h)
  | .list items => (keeps_renderValues format items).map fun _ h => h
  | .map _ => Keeps.pure fun _ => trivial

theorem keeps_renderValues (format : String) : (vs : List Value) →
    f.Keeps (∀ h ∈ Value.itemHandles vs, h ∈ f.asked)
      (ScriptRunner.renderValues calls format vs) fun _ => True
  | [] => Keeps.pure fun _ => trivial
  | v :: vs => by
    refine ((keeps_renderValue format v).given fun hasked h hh =>
      hasked h (List.mem_append_left _ hh)).andThen fun _ => ?_
    refine ((keeps_renderValues format vs).given fun hasked h hh =>
      hasked h (List.mem_append_right _ hh)).andThen fun _ => ?_
    exact Keeps.pure fun _ => trivial
end

end

theorem keeps_renderShared (bindings : Dict Binding) (args : Args) :
    f.Keeps (∀ h ∈ Value.entryHandles args, h ∈ f.asked)
      (ScriptRunner.renderShared calls bindings args) fun _ => True := by
  induction args with
  | nil => exact Keeps.pure fun _ => trivial
  | cons entry rest ih =>
    obtain ⟨name, value⟩ := entry
    have hrest : f.Keeps (∀ h ∈ Value.entryHandles ((name, value) :: rest),
        h ∈ f.asked)
          (ScriptRunner.renderShared calls bindings rest) fun _ => True :=
      ih.given fun hasked h hh => hasked h (List.mem_append_right _ hh)
    unfold ScriptRunner.renderShared
    split
    · exact hrest
    · refine Keeps.ite hrest (Keeps.andThen
        ((keeps_renderValue hcalls _ value).given ?_) fun _ => ?_)
      · exact fun hasked h hh => hasked h (List.mem_append_left _ hh)
      · exact hrest.andThen fun _ => Keeps.pure fun _ => trivial

end Bystander

end Playbook
