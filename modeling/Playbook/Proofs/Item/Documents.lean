import Playbook.Proofs.Document
import Playbook.Proofs.Registry.Free

/-!
# Playbook — the documents of items

An item that is serialized without a path writes its state to the document of
its name in its working directory. Which file that is depends on the text of the
path and the directory in which the engine works. Two items of one directory
have different documents unless one name is the other with the extension of
documents: such a name is not extended any more, and the item that is serialized
last is the one whose state is left.

Main results:

* `Document.spares_write` — writing a document changes no file at another place,
  however it ends.
* `Item.run_all_of_saves` — serializing an item writes its state to its document
  and changes nothing but the disk.
* `Item.place_document_eq_iff`, `Item.place_document_eq_iff_twin` — which names
  have the same document.
* `Item.keeps_unless_same_place` — after two items were serialized each document
  holds the state of its item, unless both are the same.
-/

namespace Playbook

open Effect

/-! ## What is left of other documents -/

namespace Disk

/-- All directories are still there, and away from the place of the path so are
all files, and only directories are new. -/
structure Spares (path : String) (d d' : Disk) : Prop where
  cwd : d'.cwd = d.cwd
  directories : ∀ other, d.get? other = some .directory →
    d'.get? other = some .directory
  others : ∀ other, other ≠ d.place path →
    d'.get? other = d.get? other ∨
    d.get? other = none ∧ d'.get? other = some .directory

theorem chains_spares (path : String) : Chains (Spares path) where
  refl _ := ⟨rfl, fun _ h => h, fun _ _ => Or.inl rfl⟩
  trans {a b c} h k := by
    refine ⟨k.cwd.trans h.cwd, fun other hdir =>
      k.directories other (h.directories other hdir),
      fun other hother => ?_⟩
    rcases h.others other hother with hsame | ⟨hnone, hdir⟩
    · rw [← hsame]
      exact k.others other (by rwa [place_of_cwd h.cwd])
    · exact Or.inr ⟨hnone, k.directories other hdir⟩

theorem GainsDirectories.spares {d d' : Disk} (h : d.GainsDirectories d')
    (path : String) :
    Spares path d d' :=
  ⟨h.cwd, fun _ => h.get?_of_some, fun other _ => h.places other⟩

theorem spares_write (d : Disk) (path : String) (content : Content) :
    Spares path d (d.write path content).2 := by
  rcases write_leaves d path content with
    hsame | ⟨place, left, executable, hlocate, hplace, hput⟩
  · rw [hsame]
    exact (chains_spares _).refl d
  · rw [hput]
    obtain rfl := (locate_ok hlocate).1
    exact ⟨rfl, fun _ => directory_put hplace,
      fun other hother => Or.inl (get?_put_of_ne (Ne.symm hother) d _)⟩

/-- A file at another place still reads as it did. -/
theorem Spares.read {written : String} {d d' : Disk} (h : Spares written d d')
    {path : String} {content : Content}
    (hplace : d.place path ≠ d.place written)
    (hread : d.read path = .ok content) :
    d'.read path = .ok content := by
  obtain ⟨hlocate, executable, hget⟩ := read_eq_ok.mp hread
  rw [read_eq_ok, place_of_cwd h.cwd]
  refine ⟨locate_of_directories h.cwd h.directories hlocate, executable, ?_⟩
  rcases h.others _ hplace with hsame | ⟨hnone, -⟩
  · rw [hsame, hget]
  · rw [hnone] at hget
    cases hget

end Disk

/-- Writing a document changes no file at another place, however it ends. -/
theorem Document.spares_write (path : String) (value : Json) :
    Along (Disk.Spares (Path.json path)) (Document.write path value) := by
  have hR := Disk.chains_spares (Path.json path)
  have hparent : Along (Disk.Spares (Path.json path))
      (Store.makeParent (.documentIo (Path.json path)) (Path.json path)) := fun d =>
    (Store.gainsDirectories_makeParent _ _ d).spares _
  exact Along.bind hR hparent fun _ =>
    Along.bind hR (Store.along_change fun d => Disk.spares_write d _ _) fun _ =>
      Along.pure hR _

/-! ## Serializing -/

namespace Item

/-- The document that an item is serialized to if no path is given. -/
def document (i : Item) : String := Path.json (Path.join i.workdir i.name)

/-- The request writes the state of the item without a path: every item can be
serialized so, and algorithms are exported so. -/
inductive Saves : Item → Request → Prop where
  | serialize (i : Item) : Saves i (.serialize "json" none)
  | exported (a : Algorithm) : Saves (.algorithm a) (.exportAs "serialize")

theorem serialize_json (i : Item) (path : Option String) :
    i.serialize "json" path = Document.write
      (path.getD (Path.join i.workdir i.name)) i.state.toJson := by
  unfold serialize
  rw [if_neg (not_not_intro rfl)]

theorem answer_of_saves {i : Item} {request : Request} (h : Saves i request)
    (ctx : Context) (calls : Calls) (handle : Handle) :
    i.answer ctx calls handle request =
      .ofText <$> Act.onDisk
        (Document.write (Path.join i.workdir i.name) i.state.toJson) := by
  cases h with
  | serialize =>
    rw [answer, serialize_json]
    rfl
  | exported a =>
    rw [answer, exportAs, if_pos rfl, serialize_json]
    rfl

/-- Serializing an item that is free writes its state to its document and
changes nothing but the disk. -/
theorem run_all_of_saves {i : Item} {request : Request} (h : Saves i request)
    {w : World} {handle : Handle}
    (hfree : w.slots[handle.slot]? = some ⟨i, false⟩) (ctx : Context) :
    (Calls.all ctx handle request).run w =
      (((Document.write (Path.join i.workdir i.name) i.state.toJson).run
        w.disk).1.map .ofText,
        { w with
          disk :=
            ((Document.write (Path.join i.workdir i.name) i.state.toJson).run
              w.disk).2 }) := by
  have hunlock : ∀ disk,
      ({ w.setLocked handle.slot true with disk } : World).setLocked handle.slot
      false = { w with disk } :=
    fun disk => congrArg (fun v : World => ({ v with disk } : World))
      (World.setLocked_setLocked hfree)
  rw [Calls.run_all_of_free hfree, answer_of_saves h]
  dsimp only
  rw [run_map, Act.run_onDisk]
  have hdisk : (w.setLocked handle.slot true).disk = w.disk := rfl
  rw [hdisk]
  rcases (Document.write (Path.join i.workdir i.name) i.state.toJson).run
    w.disk with ⟨failure | written, disk⟩
  · exact Prod.ext rfl (hunlock disk)
  · exact Prod.ext rfl (hunlock disk)

/-! ## Which names have the same document -/

/-- The second name is the first one with the extension of documents, which the
first one is without. -/
def Twin (name other : String) : Prop :=
  other = name ++ ".json" ∧ Path.isJson name = false

theorem json_eq_iff {name other : String} (hname : Path.IsName name)
    (hother : Path.IsName other) (hne : name ≠ other) :
    Path.json name = Path.json other ↔ Twin name other ∨ Twin other name := by
  unfold Path.json Twin
  cases hn : Path.isJson name with
  | true =>
    cases ho : Path.isJson other with
    | true => simpa using hne
    | false => simp
  | false =>
    cases ho : Path.isJson other with
    | true => simpa using eq_comm
    | false =>
      -- both are extended, and an extended name would be one of a document
      have hjson : ∀ {s t : String}, Path.IsName s → Path.isJson t = false →
          t ≠ s ++ ".json" := by
        rintro s t hs ht rfl
        rw [(Path.isJson_append s).mpr hs.not_unnamed] at ht
        cases ht
      refine iff_of_false (fun hsame =>
        hne (String.append_left_inj _ |>.mp hsame)) ?_
      rintro (⟨htwin, -⟩ | ⟨htwin, -⟩)
      · exact hjson hname ho htwin
      · exact hjson hother hn htwin

/-- Two items of one directory whose names lead below it have the same document
exactly if the documents of their names have the same components. -/
theorem place_document_eq_iff (d : Disk) {i j : Item} (hi : Path.Below i.name)
    (hj : Path.Below j.name) (hdir : i.workdir = j.workdir) :
    d.place i.document = d.place j.document ↔
      Path.components (Path.json i.name) = Path.components (Path.json j.name) := by
  unfold document
  rw [hi.place_json_join, hj.place_json_join, hdir, List.append_cancel_left_eq]
  exact (List.map_injective_iff.mpr fun _ _ hsame =>
    String.ofList_injective hsame).eq_iff

/-- If the names are single components, one of them is the other with the
extension of documents. -/
theorem place_document_eq_iff_twin (d : Disk) {i j : Item}
    (hi : Path.IsName i.name) (hj : Path.IsName j.name) (hne : i.name ≠ j.name)
    (hdir : i.workdir = j.workdir) :
    d.place i.document = d.place j.document ↔
    Twin i.name j.name ∨ Twin j.name i.name := by
  rw [place_document_eq_iff d hi.below hj.below hdir,
    hi.json_name.1.components_eq, hj.json_name.1.components_eq,
    List.cons.injEq, and_iff_left rfl, String.toList_inj, json_eq_iff hi hj hne]

/-! ## Two items -/

section

variable {i i₁ i₂ : Item} {r r₁ r₂ : Request} {ctx : Context} {h h₁ h₂ : Handle}
  {w w' w₁ w₂ : World}

/-- An item that was serialized has its state in its document, and no file
elsewhere has changed. -/
theorem stored_of_saves (hsaves : Saves i r)
    (hfree : w.slots[h.slot]? = some ⟨i, false⟩) {a : Value}
    (hrun : (Calls.all ctx h r).run w = (.ok a, w')) :
    a = .ofText i.document ∧ w'.disk.read i.document =
    .ok (.text i.state.toJson.pretty) ∧ w'.slots = w.slots := by
  rw [run_all_of_saves hsaves hfree] at hrun
  rcases hwrite : (Document.write (Path.join i.workdir i.name)
    i.state.toJson).run w.disk with ⟨failure | written, disk⟩
  · rw [hwrite] at hrun
    cases hrun
  · rw [hwrite] at hrun
    cases hrun
    obtain ⟨rfl, disk₁, hstored⟩ := Document.run_write_ok hwrite
    exact ⟨rfl, Disk.read_write hstored, rfl⟩

/-- However serializing an item ends, it changes no file but its document. -/
theorem spares_of_saves (hsaves : Saves i r)
    (hfree : w.slots[h.slot]? = some ⟨i, false⟩) {result : Except Failure Value}
    (hrun : (Calls.all ctx h r).run w = (result, w')) :
    Disk.Spares i.document w.disk w'.disk := by
  rw [run_all_of_saves hsaves hfree] at hrun
  have hdisk : w'.disk =
      ((Document.write (Path.join i.workdir i.name) i.state.toJson).run
        w.disk).2 := by
    rw [← (Prod.mk.inj hrun).2]
  rw [hdisk, document]
  exact Document.spares_write (Path.join i.workdir i.name) i.state.toJson w.disk

/-- When two items of one directory are serialized one after the other, the first
document is left as it is if the second leads to another place, and it holds the
state of the second item if not. Among names that lead below the directory that is
the case exactly if their documents have the same components, and among single
components if one is the other with the extension of documents. -/
theorem keeps_unless_same_place (hnames : i₁.name ≠ i₂.name)
    (hdir : i₁.workdir = i₂.workdir) (hsaves₁ : Saves i₁ r₁)
    (hsaves₂ : Saves i₂ r₂) (hfree₁ : w.slots[h₁.slot]? = some ⟨i₁, false⟩)
    (hfree₂ : w.slots[h₂.slot]? = some ⟨i₂, false⟩) {a₁ : Value}
    {result : Except Failure Value}
    (hrun₁ : (Calls.all ctx h₁ r₁).run w = (.ok a₁, w₁))
    (hrun₂ : (Calls.all ctx h₂ r₂).run w₁ = (result, w₂)) :
    a₁ = .ofText i₁.document ∧
      (w.disk.place i₁.document ≠ w.disk.place i₂.document →
        w₂.disk.read i₁.document = .ok (.text i₁.state.toJson.pretty)) ∧
      (∀ a₂, result = .ok a₂ →
        a₂ = .ofText i₂.document ∧
        w₂.disk.read i₂.document = .ok (.text i₂.state.toJson.pretty) ∧
        (w.disk.place i₁.document = w.disk.place i₂.document →
          w₂.disk.read i₁.document = .ok (.text i₂.state.toJson.pretty))) ∧
      (Path.Below i₁.name → Path.Below i₂.name →
        (w.disk.place i₁.document = w.disk.place i₂.document ↔
          Path.components (Path.json i₁.name) =
          Path.components (Path.json i₂.name))) ∧
      (Path.IsName i₁.name → Path.IsName i₂.name →
        (w.disk.place i₁.document = w.disk.place i₂.document ↔
          Twin i₁.name i₂.name ∨ Twin i₂.name i₁.name)) := by
  obtain ⟨hanswer, hread₁, hslots⟩ := stored_of_saves hsaves₁ hfree₁ hrun₁
  have hfree : w₁.slots[h₂.slot]? = some ⟨i₂, false⟩ := hslots ▸ hfree₂
  have hspares := spares_of_saves hsaves₂ hfree hrun₂
  -- neither run moves the working directory, so a path has one place throughout
  have hplaces : ∀ path, w₁.disk.place path = w.disk.place path :=
    Disk.place_of_cwd (spares_of_saves hsaves₁ hfree₁ hrun₁).cwd
  refine ⟨hanswer, fun hplace =>
    hspares.read (by rwa [hplaces, hplaces]) hread₁, ?_,
    fun hi hj => place_document_eq_iff _ hi hj hdir, fun hi hj =>
      place_document_eq_iff_twin _ hi hj hnames hdir⟩
  rintro a₂ rfl
  obtain ⟨hanswer₂, hread₂, -⟩ := stored_of_saves hsaves₂ hfree hrun₂
  refine ⟨hanswer₂, hread₂, fun hplace => ?_⟩
  -- the first path still leads to its place, where the second file stands now
  obtain ⟨hlocate, -⟩ := Disk.read_eq_ok.mp hread₁
  obtain ⟨-, executable, hget⟩ := Disk.read_eq_ok.mp hread₂
  have hsame : w₂.disk.place i₁.document = w₂.disk.place i₂.document := by
    rw [Disk.place_of_cwd hspares.cwd, Disk.place_of_cwd hspares.cwd, hplaces,
      hplaces, hplace]
  refine Disk.read_eq_ok.mpr ⟨?_, executable, by rw [hsame, hget]⟩
  rw [Disk.place_of_cwd hspares.cwd]
  exact Disk.locate_of_directories hspares.cwd hspares.directories hlocate

end

/-- An algorithm that is exported and an item that is serialized keep their
states, if the names are of different stems. -/
theorem keeps_other_stem :
    let i₁ : Item :=
      .algorithm
        { name := "a", actions := [], config := [("n", .bool true)], workdir := "wd" }
    let i₂ : Item :=
      .plain { name := "b.json", workdir := "wd", state := .bool false }
    let w : World := { disk := .empty, slots := [⟨i₁, false⟩, ⟨i₂, false⟩] }
    let ctx : Context := {
      settings := {}
      host :=
        { start := fun _ _ disk => .ok { status := .exited 0, disk }
          elapsed := fun _ => 0
          horizon := 1 } }
    ∃ a₁ a₂ w₁ w₂, (Calls.all ctx ⟨"a", 0⟩ (.exportAs "serialize")).run w =
      (.ok a₁, w₁) ∧
      (Calls.all ctx ⟨"b.json", 1⟩ (.serialize "json" none)).run w₁ = (.ok a₂, w₂) ∧
      a₁ = .ofText "wd/a.json" ∧ a₂ = .ofText "wd/b.json" ∧
      w₂.disk.read "wd/a.json" = .ok (.text i₁.state.toJson.pretty) ∧
      w₂.disk.read "wd/b.json" = .ok (.text i₂.state.toJson.pretty) := by
  intro i₁ i₂ w ctx
  obtain ⟨a₁, w₁, hrun₁, -⟩ :=
    exists_ok_of_check ((Calls.all ctx ⟨"a", 0⟩ (.exportAs "serialize")).run w)
      (fun _ _ => true) (by decide +kernel)
  obtain ⟨a₂, w₂, hrun₂, -⟩ := exists_ok_of_check
    ((Calls.all ctx ⟨"b.json", 1⟩ (.serialize "json" none)).run
      ((Calls.all ctx ⟨"a", 0⟩ (.exportAs "serialize")).run w).2)
    (fun _ _ => true) (by decide +kernel)
  rw [hrun₁] at hrun₂
  have hnames : i₁.name ≠ i₂.name := by decide
  have hdir : i₁.workdir = i₂.workdir := rfl
  obtain ⟨hanswer₁, hkept, hsecond, -⟩ :=
    keeps_unless_same_place hnames hdir (.exported _)
      (.serialize _) rfl rfl hrun₁ hrun₂
  obtain ⟨hanswer₂, hread₂, -⟩ := hsecond a₂ rfl
  have hread₁ := hkept (by decide +kernel)
  have hdocuments : i₁.document = "wd/a.json" ∧ i₂.document = "wd/b.json" := by
    decide +kernel
  rw [hdocuments.1] at hanswer₁ hread₁
  rw [hdocuments.2] at hanswer₂ hread₂
  exact ⟨a₁, a₂, w₁, w₂, hrun₁, hrun₂, hanswer₁, hanswer₂, hread₁, hread₂⟩

/-- Of two algorithms whose names differ by the extension of documents only the
one that is exported last keeps its state. -/
theorem overwritten_by_twin :
    ¬ ∀ (i₁ i₂ : Item) (r₁ r₂ : Request) (ctx : Context) (h₁ h₂ : Handle)
    (w w₁ w₂ : World)
    (a₁ a₂ : Value), i₁.name ≠ i₂.name → i₁.workdir = i₂.workdir →
      Saves i₁ r₁ → Saves i₂ r₂ →
      w.slots[h₁.slot]? = some ⟨i₁, false⟩ → w.slots[h₂.slot]? = some ⟨i₂, false⟩ →
      (Calls.all ctx h₁ r₁).run w = (.ok a₁, w₁) →
        (Calls.all ctx h₂ r₂).run w₁ = (.ok a₂, w₂) →
        w₂.disk.read i₁.document = .ok (.text i₁.state.toJson.pretty) := by
  intro hclaim
  let i₁ : Item :=
    .algorithm { name := "a", actions := [], config := [], workdir := "wd" }
  let i₂ : Item :=
    .algorithm
      { name := "a.json", actions := [], config := [], workdir := "wd" }
  let w : World := { disk := .empty, slots := [⟨i₁, false⟩, ⟨i₂, false⟩] }
  let ctx : Context := {
    settings := {}
    host :=
      { start := fun _ _ disk => .ok { status := .exited 0, disk }
        elapsed := fun _ => 0
        horizon := 1 } }
  let run₁ := (Calls.all ctx ⟨"a", 0⟩ (.exportAs "serialize")).run w
  let run₂ := (Calls.all ctx ⟨"a.json", 1⟩ (.exportAs "serialize")).run run₁.2
  obtain ⟨a₁, w₁, hrun₁, -⟩ :=
    exists_ok_of_check run₁ (fun _ _ => true) (by decide +kernel)
  obtain ⟨a₂, w₂, hrun₂, hlost⟩ := exists_ok_of_check run₂
    (fun _ w => match w.disk.read i₁.document with
      | .ok content => content ≠ .text i₁.state.toJson.pretty
      | .error _ => false) (by decide +kernel)
  have hsecond : (Calls.all ctx ⟨"a.json", 1⟩ (.exportAs "serialize")).run w₁ =
      (.ok a₂, w₂) := by
    rw [← hrun₂]
    exact congrArg (fun run =>
      (Calls.all ctx ⟨"a.json", 1⟩ (.exportAs "serialize")).run (Prod.snd run))
      hrun₁.symm
  have hkept := hclaim i₁ i₂ _ _ ctx ⟨"a", 0⟩ ⟨"a.json", 1⟩ w w₁ w₂ a₁ a₂
    (by decide) rfl (.exported _) (.exported _) rfl rfl
    hrun₁ hsecond
  rw [hkept] at hlost
  exact absurd rfl (of_decide_eq_true hlost)

end Item

end Playbook
