import Mathlib.Data.List.Forall2
import Mathlib.Data.List.Nodup
import Playbook.Archive
import Playbook.Proofs.Disk

/-!
# Playbook — what becomes of an archive

All values are encoded before the disk is touched, so a value that is no array
changes nothing. What the members are called is looked at only afterwards, while
they are added to a file that has been begun: what stood there is gone by then,
and the members before the one that is refused stay.

Main results:

* `encode_eq_ok`, `encode_error` — what arrays are encoded as, and which value
  is at fault if they are not.
* `accept_cases` — all members are accepted, or those before the first whose
  name is repeated.
* `outcome_write` — how writing an archive ends, and what it leaves of a disk.
* `write_sparing` — what fails because of a value changes nothing; only a
  repeated name costs what was there.
-/

namespace Playbook.Archive

open Effect

variable {arrays : List (String × Json)} {members : List (String × List UInt8)}

/-! ## Members -/

/-- Each array, in order, has made one member: it is named after the array and
holds its bytes. -/
def MembersOf (arrays : List (String × Json))
    (members : List (String × List UInt8)) : Prop :=
  List.Forall₂ (fun array member => member.1 = array.1 ++ ".npy" ∧
    Npy.encode array.2 = .ok member.2) arrays members

theorem MembersOf.names (h : MembersOf arrays members) :
    members.map (·.1) = arrays.map (·.1 ++ ".npy") := by
  unfold MembersOf at h
  induction h with
  | nil => rfl
  | cons hfirst _ ih => rw [List.map_cons, List.map_cons, hfirst.1, ih]

/-- Members have different names exactly if the arrays have. -/
theorem MembersOf.nodup_iff (h : MembersOf arrays members) :
    (members.map (·.1)).Nodup ↔ (arrays.map (·.1)).Nodup := by
  have hsuffix : arrays.map (·.1 ++ ".npy") =
      (arrays.map (·.1)).map (· ++ ".npy") := by
    rw [List.map_map]
    rfl
  rw [h.names, hsuffix]
  exact List.nodup_map_iff fun _ _ => (String.append_left_inj ".npy").mp

/-- An array whose name is that of one before it makes the names repeat. -/
theorem not_nodup_of_again {before after : List (String × Json)}
    {again : String × Json} (harrays : arrays = before ++ again :: after)
    (hagain : again.1 ∈ before.map (·.1)) : ¬ (arrays.map (·.1)).Nodup := by
  intro hnodup
  rw [harrays, List.map_append, List.map_cons] at hnodup
  exact (List.nodup_append.mp hnodup).2.2 _ hagain _ (List.mem_cons_self ..) rfl

/-- Members that come before a certain one are made of the arrays
before its array. -/
theorem MembersOf.split {before after : List (String × List UInt8)}
    {member : String × List UInt8}
    (h : MembersOf arrays (before ++ member :: after)) :
    ∃ first array rest, arrays = first ++ array :: rest ∧
    MembersOf first before ∧ member.1 = array.1 ++ ".npy" := by
  obtain ⟨array, rest, hmember, -, hdrop⟩ :=
    List.forall₂_cons_right_iff.mp (List.forall₂_drop_append _ _ _ h)
  refine ⟨arrays.take before.length, array, rest, ?_,
    List.forall₂_take_append _ _ _ h, hmember.1⟩
  rw [← hdrop, List.take_append_drop]

theorem encode_eq_ok : encode arrays = .ok members ↔ MembersOf arrays members := by
  -- both sides take the arrays one after the other, and either gives the members
  induction arrays generalizing members with
  | nil =>
    constructor
    · intro h
      cases h
      exact List.Forall₂.nil
    · rintro ⟨⟩
      rfl
  | cons array rest ih =>
    obtain ⟨name, value⟩ := array
    rw [encode]
    constructor
    · intro h
      cases hvalue : Npy.encode value with
      | error fault =>
        rw [hvalue] at h
        cases h
      | ok bytes =>
        cases hrest : encode rest with
        | error failure =>
          rw [hvalue, hrest] at h
          cases h
        | ok others =>
          rw [hvalue, hrest] at h
          cases h
          exact List.Forall₂.cons ⟨rfl, hvalue⟩ (ih.mp hrest)
    · intro h
      obtain ⟨⟨_, bytes⟩, others, ⟨rfl, hvalue⟩, hrest, rfl⟩ :=
        List.forall₂_cons_left_iff.mp h
      rw [hvalue, ih.mpr hrest]
      rfl

/-- Encoding fails with the first value that is no array. -/
theorem encode_error {failure : Failure} (h : encode arrays = .error failure) :
    ∃ before earlier name value fault after,
      arrays = before ++ (name, value) :: after ∧ MembersOf before earlier ∧
      Npy.encode value = .error fault ∧ failure = Cause.array name fault := by
  induction arrays with
  | nil => cases h
  | cons array rest ih =>
    obtain ⟨name, value⟩ := array
    rw [encode] at h
    cases hvalue : Npy.encode value with
    | error fault =>
      rw [hvalue] at h
      cases h
      exact ⟨[], [], name, value, fault, rest, rfl, List.Forall₂.nil, hvalue, rfl⟩
    | ok bytes =>
      cases hrest : encode rest with
      | ok others =>
        rw [hvalue, hrest] at h
        cases h
      | error other =>
        rw [hvalue, hrest] at h
        cases h
        obtain ⟨before, earlier, later, wrong, fault, after, rfl, hearlier,
          hfault, hfailure⟩ := ih hrest
        exact ⟨(name, value) :: before, (name ++ ".npy", bytes) :: earlier,
          later, wrong, fault, after, rfl,
          List.Forall₂.cons ⟨rfl, hvalue⟩ hearlier, hfault, hfailure⟩

/-- What is accepted has names of its own, which were not there before. -/
theorem fresh_accept (names : List String) (members : List (String × List UInt8)) :
    ((accept names members).1.map (·.1)).Nodup ∧
    ∀ name ∈ (accept names members).1.map (·.1), name ∉ names := by
  induction members generalizing names with
  | nil => exact ⟨List.nodup_nil, fun _ h => (List.not_mem_nil h).elim⟩
  | cons member rest ih =>
    obtain ⟨name, bytes⟩ := member
    rw [accept]
    split
    · exact ⟨List.nodup_nil, fun _ h => (List.not_mem_nil h).elim⟩
    · next hnew =>
      obtain ⟨hnodup, hfresh⟩ := ih (name :: names)
      dsimp only
      rw [List.map_cons]
      refine ⟨List.nodup_cons.mpr ⟨fun hmem =>
        hfresh name hmem (List.mem_cons_self ..), hnodup⟩,
        fun other hother => ?_⟩
      rcases List.mem_cons.mp hother with rfl | hlater
      · exact fun hthere => hnew (List.contains_iff_mem.mpr hthere)
      · exact fun hthere => hfresh other hlater (List.mem_cons_of_mem _ hthere)

/-- All members are accepted, or those before the first whose name
was there already. -/
theorem accept_cases (names : List String) (members : List (String × List UInt8)) :
    accept names members = (members, false) ∨
      ∃ before again after, members = before ++ again :: after ∧
        accept names members = (before, true) ∧
        again.1 ∈ names ++ before.map (·.1) := by
  induction members generalizing names with
  | nil => exact Or.inl rfl
  | cons member rest ih =>
    obtain ⟨name, bytes⟩ := member
    rw [accept]
    split
    · next hthere =>
      exact Or.inr ⟨[], (name, bytes), rest, rfl, rfl,
        List.mem_append_left _ (List.contains_iff_mem.mp hthere)⟩
    · rcases ih (name :: names) with hall |
        ⟨before, again, after, rfl, hsome, hagain⟩
      · rw [hall]
        exact Or.inl rfl
      · rw [hsome]
        refine Or.inr ⟨(name, bytes) :: before, again, after, rfl, rfl, ?_⟩
        -- the name that was accepted in between stands in the middle
        rw [List.map_cons, List.mem_append, List.mem_cons]
        rw [List.cons_append, List.mem_cons, List.mem_append] at hagain
        tauto

/-! ## Writing -/

/-- Creating the directory of a file fails, or writing the file where it is done
with the directories. What was done until then is left: directories, and what
the file holds when its writing breaks off. -/
inductive Refuses (path : String) (d : Disk) : IoKind → Disk → Prop
  | directory {parent : String} {kind : IoKind} {d' : Disk}
      (hparent : Path.parent? path = some parent)
      (hdirectories : d.GainsDirectories d')
      (hrefuse : d.makeDirectories parent = (.error kind, d')) :
      Refuses path d kind d'
  | file {kind : IoKind} {content : Content} {d₁ d' : Disk}
      (hdirectories : d.GainsDirectories d₁)
      (hrefuse : d₁.write path content = (.error kind, d')) : Refuses path d kind d'

/-- What is left where the file system refuses a file are directories, and the
file if its writing has broken off. -/
theorem Refuses.gains_or_broken {path : String} {d d' : Disk} {kind : IoKind}
    (h : Refuses path d kind d') : d.GainsDirectories d' ∨
    d.BrokenWrite path d' := by
  cases h with
  | directory _ hdirectories => exact Or.inl hdirectories
  | file hdirectories hrefuse =>
    rcases Disk.eq_or_broken_of_write_error hrefuse with rfl | hbroken
    · exact Or.inl hdirectories
    · exact Or.inr (hbroken.after hdirectories)

/-- How writing an archive at a path ends, and what it makes of a disk. -/
inductive Outcome (path : String) (arrays : List (String × Json)) (d : Disk) :
  Except Failure String → Disk → Prop
  /-- The first value that is no array is told, and nothing has been done. -/
  | faulty {before after : List (String × Json)}
      {earlier : List (String × List UInt8)} {name : String} {value : Json}
      {fault : Npy.Fault} (harrays : arrays = before ++ (name, value) :: after)
      (hearlier : MembersOf before earlier)
      (hfault : Npy.encode value = .error fault) :
      Outcome path arrays d (.error (Cause.array name fault)) d
  | blocked {members : List (String × List UInt8)} {kind : IoKind} {d' : Disk}
      (hmembers : MembersOf arrays members)
      (hrefuses : Refuses path d kind d') :
      Outcome path arrays d (.error (Cause.archiveIo kind)) d'
  /-- The first array whose name is repeated is refused, and the file holds
  those before it. -/
  | refused {members earlier : List (String × List UInt8)}
      {before after : List (String × Json)} {again : String × Json}
      {d' : Disk} (hmembers : MembersOf arrays members)
      (harrays : arrays = before ++ again :: after)
      (hearlier : MembersOf before earlier)
      (hdistinct : (before.map (·.1)).Nodup)
      (hagain : again.1 ∈ before.map (·.1))
      (hstored : d.Stored path (.archive earlier) d') :
      Outcome path arrays d (.error (Failure.of .archiveMember)) d'
  | written {members : List (String × List UInt8)} {d' : Disk}
      (hmembers : MembersOf arrays members)
      (hdistinct : (arrays.map (·.1)).Nodup)
      (hstored : d.Stored path (.archive members) d') :
      Outcome path arrays d (.ok path) d'

theorem outcome_write (path : String) (arrays : List (String × Json)) (d : Disk) :
    Outcome (Path.npz path) arrays d ((write path arrays).run d).1
      ((write path arrays).run d).2 := by
  unfold write
  cases hencode : encode arrays with
  | error failure =>
    -- the values come first, so the disk has not been looked at
    obtain ⟨before, earlier, name, value, fault, after, harrays, hearlier,
      hfault, rfl⟩ := encode_error hencode
    exact .faulty harrays hearlier hfault
  | ok members =>
    have hmembers := encode_eq_ok.mp hencode
    rw [run_bind_of_ok (run_liftM (.ok members) d)]
    obtain ⟨d₁, hdirectories, hrun | ⟨parent, kind, hparent, hrefuse, hrun⟩⟩ :=
      Store.run_makeParent .archiveIo (Path.npz path) d
    · rw [run_bind_of_ok hrun]
      obtain ⟨hdistinct, -⟩ := fresh_accept [] members
      rcases Store.run_change .archiveIo
          (·.write (Path.npz path) (.archive (accept [] members).1)) d₁ with
        ⟨d', hwrite, hrun⟩ | ⟨kind, d', hrefuse, hrun⟩
      · rw [run_bind_of_ok hrun]
        have hstored := Disk.stored_write hdirectories hwrite
        rcases accept_cases [] members with
          haccept | ⟨before, again, after, rfl, haccept, hagain⟩
        · rw [haccept] at hdistinct hstored ⊢
          exact .written hmembers (hmembers.nodup_iff.mp hdistinct) hstored
        · rw [haccept] at hdistinct hstored ⊢
          obtain ⟨first, array, rest, harrays, hfirst, hname⟩ := hmembers.split
          refine .refused hmembers harrays hfirst
            (hfirst.nodup_iff.mp hdistinct) ?_ hstored
          -- members with one name are made of arrays with one name
          rw [List.nil_append, hname, hfirst.names] at hagain
          obtain ⟨other, hother, hsame⟩ := List.mem_map.mp hagain
          exact List.mem_map.mpr ⟨other, hother,
            (String.append_left_inj ".npy").mp hsame⟩
      · rw [run_bind_of_error hrun]
        exact .blocked hmembers (.file hdirectories hrefuse)
    · rw [run_bind_of_error hrun]
      exact .blocked hmembers (.directory hparent hdirectories hrefuse)

/-- The failure tells of what was to be written, not of the file system. -/
def FromInput (failure : Failure) : Prop :=
  failure.cause = .archiveMember ∨ ∃ name fault, failure.cause = .array name fault

/-- **An archive that is rejected leaves no trace, unless a name was repeated.**
Writing ends in one of the four ways that `Outcome` tells. So if it fails
because of what was to be written, every place of the disk is as before, except
where all values are arrays and two have one name. If it succeeds, the file at
the path holds one member for each array, in order. -/
theorem write_sparing (path : String) (arrays : List (String × Json)) (d : Disk) :
    ∃ result d', (write path arrays).run d = (result, d') ∧
      Outcome (Path.npz path) arrays d result d' ∧
      (∀ failure, result = .error failure → FromInput failure →
        d' = d ∨ ((∃ members, MembersOf arrays members) ∧
          ¬ (arrays.map (·.1)).Nodup)) ∧
      ∀ written, result = .ok written →
        written = Path.npz path ∧ ∃ members, MembersOf arrays members ∧
        d'.read written = .ok (.archive members) := by
  have houtcome := outcome_write path arrays d
  rcases hrun : (write path arrays).run d with ⟨result, d'⟩
  rw [hrun] at houtcome
  refine ⟨result, d', rfl, houtcome, ?_, ?_⟩
  · rintro failure rfl hinput
    cases houtcome with
    | faulty harrays hearlier hfault => exact Or.inl rfl
    | blocked hmembers hrefuses =>
      -- what the file system refuses is not the fault of the values
      rcases hinput with hmember | ⟨name, fault, harray⟩
      · cases hmember
      · cases harray
    | refused hmembers harrays hearlier hdistinct hagain hstored =>
      exact Or.inr ⟨⟨_, hmembers⟩, not_nodup_of_again harrays hagain⟩
  · rintro written rfl
    cases houtcome with
    | written hmembers hdistinct hstored => exact ⟨rfl, _, hmembers, hstored.read⟩

/-- The second `x` is refused when the file has been begun, and the text that
stood there is gone. -/
theorem overwritten_by_rejected :
    let d := Disk.empty.put ["a.npz"] (.file (.text "old") false)
    let arrays : List (String × Json) :=
      [("x", .num (.integer 1)), ("x", .num (.integer 2))]
    d.readText "a.npz" = .ok "old" ∧ ∃ failure d',
      (write "a.npz" arrays).run d = (.error failure, d') ∧
      FromInput failure ∧ d'.readText "a.npz" ≠ .ok "old" := by
  intro d arrays
  obtain ⟨failure, d', hrun, hcheck⟩ :=
    exists_of_check ((write "a.npz" arrays).run d)
      (fun failure d' => failure.cause = .archiveMember ∧
        d'.readText "a.npz" ≠ .ok "old") (by decide +kernel)
  obtain ⟨hcause, hgone⟩ := of_decide_eq_true hcheck
  exact ⟨by decide +kernel, failure, d', hrun, Or.inl hcause, hgone⟩

end Playbook.Archive
