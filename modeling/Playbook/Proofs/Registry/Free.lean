import Mathlib.Logic.Relation
import Playbook.Proofs.Registry

/-!
# Playbook — items between requests

An item is locked only while it carries out a request. However a request ends,
it leaves the locks as it found them; so whenever nothing is asked of them, all
items of a registry that was made and changed are free. While it is locked, an
item is changed by nothing but the request that it carries out.

Main results:

* `World.lasting_sameLocks` — every request leaves the locks as it found them.
* `Calls.run_within_of_free` — a request to a free item is carried out with the
  item locked for the time.
* `Calls.staysBusy_within`, `Calls.makes_within` — a locked item is left alone,
  and a free one becomes what the request makes of it.
* `Registry.Reached.free` — the items of a registry that was made
  and changed are free.
-/

namespace Playbook

open Effect

namespace World

/-- There is an item in the slot, and it is not carrying out a request. -/
def FreeAt (w : World) (slot : Nat) : Prop :=
  ∃ item, w.slots[slot]? = some ⟨item, false⟩

/-- No item has gone, and those that were free still are. -/
structure LeavesFree (w w' : World) : Prop where
  there : w.slots.length ≤ w'.slots.length
  free : ∀ slot, w.FreeAt slot → w'.FreeAt slot

theorem FreeAt.isLocked {w : World} {slot : Nat} (h : w.FreeAt slot) :
    w.isLocked slot = false := by
  obtain ⟨item, hitem⟩ := h
  unfold World.isLocked
  rw [hitem]

theorem freeAt_iff {w : World} {slot : Nat} :
    w.FreeAt slot ↔ slot < w.slots.length ∧ w.isLocked slot = false := by
  constructor
  · intro h
    obtain ⟨item, hitem⟩ := h
    exact ⟨(List.getElem?_eq_some_iff.mp hitem).1, FreeAt.isLocked ⟨item, hitem⟩⟩
  · rintro ⟨hlt, hfree⟩
    unfold isLocked at hfree
    rw [List.getElem?_eq_getElem hlt] at hfree
    dsimp only at hfree
    refine ⟨w.slots[slot].item, ?_⟩
    rw [List.getElem?_eq_getElem hlt, ← hfree]

theorem getElem?_setLocked (w : World) (slot other : Nat) (locked : Bool) :
    (w.setLocked slot locked).slots[other]? =
      if slot = other then w.slots[other]?.map fun s => { s with locked }
          else w.slots[other]? := by
  unfold setLocked
  rw [List.getElem?_modify]
  split
  · rfl
  · exact id_map _

theorem getElem?_setItem (w : World) (slot other : Nat) (item : Item) :
    (w.setItem slot item).slots[other]? =
      if slot = other then w.slots[other]?.map fun s => { s with item }
          else w.slots[other]? := by
  unfold setItem
  rw [List.getElem?_modify]
  split
  · rfl
  · exact id_map _

theorem length_setLocked (w : World) (slot : Nat) (locked : Bool) :
    (w.setLocked slot locked).slots.length = w.slots.length := List.length_modify ..

theorem leavesFree_of_prefix {w w' : World} (h : w.slots <+: w'.slots) :
    w.LeavesFree w' := by
  refine ⟨h.length_le, ?_⟩
  rintro slot ⟨item, hitem⟩
  obtain ⟨hlt, -⟩ := List.getElem?_eq_some_iff.mp hitem
  obtain ⟨more, hmore⟩ := h
  exact ⟨item, by rw [← hmore, List.getElem?_append_left hlt, hitem]⟩

theorem leavesFree_of_slots {w w' : World} (h : w'.slots = w.slots) :
    w.LeavesFree w' :=
  leavesFree_of_prefix (h ▸ List.prefix_refl _)

/-- Nothing was locked or unlocked, and no item was added. -/
structure SameLocks (w w' : World) : Prop where
  there : w'.slots.length = w.slots.length
  locked : ∀ slot, w'.isLocked slot = w.isLocked slot

theorem sameLocks_of_slots {w w' : World} (h : w'.slots = w.slots) :
    w.SameLocks w' := by
  refine ⟨by rw [h], fun slot => ?_⟩
  unfold isLocked
  rw [h]

theorem sameLocks_chains : Chains SameLocks where
  refl _ := ⟨rfl, fun _ => rfl⟩
  trans h k := ⟨k.there.trans h.there, fun slot =>
    (k.locked slot).trans (h.locked slot)⟩

/-- Only an item that is there can be locked. -/
theorem lt_of_isLocked {w : World} {slot : Nat} (h : w.isLocked slot = true) :
    slot < w.slots.length := by
  by_contra hge
  unfold isLocked at h
  rw [List.getElem?_eq_none (Nat.le_of_not_lt hge)] at h
  cases h

theorem isLocked_setLocked (w : World) (slot other : Nat) (locked : Bool) :
    (w.setLocked slot locked).isLocked other =
      if slot = other ∧ other < w.slots.length then locked
          else w.isLocked other := by
  unfold isLocked
  rw [getElem?_setLocked]
  by_cases hslot : slot = other
  · by_cases hlt : other < w.slots.length
    · rw [if_pos hslot, if_pos ⟨hslot, hlt⟩, List.getElem?_eq_getElem hlt]
      rfl
    · rw [if_pos hslot, if_neg fun h => hlt h.2,
        List.getElem?_eq_none (Nat.le_of_not_lt hlt)]
      rfl
  · rw [if_neg hslot, if_neg fun h => hslot h.1]

theorem sameLocks_setItem (w : World) (slot : Nat) (item : Item) :
    w.SameLocks (w.setItem slot item) := by
  refine ⟨List.length_modify .., fun other => ?_⟩
  unfold isLocked setItem
  rw [List.getElem?_modify]
  cases w.slots[other]? with
  | none => rfl
  | some s =>
    dsimp only [Option.map_eq_map, Option.map_some]
    split <;> rfl

/-- A free item that is locked while an item is replaced is free again. -/
theorem setItem_locked {w : World} {other : Nat}
    (hfree : w.isLocked other = false) (slot : Nat) (item : Item) :
    ((w.setLocked other true).setItem slot item).setLocked other false =
    w.setItem slot item := by
  rw [setItem_setLocked]
  exact setLocked_of_free
    (((sameLocks_setItem w slot item).locked other).trans hfree)

/-- What leaves the locks alone leaves the items free that it found free. -/
theorem SameLocks.leavesFree {w w' : World} (h : w.SameLocks w') :
    w.LeavesFree w' := by
  refine ⟨h.there.ge, fun slot hfree => ?_⟩
  rw [freeAt_iff, h.there, h.locked]
  exact freeAt_iff.mp hfree

/-- Every request leaves the locks as it found them. -/
theorem lasting_sameLocks (P : Item → Item → Prop) : Lasting P SameLocks where
  toChains := sameLocks_chains
  side _ _ _ _ _ _ _ := sameLocks_of_slots rfl
  event _ _ _ _ := sameLocks_of_slots rfl
  launched _ _ _ _ := sameLocks_of_slots rfl
  registered _ _ _ _ := sameLocks_of_slots rfl
  lock w w' slot hfree h := by
    have hlength : w'.slots.length = w.slots.length :=
      h.there.trans (length_setLocked w slot true)
    refine ⟨(length_setLocked w' slot false).trans hlength, fun other => ?_⟩
    have hother := h.locked other
    rw [isLocked_setLocked] at hother
    rw [isLocked_setLocked, hlength]
    split
    · next hsame => rw [← hsame.1, hfree]
    · next hapart => rw [hother, if_neg hapart]
  put w slot _ new _ _ := sameLocks_setItem w slot new

/-! ## Items that carry out a request -/

/-- If the item in the slot is carrying out a request, it still is afterwards,
and has become what `Q` says. -/
def StaysBusy (slot : Nat) (Q : Item → Item → Prop) (w w' : World) : Prop :=
  ∀ i, w.slots[slot]? = some ⟨i, true⟩ →
  ∃ j, w'.slots[slot]? = some ⟨j, true⟩ ∧ Q i j

section

variable {slot : Nat} {Q : Item → Item → Prop}

theorem staysBusy_of_entry (hrefl : ∀ i, Q i i) {w w' : World}
    (h : w'.slots[slot]? = w.slots[slot]?) : StaysBusy slot Q w w' :=
  fun i hi => ⟨i, h.trans hi, hrefl i⟩

/-- Nothing is said of an item that is not carrying out a request. -/
theorem staysBusy_of_unlocked {w w' : World} (h : w.isLocked slot = false) :
    StaysBusy slot Q w w' := by
  intro i hi
  unfold isLocked at h
  rw [hi] at h
  cases h

theorem answering_staysBusy (hrefl : ∀ i, Q i i)
    (htrans : ∀ i j k, Q i j → Q j k → Q i k) :
    Answering (StaysBusy slot Q) where
  refl w := staysBusy_of_entry hrefl rfl
  trans := by
    intro w w' w'' h k i hi
    obtain ⟨j, hj, hij⟩ := h i hi
    obtain ⟨l, hl, hjl⟩ := k j hj
    exact ⟨l, hl, htrans i j l hij hjl⟩
  event _ _ _ _ := staysBusy_of_entry hrefl rfl
  side _ _ _ _ _ _ _ := staysBusy_of_entry hrefl rfl
  launched _ _ _ _ := staysBusy_of_entry hrefl rfl
  registered _ _ _ _ := staysBusy_of_entry hrefl rfl
  lock w w' other hfree h := by
    by_cases hslot : other = slot
    · exact staysBusy_of_unlocked (hslot ▸ hfree)
    · intro i hi
      obtain ⟨j, hj, hij⟩ := h i (by rw [getElem?_setLocked, if_neg hslot, hi])
      exact ⟨j, by rw [getElem?_setLocked, if_neg hslot, hj], hij⟩

end

end World

namespace Calls

/-- A request to a free item is carried out with the item locked for the time,
however deeply it nests. -/
theorem run_within_of_free {w : World} {h : Handle} {item : Item}
    (hfree : w.slots[h.slot]? = some ⟨item, false⟩) (ctx : Context)
    (depth : Nat) (request : Request) :
    (Calls.within ctx (depth + 1) h request).run w =
      let answered :=
        (item.answer ctx (Calls.within ctx depth) h request).run (w.setLocked h.slot true)
      (answered.1, answered.2.setLocked h.slot false) := by
  have hunlocked : w.isLocked h.slot = false := World.FreeAt.isLocked ⟨item, hfree⟩
  have hslot : (w.setLocked h.slot true).slots[h.slot]? = some ⟨item, true⟩ := by
    rw [World.getElem?_setLocked, if_pos rfl, hfree]
    rfl
  have hbody : (do
      let found ← Act.item h
      found.answer ctx (Calls.within ctx depth) h request : Act Value).run
        (w.setLocked h.slot true) =
          (item.answer ctx (Calls.within ctx depth) h request).run
            (w.setLocked h.slot true) := by
    rw [run_bind, Act.run_item, hslot]
    dsimp only [Option.elim]
  rw [Calls.within, Act.run_locking, hunlocked, if_neg Bool.false_ne_true, hbody]

theorem run_all_of_free {w : World} {h : Handle} {item : Item}
    (hfree : w.slots[h.slot]? = some ⟨item, false⟩) (ctx : Context)
    (request : Request) :
    (Calls.all ctx h request).run w =
      let answered :=
        (item.answer ctx (Calls.within ctx w.slots.length) h request).run
          (w.setLocked h.slot true)
      (answered.1, answered.2.setLocked h.slot false) := by
  rw [run_all, run_within_of_free hfree]

/-- Nothing that is asked of items changes one that is carrying out a request. -/
theorem staysBusy_within (ctx : Context) (slot depth : Nat) (h : Handle)
    (request : Request) :
    Along (World.StaysBusy slot Eq) (Calls.within ctx depth h request) := by
  have hR : Answering (World.StaysBusy slot Eq) :=
    World.answering_staysBusy (fun _ => rfl) fun _ _ _ => Eq.trans
  -- by induction on how deep requests may nest, as what an item asks of others
  -- nests less deeply
  induction depth generalizing h request with
  | zero => exact hR.fail _
  | succ depth ih =>
    intro w
    by_cases hslot : h.slot = slot
    · -- the item refuses the request, or it was not carrying one out
      cases hlocked : w.isLocked slot with
      | false => exact World.staysBusy_of_unlocked hlocked
      | true =>
        rw [Calls.within, Act.run_locking, if_pos (hslot ▸ hlocked)]
        exact hR.refl w
    · refine hR.locking h ?_
      rw [run_bind]
      rcases hrun : (Act.item h).run (w.setLocked h.slot true) with
        ⟨failure | i, w'⟩
      · have hitem := hR.item h (w.setLocked h.slot true)
        rw [hrun] at hitem
        exact hitem
      · obtain ⟨rfl, hi⟩ := Act.run_item_ok hrun
        refine hR.answer (fun w _ new _ _ => ?_) ih hi
        exact World.staysBusy_of_entry (fun _ =>
          rfl) (by rw [World.getElem?_setItem, if_neg hslot])

/-- What a request makes of a free item, it makes in steps. -/
theorem makes_within {w : World} {h : Handle} {i : Item}
    (hfree : w.slots[h.slot]? = some ⟨i, false⟩) (ctx : Context) (depth : Nat)
    (request : Request) :
    ∃ j, ((Calls.within ctx (depth + 1) h request).run w).2.slots[h.slot]? =
      some ⟨j, false⟩ ∧
      Relation.ReflTransGen (Item.Makes ctx request) i j := by
  have hR : Answering (World.StaysBusy h.slot
      (Relation.ReflTransGen (Item.Makes ctx request))) :=
    World.answering_staysBusy (fun _ => .refl) fun _ _ _ => .trans
  have hput : ∀ (v : World) old new, v.itemAt h.slot = some old →
      Item.Makes ctx request old new →
      World.StaysBusy h.slot (Relation.ReflTransGen (Item.Makes ctx request)) v
        (v.setItem h.slot new) := by
    intro v old new hold hmakes found hfound
    obtain rfl : found = old := by
      unfold World.itemAt at hold
      rw [hfound] at hold
      exact Option.some.inj hold
    refine ⟨new, ?_, .single hmakes⟩
    rw [World.getElem?_setItem, if_pos rfl, hfound]
    rfl
  -- while the item is locked, what it asks of others leaves it alone
  have hcalls : ∀ other asked, Along
      (World.StaysBusy h.slot (Relation.ReflTransGen (Item.Makes ctx request)))
        (Calls.within ctx depth other asked) := by
    intro other asked v k hk
    obtain ⟨l, hl, rfl⟩ := staysBusy_within ctx h.slot depth other asked v k hk
    exact ⟨k, hl, .refl⟩
  have hlocked : (w.setLocked h.slot true).slots[h.slot]? = some ⟨i, true⟩ := by
    rw [World.getElem?_setLocked, if_pos rfl, hfree]
    rfl
  have hitem : (w.setLocked h.slot true).itemAt h.slot = some i := by
    unfold World.itemAt
    rw [hlocked]
    rfl
  obtain ⟨j, hj, hmade⟩ := hR.answer hput hcalls hitem i hlocked
  refine ⟨j, ?_, hmade⟩
  rw [run_within_of_free hfree]
  dsimp only
  rw [World.getElem?_setLocked, if_pos rfl, hj]
  rfl

end Calls

namespace Registry

/-- Every item that the registry names is there and free. -/
def Free (r : Registry) (w : World) : Prop :=
  ∀ name handle, (name, handle) ∈ r.items → w.FreeAt handle.slot

theorem Free.left {r : Registry} {w w' : World} (h : r.Free w)
    (hleaves : w.LeavesFree w') : r.Free w' :=
  fun name handle hmem => hleaves.free _ (h name handle hmem)

/-- An item that is added is free. -/
theorem Free.add {r r' : Registry} {i : Item} {handle : Handle} {w w' : World}
    (hr : r.Free w) (h : (r.add i).run w = (.ok (handle, r'), w')) :
    r'.Free w' := by
  obtain ⟨rfl, hslots, rfl⟩ := run_add_ok h
  have hold : r.Free w' :=
    hr.left (World.leavesFree_of_prefix (hslots ▸ List.prefix_append _ _))
  intro name found hmem
  rcases Dict.mem_insert hmem with heq | hthere
  · cases heq
    exact ⟨i.adopt r.workdir, by rw [hslots, List.getElem?_concat_length]⟩
  · exact hold name found hthere

theorem free_ofProject {ctx : Context} {spec : ProjectSpec} {r : Registry}
    {w w' : World} (h : (ofProject ctx spec).run w = (.ok r, w')) :
    r.Free w' := by
  refine ofProject_rule (P := Free) (fun w name handle hmem => ?_) ?_ ?_ h
  · cases hmem
  · intro r w w' hslots hr
    exact hr.left (World.leavesFree_of_slots hslots)
  · intro r r' i handle w w' hr _ hadd
    exact hr.add hadd

/-- The items of a registry that was made and changed are free whenever nothing
is asked of them. -/
theorem Reached.free {ctx : Context} {r : Registry} {w : World}
    (h : r.Reached ctx w) : r.Free w := by
  induction h with
  | made hrun => exact free_ofProject hrun
  | added _ _ hadd ih => exact ih.add hadd
  | asked now h request _ ih =>
    exact ih.left ((World.lasting_sameLocks _).all now h request _).leavesFree
  | edited c _ _ ih => exact ih.left (World.sameLocks_setItem ..).leavesFree
  | aside _ hslots ih => exact ih.left (World.leavesFree_of_prefix hslots)

end Registry

end Playbook
