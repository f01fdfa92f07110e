import Playbook.Archive
import Playbook.Definition.Project
import Playbook.Value

/-!
# Playbook — databases

A database has columns: its variables, then its storages, then what else its saved
contents name. Every column gives values to entries, which are known by their ids.
Variables are written when an entry is added; only storages may be written later.

Writes go column by column, and a write that fails keeps the columns that it had
written before: `Edit` is a change of a database that may fail half-way.
-/

namespace Playbook

structure Database where
  name : String
  /-- The descriptions of the variables. -/
  variableSpecs : List Json
  storages : List String
  exporters : Dict (List String)
  columns : Dict (Dict Json)
  workdir : String := "."
  /-- Where exported files are written. -/
  exportDir : String
deriving DecidableEq, Inhabited, Repr

/-- A change of a database. -/
abbrev Edit := ExceptT Failure (StateM Database)

namespace Database

/-- The empty columns of a description, before its contents are filled in. -/
def emptyColumns (spec : DatabaseSpec) : Dict (Dict Json) :=
  Dict.ofList ((spec.variableNames ++ spec.storages).map fun column => (column, []))

/-- Fills contents into a column, which is created if it is missing. -/
def fillColumn (columns : Dict (Dict Json)) (entry : String × Dict Json) :
    Dict (Dict Json) :=
  columns.insert entry.1 (((columns.get? entry.1).getD []).extend entry.2)

/-- The database that a description describes. -/
def ofSpec (exportDir : String) (spec : DatabaseSpec) : Database :=
  { name := spec.name
    variableSpecs := spec.variableSpecs
    storages := spec.storages
    exporters := spec.exporters
    columns := spec.data.foldl fillColumn (emptyColumns spec)
    exportDir }

/-- The description of a database with its contents. -/
def toSpec (d : Database) : DatabaseSpec :=
  { name := d.name, variableSpecs := d.variableSpecs, storages := d.storages
    exporters := d.exporters, data := d.columns }

/-- The ids of all entries, in the order in which they first occur
column by column. -/
def entries (d : Database) : List String :=
  (d.columns.values.flatMap Dict.keys).foldl (fun ids id =>
    if ids.contains id then ids else ids ++ [id]) []

/-- Whether no column has a value. -/
def isEmpty (d : Database) : Bool := d.columns.values.all List.isEmpty

/-- The values of an entry by column. -/
def entry (d : Database) (id : String) : Dict Json :=
  d.columns.filterMap fun (column, values) =>
    (Dict.get? values id).map fun value => (column, value)

/-- A failure that names a database. -/
def fault (name : String) (f : DatabaseFault) : Failure := Cause.database name f

/-- The values of a column in the order of its entries. -/
def column (d : Database) (name : String) : Except Failure (List Json) :=
  match d.columns.get? name with
  | some values => .ok (Dict.values values)
  | none => .error (fault d.name (.noColumn name))

/-- Fails with a fault of the database. -/
def refuse {α : Type} (f : DatabaseFault) :
    Edit α := fun d => (.error (fault d.name f), d)

/-- Writes one value. -/
def writeCell (id column : String) (value : Json) : Edit Unit := fun d =>
  match d.columns.get? column with
  | none => (.error (fault d.name (.noColumn column)), d)
  | some values =>
    (.ok (),
      { d with columns := d.columns.insert column (values.insert id value) })

/-- Writes values of an entry, column by column. -/
def addEntry (id : String) : Dict Json → Edit Unit
  | [] => pure ()
  | (column, value) :: rest => do
    writeCell id column value
    addEntry id rest

/-- Writes values of an entry in storage columns. -/
def updateEntry (id : String) (values : Dict Json) : Edit Unit := do
  let d ← get
  match values.keys.find? fun column => !d.storages.contains column with
  -- no value is written if one of them may not be
  | some column => refuse (.notAStorage column)
  | none => addEntry id values

/-- The length of the longest of several lists. -/
def rowCount (values : Dict (List Json)) : Nat :=
  (values.values.map List.length).foldl max 0

/-- The row at an index. -/
def row (values : Dict (List Json)) (i : Nat) :
    Dict Json := values.mapValues fun items => items.getD i .null

/-- Adds one entry for every row, in the order of the ids. -/
def addRows (values : Dict (List Json)) : (i : Nat) → List String → Edit Unit
  | _, [] => pure ()
  | i, id :: ids => do
    addEntry id (row values i)
    addRows values (i + 1) ids

/-- Adds the rows of columns of equal length under fresh ids; there is one id
for each row. -/
def addEntries (ids : List String) (values : Dict (List Json)) :
    Edit (List String) := do
  -- the longest column sets the length that all have to have
  if values.values.any fun items =>
    items.length ≠ rowCount values then refuse .unevenColumns
  addRows values 0 ids
  return ids

/-- The values of a column as a list of plain data. -/
def listOf (name column : String) (value : Value) : Except Failure (List Json) :=
  match value with
  | .json (.arr items) => .ok items
  | _ => .error (fault name (.notAList column))

/-- The columns of a mapping of lists. -/
def listsOf (name : String) (values : Args) : Except Failure (Dict (List Json)) :=
  values.mapM fun (column, value) => return (column, ← listOf name column value)

/-- Updates entries row by row, from the row at an index on. -/
def updateRows (values : Dict (List Json)) : (i : Nat) → List String → Edit Unit
  | _, [] => pure ()
  | i, id :: ids => do
    updateEntry id (row values i)
    updateRows values (i + 1) ids

/-- Writes columns of values to entries, the first value to the first entry. -/
def updateEntries (entries : List String) (values : Args) : Edit Unit := do
  let values ← liftM (listsOf (← get).name values)
  match values.find? fun (_, items) => items.length < entries.length with
  | some (column, items) =>
    refuse (.tooFewValues column items.length entries.length)
  | none => updateRows values 0 entries

/-- Forgets all values. -/
def clear (d : Database) : Database :=
  { d with columns := d.columns.mapValues fun _ => [] }

/-- Takes over the values that another database has in columns of this one. -/
def merge (d other : Database) : Database :=
  -- columns that only the other database has are left out
  { d with columns := d.columns.map fun (column, values) =>
      (column, match other.columns.get? column with
        | some incoming => Dict.extend values incoming
        | none => values) }

/-- The columns of an export with their values. -/
def exportColumns (d : Database) (exporter : String) :
    Except Failure (List (String × Json)) :=
  match d.exporters.get? exporter with
  | none => .error (fault d.name (.noExporter exporter))
  | some names => names.mapM fun name => return (name, .arr (← d.column name))

/-- Writes the columns of an export to a new archive. -/
def exportArchive (d : Database) (exporter token : String) : Store String := do
  let arrays ← liftM (d.exportColumns exporter)
  Store.within (.createDirectory d.exportDir) (Store.makeDirectories d.exportDir)
  Store.within (.exporter exporter d.name)
    (Archive.write (Path.unique d.exportDir (d.name ++ ".dbexport") "npz" token)
      arrays)

end Database

end Playbook
