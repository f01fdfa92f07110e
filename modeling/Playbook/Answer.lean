import Playbook.Runner.Run

/-!
# Playbook — answering requests

What each kind of item does when it is asked for something. A database acts on
its columns and writes them to archives and documents; an algorithm runs its
runners with its defaults under the arguments; every item can write its state to
a document. What an item cannot do is refused.

A request may lead to further requests to other items. `callsWithin` bounds how
deeply they nest: since no item answers a request while it is answering another,
the number of items is bound enough.
-/

namespace Playbook

namespace Database

/-- Changes the database behind a handle. -/
def editing {α : Type} (h : Handle) (d : Database) (e : Edit α) : Act α := fun w =>
  let (result, d) := e.run d
  (result, w.setItem h.slot (.database d))

/-- Runs one of the three actions of databases. -/
def act (h : Handle) (d : Database) (name : String) (args : Args) : Act Value := do
  match name with
  | "entries" => return .json (.ofStrings d.entries)
  | "column" =>
    match ((args.get? "name").bind Value.json?).bind Json.str? with
    | none => throw (fault d.name .noNameArgument)
    | some column => (.json ∘ .arr) <$> liftM (d.column column)
  | "add-entries" =>
    match (args.get? "values").bind Value.mapping? with
    | none => throw (fault d.name .noValuesArgument)
    | some values =>
      let values ← liftM (listsOf d.name values)
      let ids ← Act.tokenList (rowCount values)
      let ids ← editing h d (addEntries ids values)
      return .json (.ofStrings ids)
  | _ => Act.fail (.unknownAction d.name name)

/-- Whether a format names an archive of columns. -/
def isArchiveFormat (format : String) : Bool :=
  match Text.splitFirst '.' format.toList with
  | some (kind, _) => kind == ['n', 'p', 'z']
  | none => false

/-- Writes a database to a new file. -/
def exportAs (d : Database) (format : String) : Act String := do
  if isArchiveFormat format then Act.onDisk (d.exportArchive format (← Act.token))
  else if format = "serialize" ∨ format = "json" then
    let path ← Act.uniquePath d.exportDir (d.name ++ ".dbexport") "json"
    Act.onDisk ((Item.database d).serialize "json" (some path))
  else Act.fail (.unsupported d.name s!"export '{format}'")

end Database

namespace Algorithm

/-- Builds the algorithm of a description. A later action takes the place of an
earlier one of its name. -/
def build (ctx : Context) (spec : AlgorithmSpec) : Act Algorithm := do
  let actions ← spec.actions.foldlM (fun (actions : Dict Runner) action => do
    let runner ← Act.within (.loadAlgorithm spec.name) (Runner.build ctx action)
    return actions.insert action.name runner) []
  return {
    name := spec.name
    actions
    config := spec.config
    workdir := spec.workdir.getD "."
    pinned := spec.workdir.isSome }

/-- Runs an action in the working directory of the algorithm. -/
def act (ctx : Context) (calls : Calls) (h : Handle) (a : Algorithm)
    (name : String) (args : Args) : Act Value := do
  match a.actions.get? name with
  | none => Act.fail (.unknownAction a.name name)
  | some runner =>
    let (runner, failure) ← Act.overDisk (runner.setWorkdir a.workdir)
    Act.setItem h (.algorithm { a with actions := a.actions.insert name runner })
    Act.check failure
    Act.within (.action name a.name) (runner.run (Leaf.run ctx calls) (a.arguments args))

/-- Builds runners from their own descriptions, one after the other up to the
first that fails. -/
def rebuild (ctx : Context) : Dict Runner →
    StateM World (Dict Runner × Option Failure)
  | [] => pure ([], none)
  | (name, runner) :: rest => do
    match ← (Runner.build ctx runner.toSpec).run with
    | .error failure => return ((name, runner) :: rest, some failure)
    | .ok runner =>
      let (rest, failure) ← rebuild ctx rest
      return ((name, runner) :: rest, failure)

/-- Rebuilds the runners of an algorithm. -/
def reload (ctx : Context) (h : Handle) (a : Algorithm) : Act Unit := do
  let (actions, failure) ← fun w =>
    let (result, w) := (rebuild ctx a.actions).run w
    (.ok result, w)
  Act.setItem h (.algorithm { a with actions })
  Act.check failure

end Algorithm

namespace Item

/-- Writes an item to a file in a format. -/
def exportAs (item : Item) (format : String) : Act String := do
  match item with
  | database d => d.exportAs format
  | algorithm a =>
    if format = "serialize" then Act.onDisk (item.serialize "json" none)
    else Act.fail (.unsupported a.name s!"export '{format}'")
  | plain p => Act.fail (.unsupported p.name s!"export '{format}'")

/-- Takes over what another item holds. -/
def mergeWith (h : Handle) (item other : Item) : Act Unit := do
  match item with
  | database d =>
    match other.database? with
    | some incoming => Act.setItem h (.database (d.merge incoming))
    | none => throw (Database.fault d.name (.notADatabase other.name))
  | _ => Act.fail (.unsupported item.name "merge")

/-- What an item does when it is asked for something. -/
def answer (ctx : Context) (calls : Calls) (h : Handle) (item : Item) :
    Request → Act Value
  | .action name args =>
    match item with
    | database d => d.act h name args
    | algorithm a => a.act ctx calls h name args
    | plain p => Act.fail (.unknownAction p.name name)
  | .exportAs format => .ofText <$> item.exportAs format
  | .serialize format path => .ofText <$> Act.onDisk (item.serialize format path)
  | .updateEntries entries values => do
    match item with
    | database d => Database.editing h d (Database.updateEntries entries values)
    | _ => Act.fail (.unsupported item.name "update-entries")
    return .null
  | .clear => do
    match item with
    | database d => Act.setItem h (.database d.clear)
    | _ => Act.fail (.unsupported item.name "clear")
    return .null
  | .merge source => do
    Act.locking source (do mergeWith h item (← Act.item source))
    return .null
  | .state => return .json item.state.toJson
  | .reload => do
    match item with
    | algorithm a => a.reload ctx h
    | _ => pure ()
    return .null
  | .workdir => return .ofText item.workdir
  | .setWorkdir path => do
    let (item, failure) ← Act.overDisk (item.setWorkdir path)
    Act.setItem h item
    Act.check failure
    return .ofText item.workdir
  | .isDatabase => return .json (.bool item.database?.isSome)

end Item

namespace Calls

/-- Answers requests that lead to others no more deeply than `depth`. -/
def within (ctx : Context) : (depth : Nat) → Calls
  | 0, h, _ => Act.fail (.itemBusy h.name)
  | depth + 1, h, request => Act.locking h do
    let item ← Act.item h
    item.answer ctx (within ctx depth) h request

/-- Answers a request. -/
def all (ctx : Context) : Calls := fun h request => do
  within ctx ((← get).slots.length + 1) h request

end Calls

namespace Act

/-- The state of an item. -/
def itemState (h : Handle) : Act ItemState := locking h do
  return (← item h).state

end Act

end Playbook
