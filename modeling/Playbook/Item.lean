import Playbook.Database
import Playbook.Runner.Basic

/-!
# Playbook — registry items

A registry holds databases, algorithms, and items of other kinds, of which only
a name, a working directory and a state are known.
-/

namespace Playbook

/-- Named runners that share default arguments and a working directory. -/
structure Algorithm where
  name : String
  actions : Dict Runner
  /-- The defaults of the arguments of every action. -/
  config : Dict Json
  workdir : String := "."
  /-- Whether the working directory is its own. -/
  pinned : Bool := false
deriving Inhabited

namespace Algorithm

/-- The description of an algorithm. -/
def toSpec (a : Algorithm) : AlgorithmSpec :=
  { name := a.name
    actions := a.actions.values.map Runner.toSpec
    config := a.config
    workdir := if a.pinned then some a.workdir else none }

/-- The arguments of an action: the defaults, then what the caller gives. -/
def arguments (a : Algorithm) (args : Args) :
    Args := Dict.extend (a.config.mapValues Value.json) args

end Algorithm

/-- An item that is neither a database nor an algorithm. -/
structure PlainItem where
  name : String
  workdir : String := "."
  state : Json := .null
deriving DecidableEq, Inhabited, Repr

/-- What a registry holds under a name. -/
inductive Item where
  | database (d : Database)
  | algorithm (a : Algorithm)
  | plain (p : PlainItem)
deriving Inhabited

/-- What is saved of an item. -/
inductive ItemState where
  | database (spec : DatabaseSpec)
  | algorithm (spec : AlgorithmSpec)
  /-- The state of other items. -/
  | custom (state : Json)
deriving Inhabited

def ItemState.toJson : ItemState → Json
  | database spec => spec.encode
  | algorithm spec => spec.encode
  | custom state => state

namespace Item

def name : Item → String
  | database d => d.name
  | algorithm a => a.name
  | plain p => p.name

def workdir : Item → String
  | database d => d.workdir
  | algorithm a => a.workdir
  | plain p => p.workdir

def state : Item → ItemState
  | database d => .database d.toSpec
  | algorithm a => .algorithm a.toSpec
  | plain p => .custom p.state

def database? : Item → Option Database
  | database d => some d
  | _ => none

/-- The item in a working directory. An algorithm with its own stays there. -/
def adopt (dir : String) : Item → Item
  | database d => database { d with workdir := dir }
  | algorithm a => algorithm (if a.pinned then a else { a with workdir := dir })
  | plain p => plain { p with workdir := dir }

/-- Gives an item a working directory. That of an algorithm is created. -/
def setWorkdir (dir : String) (item : Item) :
    StateM Disk (Item × Option Failure) := fun disk =>
  let item := item.adopt dir
  match item with
  | algorithm a =>
    match disk.makeDirectories a.workdir with
    | (.ok (), disk) => ((item, none), disk)
    | (.error kind, disk) =>
      ((item, some ⟨[.createWorkdir a.workdir], .io kind⟩), disk)
  | _ => ((item, none), disk)

/-- Writes the state of an item: to the given path, or under its name in its
working directory. -/
def serialize (item : Item) (format : String) (path : Option String) :
    Store String :=
  if format ≠ "json" then throw (Failure.of
    (.unsupported item.name s!"serializer '{format}'"))
  else Document.write (path.getD (Path.join item.workdir item.name))
    item.state.toJson

end Item

end Playbook
