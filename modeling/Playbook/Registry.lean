import Playbook.Answer

/-!
# Playbook — registries

A registry names the items of a project and gives them a common working
directory. Its state can be saved to one document, from which an equal registry
is built again: `resume` reads what `save` writes.
-/

namespace Playbook

structure Registry where
  workdir : String
  items : Dict Handle := []
deriving DecidableEq, Inhabited, Repr

namespace Registry

/-- An empty registry; its working directory is created. -/
def create (workdir : String) : Act Registry := do
  Act.within (.createWorkdir workdir) (Act.onDisk (Store.makeDirectories workdir))
  return { workdir }

/-- Adds an item under its name; an item of that name is replaced. -/
def add (r : Registry) (item : Item) : Act (Handle × Registry) := do
  let (item, failure) ← Act.overDisk (item.setWorkdir r.workdir)
  Act.check failure
  let handle ← modifyGet fun w => w.addItem item
  if r.items.contains handle.name then
    Act.warn "replacing registry item" [⟨"item", handle.name, false⟩]
  return (handle, { r with items := r.items.insert handle.name handle })

/-- The item under a name. -/
def get (r : Registry) (name : String) : Except Failure Handle :=
  match r.items.get? name with
  | some handle => .ok handle
  | none => .error (Cause.unknownItem name)

/-- Adds the database of a description. -/
def addDatabase (ctx : Context) (r : Registry) (spec : DatabaseSpec) :
    Act (Handle × Registry) :=
  r.add (.database (Database.ofSpec ctx.settings.exportDir spec))

/-- Adds the algorithm of a description. -/
def addAlgorithm (ctx : Context) (r : Registry) (spec : AlgorithmSpec) :
    Act (Handle × Registry) := do
  r.add (.algorithm (← Algorithm.build ctx spec))

/-- The registry of a project. -/
def ofProject (ctx : Context) (spec : ProjectSpec) : Act Registry := do
  let start ← create (Path.expandHome ctx.home spec.workdir)
  let filled ← spec.datasets.foldlM (fun r d =>
    Prod.snd <$> addDatabase ctx r d) start
  spec.algorithms.foldlM (fun r a => Prod.snd <$> addAlgorithm ctx r a) filled

/-- Adds the state of an item to a saved state. -/
def record (snapshot : Snapshot) (handle : Handle) : Act Snapshot := do
  match ← Act.itemState handle with
  | .database spec =>
    return { snapshot with datasets := snapshot.datasets ++ [spec] }
  | .algorithm spec =>
    return { snapshot with algorithms := snapshot.algorithms ++ [spec] }
  | .custom _ =>
    Act.warn "item state is not part of registry snapshots"
      [⟨"item", handle.name, false⟩]
    return snapshot

/-- The state of a registry. -/
def snapshot (ctx : Context) (r : Registry) : Act Snapshot :=
  r.items.values.foldlM record { workdir := r.workdir, savedAt := ctx.host.now }

/-- Writes the state of a registry to a document and returns its path. -/
def save (ctx : Context) (r : Registry) (path : String) : Act String := do
  let state ← r.snapshot ctx
  Act.onDisk (Document.write path state.encode)

/-- The registry of a saved state. -/
def resume (ctx : Context) (path : String) : Act Registry := do
  let state ← Act.fromDisk (Document.read Snapshot.decode path)
  ofProject ctx state.toProject

/-- Merges one item into another; both are looked up first. -/
def merge (ctx : Context) (target source : Handle) : Act Unit := do
  let _ ← Calls.all ctx target (.merge source)

end Registry

end Playbook
