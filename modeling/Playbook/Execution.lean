import Playbook.Message
import Playbook.Session

/-!
# Playbook — executing steps

A step works on registry items and the namespace and gives a value, which is
written to its output. A step of an unknown kind, and an action that does not
exist, is reported and skipped: it gives no value.
-/

namespace Playbook

/-- The kinds of steps. -/
inductive StepKind where
  | serialize
  | save
  | dumpNpz
  | action
  | logInfo
  | updateEntries
  | clear
  | merge
  | stop
deriving DecidableEq, Inhabited, Repr

namespace StepKind

/-- The kind that a word names. -/
def parse : String → Option StepKind
  | "serialize" => some serialize
  | "save" => some save
  | "dump_npz" => some dumpNpz
  | "action" => some action
  | "log-info" => some logInfo
  | "update-entries" => some updateEntries
  | "clear" => some clear
  | "merge" => some merge
  | "stop" => some stop
  | _ => none

end StepKind

namespace Step

/-- A field that has to hold a text. -/
def needText (s : Step) (field : String) : Except Failure String :=
  match s.text? field with
  | some text => .ok text
  | none => .error (Cause.step (.noText s.kind field))

/-- A field that has to be there. -/
def needField (s : Step) (field : String) : Except Failure Json :=
  match s.field? field with
  | some value => .ok value
  | none => .error (Cause.step (.noField s.kind field))

/-- The item that a field names, with or without `@`. -/
def item (s : Step) (field : String) : Stepping Handle := do
  let name ← liftM (s.needText field)
  let bare := match name.toList with
    | '@' :: rest => String.ofList rest
    | cs => String.ofList cs
  liftM ((← get).run.registry.get bare)

/-- What the fields of an object stand for. -/
def resolveFields : List (String × Json) → Stepping Args
  | [] => pure []
  | (key, token) :: rest => do
    let value ← Stepping.resolve token
    let values ← resolveFields rest
    return (key, value) :: values

/-- The arguments of an action. -/
def arguments (s : Step) : Stepping Args :=
  match s.field? "args" with
  -- absent and null arguments mean the same
  | none | some .null => pure []
  | some (.obj fields) => resolveFields fields
  | some other => Stepping.fail (.step (.argumentsNotAMapping other))

/-- The texts of the values of a message. -/
def messageValues (s : Step) : Stepping (List String) :=
  match s.field? "args" with
  | none | some .null => pure []
  | some (.arr tokens) => tokens.mapM fun token =>
    Value.displayText <$> Stepping.resolve token
  | some token => do return [(← Stepping.resolve token).displayText]

/-- The array under a key of the namespace. -/
def arrayUnder (n : Namespace) (key : Json) : Except Failure (String × Json) :=
  match key with
  | .str key =>
    match n.lookup key with
    | none => .error (Cause.resolution key)
    | some value =>
      match value.json? with
      | none => .error (Cause.step (.keyHoldsItem key))
      | some json => .ok (key, json)
  | other => .error (Cause.step (.keyNotText other))

/-- Writes values of the namespace to an archive. -/
def dumpArrays (s : Step) : Stepping Value := do
  let path ← liftM (s.needText "filename")
  match (s.field? "keys").bind Json.arr? with
  | none => Stepping.fail (.step .noKeyList)
  | some keys =>
    let arrays ← liftM (keys.mapM (arrayUnder (← get).run.values))
    let written ← Stepping.act
      (Act.within (.writeArchive path) (Act.onDisk (Archive.write path arrays)))
    return .ofText written

/-- Dispatches an action. Where it does not exist, the step is skipped. -/
def dispatch (ctx : Context) (s : Step) : Stepping (Option Value) := do
  let h ← s.item "item"
  let name ← liftM (s.needText "action")
  let args ← s.arguments
  match ← Stepping.act (Act.attempt (Calls.all ctx h (.action name args))) with
  | .ok value => return some value
  | .error failure =>
    match failure.cause with
    -- also where the action itself went on to ask for one that does not exist
    | .unknownAction .. =>
      Stepping.act (Act.note (.trouble "unknown action, skipping"
        [⟨"item", h.name, false⟩, ⟨"action", name, true⟩]))
      return none
    | _ => throw failure

/-- Updates entries of an item. -/
def updateItem (ctx : Context) (s : Step) : Stepping Unit := do
  let h ← s.item "item"
  let entries ← Stepping.resolve (← liftM (s.needField "entries"))
  match entries.json?.bind Json.strings? with
  | none => Stepping.fail (.step .entriesNotIds)
  | some entries =>
    let values ← Stepping.resolve (← liftM (s.needField "values"))
    match values.mapping? with
    | none => Stepping.fail (.step .valuesNotColumns)
    | some values =>
      let _ ← Stepping.ask ctx h (.updateEntries entries values)

/-- Runs a step of a known kind. A step that is skipped gives nothing. -/
def perform (ctx : Context) (s : Step) : StepKind → Stepping (Option Value)
  | .serialize => do
    let h ← s.item "item"
    return some (← Stepping.ask ctx h
      (.serialize ((s.text? "format").getD "json") (s.text? "filename")))
  | .save => do
    let h ← s.item "item"
    let path ← liftM (s.needText "filename")
    return some (← Stepping.ask ctx h (.serialize "json" (some path)))
  | .dumpNpz => some <$> s.dumpArrays
  | .action => s.dispatch ctx
  | .logInfo => do
    let message ← liftM (s.needText "msg")
    let values ← s.messageValues
    Stepping.act (Act.note (.logged .info (Message.format message values) []))
    return some .null
  | .updateEntries => do
    s.updateItem ctx
    return some .null
  | .clear => do
    let h ← s.item "item"
    let _ ← Stepping.ask ctx h .clear
    return some .null
  | .merge => do
    let target ← s.item "item"
    let source ← s.item "from"
    let _ ← Stepping.ask ctx target (.merge source)
    return some .null
  | .stop => do
    modify fun session =>
      { session with
        run := session.run.requestStop (((s.field? "loops").bind Json.nat?).getD 0) }
    return some .null

/-- Runs a step and gives its value, if it is not skipped. -/
def value (ctx : Context) (s : Step) : Stepping (Option Value) :=
  match StepKind.parse s.kind with
  | some kind => s.perform ctx kind
  | none => do
    Stepping.act (Act.note
      (.trouble "unknown step kind, skipping" [⟨"step", s.kind, false⟩]))
    return none

/-- Writes a value to the output of a step. -/
def bindOutput (output : OutputSpec) (value : Value) :
    Stepping Unit := fun session =>
  let (result, values) := session.run.values.bind output value
  (result, { session with run := { session.run with values } })

/-- Executes a step: runs it and writes its value to its output. -/
def execute (ctx : Context) (s : Step) : Stepping Unit := do
  Stepping.act (Act.note (.stepped s))
  match ← s.value ctx, s.output with
  | some value, some output => bindOutput output value
  | _, _ => pure ()

end Step

end Playbook
