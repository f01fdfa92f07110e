import Playbook.Binding
import Playbook.Disk
import Playbook.Template

/-!
# Playbook — script prototypes

A prototype is the text of a job script with placeholders for its variables. Several
placeholders may have one name; the last one says what the variable is. One of the
names has to be `touchfile`, which receives the path of the file that tells that the
job has ended, and at most one variable may drive a batch of jobs.
-/

namespace Playbook

structure Prototype where
  text : String
  /-- The distinct tokens in order of first appearance. -/
  tokens : List Binding
  /-- The variables by name. -/
  bindings : Dict Binding
  /-- The variable that drives a batch. -/
  arrayVariable : Option String
deriving DecidableEq, Inhabited, Repr

namespace Prototype

/-- The variable that receives the path of the sentinel. -/
def touchfile : String := "touchfile"

/-- How the path of a prototype ends. -/
def ending : String := ".proto.sh"

/-- The bindings by name: a name stands where it first appears, with the last of
its bindings. -/
def index (tokens : List Binding) : Dict Binding :=
  Dict.ofList (tokens.map fun b => (b.name, b))

/-- The names that drive a batch. -/
def arrayNames (bindings : Dict Binding) : List String :=
  (bindings.values.filter (·.isArray)).map (·.name)

/-- Reads a prototype; failures name the subject. -/
def parse (subject text : String) : Except Failure Prototype :=
  let tokens := (Template.tokens text).map Binding.parse
  let bindings := index tokens
  if !bindings.contains touchfile then .error
    (Cause.configuration subject .noTouchfile)
  else match arrayNames bindings with
    | [] => .ok { text, tokens, bindings, arrayVariable := none }
    | [name] => .ok { text, tokens, bindings, arrayVariable := some name }
    | names => .error (Cause.configuration subject (.severalArrays names))

/-- Reads the prototype at a path. -/
def load (path : String) (disk : Disk) : Except Failure Prototype :=
  if !Text.endsWith path ending then .error
    (Cause.configuration path .notAPrototype)
  else if !disk.isFile path then .error (Cause.configuration path .noPrototype)
  else match disk.readText path with
    | .error kind => .error ⟨[.readPrototype path], .io kind⟩
    | .ok text => parse path text

/-- The variables whose values are returned. -/
def outputs (p : Prototype) : List Binding :=
  p.bindings.values.filter (·.role.isOutput)

/-- The variables that name files made by the job. -/
def fileOutputs (p : Prototype) : List Binding :=
  p.bindings.values.filter (·.role == .declareFileOutput)

/-- The texts by token, from texts by name. -/
def byToken (p : Prototype) (values : Dict String) : Dict String :=
  Dict.ofList (p.tokens.filterMap fun b => (values.get? b.name).map fun value =>
    (b.token, value))

/-- The script with texts in place of the placeholders. -/
def render (p : Prototype) (values : Dict String) : String :=
  Template.fill p.text (p.byToken values)

end Prototype

end Playbook
