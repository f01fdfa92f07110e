import Playbook.Text

/-!
# Playbook — variable bindings

A runner names each variable it uses by a token `name[]:role`. The marker `[]`
makes the variable drive a batch of jobs; the role says whether the value is
returned after the run, is the path of a file that the job writes, or in which
format an item bound to the variable is exported. A role that is none of the
known words is such a format.
-/

namespace Playbook

/-- What a variable is used for. -/
inductive Role where
  /-- Put in place. -/
  | plain
  /-- Returned to the caller after the run. -/
  | declareOutput
  /-- The path of a file made by the run, returned after it. -/
  | declareFileOutput
  /-- The format in which an item is exported. -/
  | format (name : String)
deriving DecidableEq, Inhabited, Repr

namespace Role

/-- Reads a role; the empty text and two words all mean the plain role. -/
def parse (text : String) : Role :=
  if text ∈ ["", "object", "plain"] then plain
  else if text = "declare_output" then declareOutput
  else if text = "declare_file_output" then declareFileOutput
  else format text

/-- The role as it is written. -/
def text : Role → String
  | plain => "plain"
  | declareOutput => "declare_output"
  | declareFileOutput => "declare_file_output"
  | format name => name

/-- Whether the value is part of the result. -/
def isOutput : Role → Bool
  | declareOutput | declareFileOutput => true
  | _ => false

/-- Whether the role names an export format. -/
def isFormat : Role → Bool
  | format _ => true
  | _ => false

/-- The format in which an item bound to the variable is exported. -/
def exportFormat : Role → String
  | format name => name
  | _ => "serialize"

end Role

/-- A variable as a token describes it. -/
structure Binding where
  /-- The token as written. -/
  token : String
  name : String
  role : Role
  isArray : Bool
deriving DecidableEq, Inhabited, Repr

namespace Binding

/-- Deletes every `[]`, scanning once from the left. -/
def eraseMarkers : List Char → List Char
  | [] => []
  | '[' :: ']' :: rest => eraseMarkers rest
  | c :: rest => c :: eraseMarkers rest

/-- Reads a token. Every text is one. -/
def parse (token : String) : Binding :=
  let bare := eraseMarkers token.toList
  let (name, role) := match Text.splitFirst ':' bare with
    | some (name, role) => (name, Role.parse (String.ofList role))
    | none => (bare, .plain)
  { token, name := String.ofList name, role
    isArray := Text.occurs ['[', ']'] token.toList }

end Binding

end Playbook
