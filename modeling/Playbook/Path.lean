import Playbook.Text

/-!
# Playbook — path texts

Paths are texts whose components are separated by slashes. Repeated slashes, `.`
components behind the first place and a slash at the end do not count as
components. The functions here only cut and join the text; whether anything
exists under a path is asked of the disk.

The file name is the last component, unless that is `.`, `..` or the root. Its
extension is what follows the last dot, unless that dot starts the name.
-/

namespace Playbook.Path

/-- Drops slashes and `.` components from the end of a path, given backwards; a
lone `.` stays. -/
def stripBack : List Char → List Char
  | '/' :: rest => stripBack rest
  | '.' :: '/' :: rest => stripBack rest
  | cs => cs

/-- Whether a path starts at the root. -/
def isAbsolute (path : String) : Bool := path.toList.head? == some '/'

/-- The last component, given backwards, and the text before it. -/
def splitBack (path : String) : List Char × List Char :=
  let back := stripBack path.toList.reverse
  (back.takeWhile (· != '/'), back.dropWhile (· != '/'))

/-- The last component, if it names a file or directory. -/
def fileName? (path : String) : Option String :=
  let name := (splitBack path).1.reverse
  if name = [] ∨ name = ['.'] ∨ name = ['.', '.'] then none
    else some (String.ofList name)

/-- The path without its last component. -/
def parent? (path : String) : Option String :=
  let (name, before) := splitBack path
  if name.isEmpty then none
  else match stripBack before with
    | [] => some (if isAbsolute path then "/" else "")
    | back => some (String.ofList back.reverse)

/-- What follows the last dot of the file name, unless the dot starts the name. -/
def extension? (path : String) : Option String := do
  let (stem, extension) ← Text.splitLast '.' (← fileName? path).toList
  if stem.isEmpty then none else some (String.ofList extension)

/-- A path below a directory; an absolute one stands alone. -/
def join (dir path : String) : String :=
  if isAbsolute path || dir.isEmpty then path
  else if Text.endsWith dir "/" then dir ++ path
  else dir ++ "/" ++ path

/-- The path with another file name. -/
def withFileName (path name : String) : String :=
  if (fileName? path).isSome then join ((parent? path).getD "") name
    else join path name

/-- Letters of the ASCII alphabet in lower case. -/
def lower (s : String) : String := String.ofList (s.toList.map Char.toLower)

/-- Whether a path names a JSON document, by its extension in any case. -/
def isJson (path : String) : Bool := (extension? path).map lower == some "json"

/-- The path of the JSON document that is written for a path. -/
def json (path : String) : String := if isJson path then path else path ++ ".json"

/-- The path of the array archive that is written for a path. -/
def npz (path : String) : String := if extension? path == some "npz" then path
    else path ++ ".npz"

/-- Puts `.index` before the last dot of the file name, or at its end. -/
def withIndex (path : String) (index : Nat) : String :=
  match fileName? path with
  | none => path
  | some name =>
    let indexed := match Text.splitLast '.' name.toList with
      | some (stem, extension) =>
        String.ofList stem ++ "." ++ toString
        index ++ "." ++ String.ofList extension
      | none => name ++ "." ++ toString index
    withFileName path indexed

/-- `stem.token.extension` below a directory, or `token.extension`
for an empty stem. -/
def unique (dir stem extension token : String) : String :=
  join dir (if stem.isEmpty then token ++ "." ++ extension
    else stem ++ "." ++ token ++ "." ++ extension)

/-- Trims a path and replaces a leading `~` by the home directory. -/
def expandHome (home path : String) : String :=
  match Text.trimChars path.toList with
  | ['~'] => home
  | '~' :: '/' :: rest => join home (String.ofList rest)
  | '~' :: '\\' :: rest => join home (String.ofList rest)
  | cs => String.ofList cs

end Playbook.Path
