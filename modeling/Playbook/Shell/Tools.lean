import Playbook.Shell.Fields

/-!
# Playbook — the tools of job scripts

Job scripts copy, move, list and create files with a few standard tools. A tool
is a function of its arguments, the directory it is used in, the disk and its
input; it leaves a disk, a text for the output, complaints and an exit code. A
tool that several operands are given to goes on after one that fails.
-/

namespace Playbook.Shell

/-- What a tool leaves. -/
structure Effect where
  disk : Disk
  /-- What is left of the input. -/
  input : String := ""
  output : String := ""
  errors : String := ""
  status : Nat := 0
deriving Inhabited

/-- A tool: arguments, directory, disk and input. -/
abbrev Tool := List String → String → Disk → String → Effect

namespace Tools

def complain (e : Effect) (text : String) :
    Effect := { e with errors := e.errors ++ text ++ "\n", status := 1 }

/-- The options and the operands among arguments. -/
def splitOptions (arguments : List String) : List Char × List String :=
  let options := arguments.takeWhile fun a =>
    a.length > 1 && a.toList.head? == some '-' && a != "--"
  let rest := arguments.drop options.length
  (options.flatMap fun a => a.toList.drop 1,
    if rest.head? == some "--" then rest.drop 1 else rest)

/-- Takes over the disk, and complains if the change has failed. -/
def attempt (e : Effect) (tool path : String) : Disk.Change → Effect
  | (.ok (), disk) => { e with disk }
  | (.error kind, disk) => complain { e with disk }
    s!"{tool}: cannot access '{path}': {kind.reason}"

/-- Writes its files, or its input, to the output. -/
def cat : Tool := fun arguments dir disk input =>
  let files := (splitOptions arguments).2
  let files := if files.isEmpty then ["-"] else files
  files.foldl (fun (e : Effect) file =>
    if file = "-" then { e with output := e.output ++ e.input, input := "" }
    else match disk.readText (Path.join dir file) with
      | .ok text => { e with output := e.output ++ text }
      | .error kind => complain e s!"cat: {file}: {kind.reason}") { disk, input }

def touch : Tool := fun arguments dir disk input =>
  let (options, files) := splitOptions arguments
  if files.isEmpty then complain { disk, input } "touch: missing file operand"
  else if !options.all (· ∈ ['a', 'c', 'f', 'm', 'h']) then
    complain { disk, input } "touch: invalid option"
  else files.foldl (fun (e : Effect) file =>
    let path := Path.join dir file
    match e.disk.lookup path with
    | .ok _ => e
    | .error _ => if options.contains 'c' then e
      else attempt e "touch" file (e.disk.write path (.text "")))
      { disk, input }

/-- The path that a file gets when it is put at a target. -/
def landing (disk : Disk) (dir source target : String) : String :=
  let path := Path.join dir target
  if disk.isDirectory path then Path.join path ((Path.fileName? source).getD "")
    else path

/-- Copies one file. -/
def copyFile (disk : Disk) (dir source target : String) : Disk.Change :=
  match disk.lookup (Path.join dir source) with
  | .error kind => (.error kind, disk)
  | .ok (_, .directory) => (.error .isADirectory, disk)
  | .ok (_, .file content executable) =>
    let path := landing disk dir source target
    let isNew := !disk.isFile path
    let (result, disk) := disk.write path content
    (result, if isNew then disk.setExecutable path executable else disk)

/-- The last argument and those before it. -/
def splitTarget (arguments : List String) : List String × String :=
  (arguments.dropLast, arguments.getLast?.getD "")

/-- Applies a step to every source; several sources need a directory as target. -/
def transfer (tool : String) (step : Disk → String → String → Disk.Change) : Tool :=
  fun arguments dir disk input =>
    let (sources, target) := splitTarget (splitOptions arguments).2
    if sources.isEmpty then complain { disk, input }
      s!"{tool}: missing file operand"
    else if sources.length > 1 && !disk.isDirectory (Path.join dir target) then
      complain { disk, input } s!"{tool}: target '{target}': Not a directory"
    else sources.foldl (fun e source =>
      attempt e tool source (step e.disk source target)) { disk, input }

def cp : Tool := fun arguments dir =>
  transfer "cp" (fun disk => copyFile disk dir) arguments dir

def mv : Tool := fun arguments dir =>
  transfer "mv" (fun disk source target =>
    match copyFile disk dir source target with
    | (.error kind, disk) => (.error kind, disk)
    | (.ok (), disk) => disk.remove (Path.join dir source)) arguments dir

/-- The entries at a place and below it. -/
def clearBelow (disk : Disk) (place : Place) : Disk :=
  { disk with entries := disk.entries.filter fun (p, _) => p.take place.length ≠ place }

def rm : Tool := fun arguments dir disk input =>
  let (options, files) := splitOptions arguments
  let recursive := options.contains 'r' || options.contains 'R'
  files.foldl (fun (e : Effect) file =>
    match e.disk.lookup (Path.join dir file) with
    | .ok (place, .directory) =>
      if recursive then { e with disk := clearBelow e.disk place }
      else complain e s!"rm: cannot remove '{file}': Is a directory"
    | .ok (_, .file ..) => attempt e "rm" file (e.disk.remove (Path.join dir file))
    | .error kind =>
      if options.contains 'f' then e
        else complain e s!"rm: cannot remove '{file}': {kind.reason}")
        { disk, input }

def mkdir : Tool := fun arguments dir disk input =>
  let (options, paths) := splitOptions arguments
  paths.foldl (fun e path =>
    let full := Path.join dir path
    attempt e "mkdir" path
      (if options.contains 'p' then e.disk.makeDirectories full
        else e.disk.makeDirectory full)) { disk, input }

def rmdir : Tool := fun arguments dir disk input =>
  arguments.foldl (fun e path =>
    attempt e "rmdir" path (
      match e.disk.lookup (Path.join dir path) with
      | .error kind => (.error kind, e.disk)
      | .ok (_, .file ..) => (.error .notADirectory, e.disk)
      | .ok (place, .directory) =>
        if (namesIn e.disk place).isEmpty then (.ok (), e.disk.clear place)
        else (.error .directoryNotEmpty, e.disk))) { disk, input }

/-- Names one on a line; those that start with a dot are left out of directories. -/
def ls : Tool := fun arguments dir disk input =>
  let (options, paths) := splitOptions arguments
  let paths := if paths.isEmpty then ["."] else paths
  let line (s : String) := s ++ "\n"
  let hidden := if options.contains 'a' then [".", ".."] else []
  let isListed (path : String) : Bool :=
    disk.isDirectory (Path.join dir path) && !options.contains 'd'
  let sorted := paths.mergeSort fun a b => a ≤ b
  let sorted := (sorted.filter (!isListed ·)) ++ sorted.filter (isListed ·)
  sorted.foldl (fun (e : Effect) path =>
    match disk.lookup (Path.join dir path) with
    | .error kind =>
      { complain e s!"ls: cannot access '{path}': {kind.reason}" with status := 2 }
    | .ok (_, .file ..) => { e with output := e.output ++ line path }
    | .ok (place, .directory) =>
      if options.contains 'd' then { e with output := e.output ++ line path }
      else
        let shown := (namesIn disk place).filter fun n =>
          options.contains 'a' || options.contains 'A' || n.toList.head? != some '.'
        let title :=
          if paths.length > 1 then
            (if e.output.isEmpty then "" else "\n") ++ line (path ++ ":")
          else ""
        { e with
          output := e.output ++ title ++ String.join ((hidden ++ shown).map line) })
          { disk, input }

def chmod : Tool := fun arguments dir disk input =>
  let mode := arguments.headD ""
  let executable := mode ∈ ["+x", "a+x", "u+x", "755", "0755", "700"]
  (arguments.drop 1).foldl (fun (e : Effect) path =>
    { e with disk := e.disk.setExecutable (Path.join dir path) executable })
      { disk, input }

/-- The characters of an octal escape of at most three digits, and what follows. -/
def readOctal (cs : List Char) : Char × List Char :=
  let digits := (cs.take 3).takeWhile fun c => '0' ≤ c ∧ c ≤ '7'
  (Char.ofNat (digits.foldl (fun n c => n * 8 + (c.toNat - '0'.toNat)) 0 % 256),
    cs.drop digits.length)

/-- The character that a letter after a backslash stands for. -/
def escape? (c : Char) : Option Char :=
  match c with
  | 'a' => some '\x07' | 'b' => some '\x08' | 'f' => some '\x0c' | 'n' => some '\n'
  | 'r' => some '\r' | 't' => some '\t' | 'v' => some '\x0b' | '\\' => some '\\'
  | _ => none

/-- Replaces the escapes in a text: in an argument, octal escapes start with a
zero and `\c` ends the text, which the flag tells. -/
def unescape (argument : Bool) : (fuel : Nat) → List Char → List Char × Bool
  | 0, _ => ([], false)
  | _, [] => ([], false)
  | fuel + 1, '\\' :: c :: rest =>
    let goOn (shown : List Char) (rest : List Char) :=
      let (more, stop) := unescape argument fuel rest
      (shown ++ more, stop)
    match escape? c with
    | some x => goOn [x] rest
    | none =>
      if c = 'c' ∧ argument then ([], true)
      else if c = '0' ∧ argument then
        let (x, rest) := readOctal rest
        goOn [x] rest
      else if '0' ≤ c ∧ c ≤ '7' ∧ !argument then
        let (x, rest) := readOctal (c :: rest)
        goOn [x] rest
      else goOn ['\\', c] rest
  | fuel + 1, c :: rest =>
    let (more, stop) := unescape argument fuel rest
    (c :: more, stop)

/-- Writes its arguments with blanks between them, escapes
replaced, and a line end. -/
def echo : Tool := fun arguments _ disk input =>
  let (silent, arguments) := match arguments with
    | "-n" :: rest => (true, rest)
    | rest => (false, rest)
  let text := Text.join " " arguments
  let (shown, stop) := unescape true (text.length + 1) text.toList
  { disk, input, output := String.ofList shown ++ if silent || stop then "" else "\n" }

/-- Fills a text up to a width. -/
def fillUp (flags : List Char) (width : Nat) (text : List Char) : List Char :=
  let missing := width - text.length
  if flags.contains '-' then text ++ List.replicate missing ' '
  else List.replicate missing ' ' ++ text

/-- Fills a number up to a width, with zeros after its sign if the flags say so. -/
def fillUpNumber (flags : List Char) (width : Nat) (text : List Char) : List Char :=
  if flags.contains '0' && !flags.contains '-' then
    let sign := text.takeWhile (· == '-')
    sign ++ List.replicate (width - text.length) '0' ++ text.drop sign.length
  else fillUp flags width text

/-- Writes a format once for each of its arguments in turn. -/
def formatOnce : (fuel : Nat) → List Char → List String → List Char × List String
  | 0, _, arguments => ([], arguments)
  | _, [], arguments => ([], arguments)
  | fuel + 1, '%' :: rest, arguments =>
    let flags := rest.takeWhile (· ∈ ['-', '0'])
    let digits := (rest.drop flags.length).takeWhile Char.isDigit
    let width := (Text.readNat? digits).getD 0
    let rest := rest.drop (flags.length + digits.length)
    let argument := arguments.headD ""
    let put (shown : List Char) (arguments : List String) :=
      let (more, arguments) := formatOnce fuel (rest.drop 1) arguments
      (shown ++ more, arguments)
    match rest.head? with
    | some '%' => put ['%'] arguments
    | some 's' => put (fillUp flags width argument.toList) (arguments.drop 1)
    | some 'c' => put (fillUp flags width (argument.toList.take 1))
      (arguments.drop 1)
    | some 'b' =>
      put (fillUp flags width (unescape true (argument.length + 1)
        argument.toList).1) (arguments.drop 1)
    | some 'd' | some 'i' =>
      put (fillUpNumber flags width (if argument = "" then ['0']
        else argument.toList)) (arguments.drop 1)
    | some c => put ['%', c] arguments
    | none => (['%'], arguments)
  | fuel + 1, c :: rest, arguments =>
    let (more, arguments) := formatOnce fuel rest arguments
    (c :: more, arguments)

/-- Writes a format as often as its arguments last. -/
def formatAll (format : List Char) : (fuel : Nat) → List String → List Char
  | 0, _ => []
  | fuel + 1, arguments =>
    let (shown, rest) := formatOnce (format.length + 1) format arguments
    if rest.isEmpty || rest.length = arguments.length then shown
      else shown ++ formatAll format fuel rest

def printf : Tool := fun arguments _ disk input =>
  let (options, arguments) := splitOptions arguments
  match arguments with
  | [] => { complain { disk, input } "printf: missing format" with status := 2 }
  | format :: arguments =>
    if !options.isEmpty then
      { complain { disk, input } "printf: illegal option" with status := 2 } else
    let format := (unescape false (format.length + 1) format.toList).1
    { disk, input
      output := String.ofList (formatAll format (arguments.length + 1) arguments) }

/-- A comparison of two operands. -/
def compare? (left operator right : String) : Option Bool :=
  let numbers (f : Int → Int → Bool) :
      Option Bool := do return f (← left.toInt?) (← right.toInt?)
  match operator with
  | "=" => some (left == right)
  | "!=" => some (left != right)
  | "-eq" => numbers (· == ·)
  | "-ne" => numbers (· != ·)
  | "-lt" => numbers (· < ·)
  | "-le" => numbers (· ≤ ·)
  | "-gt" => numbers (· > ·)
  | "-ge" => numbers (· ≥ ·)
  | _ => none

/-- A question about one operand. -/
def ask? (dir : String) (disk : Disk) (operator operand : String) : Option Bool :=
  let path := Path.join dir operand
  match operator with
  | "-n" => some (operand != "")
  | "-z" => some (operand == "")
  | "-e" | "-r" | "-w" => some (disk.isFile path || disk.isDirectory path)
  | "-f" => some (disk.isFile path)
  | "-d" => some (disk.isDirectory path)
  | "-s" => some (match disk.read path with
      | .ok (.text s) => s != ""
      | .ok (.archive _) => true
      | .error _ => false)
  | "-x" => some (match disk.lookup path with
      | .ok (_, .file _ executable) => executable
      | .ok (_, .directory) => true
      | .error _ => false)
  | _ => none

/-- The truth of a test. -/
def holds? (dir : String) (disk : Disk) : List String → Option Bool
  | [] => some false
  | "!" :: rest@(_ :: _) => (holds? dir disk rest).map not
  | [a] => some (a != "")
  | [a, b] => ask? dir disk a b
  | [a, b, c] => compare? a b c
  | a :: b :: c :: "-a" :: rest => do
    let first ← compare? a b c
    let second ← holds? dir disk rest
    return first && second
  | _ => none

def test : Tool := fun arguments dir disk input =>
  match holds? dir disk arguments with
  | some true => { disk, input }
  | some false => { disk, input, status := 1 }
  | none =>
    { complain { disk, input } "test: unexpected operator" with status := 2 }

def bracket : Tool := fun arguments dir disk input =>
  if arguments.getLast? = some "]" then test arguments.dropLast dir disk input
  else { complain { disk, input } "[: missing ]" with status := 2 }

/-- The tools by name. -/
def named? : String → Option Tool
  | "cat" => some cat
  | "touch" => some touch
  | "cp" => some cp
  | "mv" => some mv
  | "rm" => some rm
  | "mkdir" => some mkdir
  | "rmdir" => some rmdir
  | "ls" => some ls
  | "chmod" => some chmod
  | "echo" => some echo
  | "printf" => some printf
  | "test" => some test
  | "[" => some bracket
  | "true" | "sleep" | "sync" => some fun _ _ disk input => { disk, input }
  | "false" => some fun _ _ disk input => { disk, input, status := 1 }
  | "pwd" => some fun _ dir disk input =>
    { disk, input, output := (if dir.isEmpty then "." else dir) ++ "\n" }
  | _ => none

end Tools

end Playbook.Shell
