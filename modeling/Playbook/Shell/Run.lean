import Playbook.Host
import Playbook.Shell.Syntax
import Playbook.Shell.Tools

/-!
# Playbook — running job scripts

The commands of a script act on the disk, read an input and write to an output
and an error text. `start` runs a program given by name, as a host does: the
shell and the tools are found by their names alone, every other program is a
file with the executable mark whose first line names the shell.

Depth of nesting and passes of loops are bounded by `fuel`; a script that
exhausts it is killed.
-/

namespace Playbook.Shell

/-- Where written text goes. -/
inductive Sink where
  | output
  | errors
  | file (path : String)
  | nothing
deriving DecidableEq, Inhabited

/-- Where the two streams of a command go. -/
structure Streams where
  out : Sink := .output
  err : Sink := .errors

/-- A running shell. -/
structure State where
  disk : Disk
  dir : String := ""
  assigned : Dict String := []
  exported : List String := []
  name : String := "sh"
  arguments : List String := []
  process : Nat := 1
  /-- The exit code of the commands so far. -/
  status : Nat := 0
  /-- The exit code that the words of the current command see. -/
  seen : Nat := 0
  input : String := ""
  output : String := ""
  errors : String := ""
deriving Inhabited

/-- Commands of a shell; what is thrown is how the shell ends. -/
abbrev Script := ExceptT Status (StateM State)

/-- Writes to a sink. -/
def write (sink : Sink) (text : String) : Script Unit := do
  match sink with
  | .nothing => pure ()
  | .output => modify fun s => { s with output := s.output ++ text }
  | .errors => modify fun s => { s with errors := s.errors ++ text }
  | .file path => modify fun s =>
    let before := match s.disk.readText path with
      | .ok text => text
      | .error _ => ""
    { s with disk := (s.disk.write path (.text (before ++ text))).2 }

def setStatus (status : Nat) : Script Unit := modify fun s => { s with status }

/-- Starts a command: its words see the exit code so far, and it succeeds unless
something in it fails. -/
def beginCommand : Script Unit := modify fun s =>
  { s with seen := s.status, status := 0 }

/-- Complains and sets the status. -/
def complain (streams : Streams) (text : String) (status : Nat) : Script Unit := do
  write streams.err (text ++ "\n")
  setStatus status

/-- The status of a shell that ended. -/
def exitCode : Status → Nat
  | .exited code => code
  | .signalled signal => 128 + signal

/-- Runs commands in a shell of their own: an end of that shell ends nothing
else, and what it sets is forgotten. -/
def enclosed (body : Script Unit) : Script Unit := fun s =>
  let (result, after) := body.run s
  let status := match result with
    | .ok _ => after.status
    | .error status => exitCode status
  (.ok (),
    { s with
      disk := after.disk, input := after.input, output := after.output
      errors := after.errors, status })

/-- Runs commands and takes what they write to the output. -/
def capture (body : Script Unit) : Script String := fun s =>
  let (result, after) := body.run { s with output := "" }
  (result.map fun _ => after.output, { after with output := s.output })

/-- Runs commands with another input. -/
def withInput (input : String) (body : Script Unit) : Script Unit := fun s =>
  let (result, after) := body.run { s with input }
  (result, { after with input := s.input })

/-- The value of a variable or parameter. -/
def State.value? (s : State) (name : String) : Option String :=
  match name with
  | "?" => some (toString s.seen)
  | "#" => some (toString s.arguments.length)
  | "$" => some (toString s.process)
  | "0" => some s.name
  | "!" | "-" => some ""
  | name =>
    match Text.readNat? name.toList with
    | some n => s.arguments[n - 1]?
    | none => s.assigned.get? name

/-- The value of a variable as it is asked for between braces: with a text to be
used in its place, or its length. -/
def State.parameter (s : State) (name : String) : String :=
  match (s.value? name), Text.splitFirst ':' name.toList with
  | some value, _ => value
  | none, some (bare, '-' :: fallback) =>
    match s.value? (String.ofList bare) with
    | some "" | none => String.ofList fallback
    | some value => value
  | none, _ => ""

/-- Text without the line ends at its end. -/
def dropLineEnds (text : String) : String :=
  String.ofList ((text.toList.reverse.dropWhile (· == '\n')).reverse)

/-- Opens a file for writing; the null device is none. -/
def sinkFor (append : Bool) (dir file : String) (disk : Disk) :
    Except IoKind Sink × Disk :=
  if file = "/dev/null" then (.ok .nothing, disk)
  else
    let path := Path.join dir file
    let text := if append then (disk.readText path).toOption.getD "" else ""
    let (result, disk) := disk.write path (.text text)
    (result.map fun _ => .file path, disk)

/-- Commands whose failing redirections end the shell. -/
def isSpecial (name : String) : Bool :=
  name ∈ [":", "exit", "export", "set", "shift", "exec", "eval", "unset", "."]

/-- The names under which the shell is started. -/
def isShellName (name : String) : Bool := name ∈ ["sh", "dash", "bash"]

/-- What a program name leads to. -/
inductive Program where
  | shell
  | tool (run : Tool)
  /-- A script with its path and source. -/
  | script (path : String) (source : String)

/-- Whether the first line of a script names the shell. -/
def namesShell (source : String) : Bool :=
  match source.toList with
  | '#' :: '!' :: rest =>
    let line := Text.trim (String.ofList (rest.takeWhile (· != '\n')))
    let words := (Text.pieces ' ' line.toList).map String.ofList
    match words with
    | [] => false
    | first :: more =>
      let base (p : String) := (Path.fileName? p).getD ""
      isShellName (base first) || (base first ==
        "env" && isShellName (more.headD ""))
  | _ => false

/-- A program that comes with the system. -/
def installed? (name : String) : Option Program :=
  if isShellName name then some .shell else (Tools.named? name).map .tool

/-- Finds a program: by name alone among those that come with the system, by a
path on the disk. -/
def resolve (disk : Disk) (dir program : String) : Except IoKind Program :=
  match Text.splitLast '/' program.toList with
  | none => match installed? program with
    | some p => .ok p
    | none => .error .notFound
  | some (folder, base) =>
    if String.ofList folder ∈ ["/bin", "/usr/bin"] then
      match installed? (String.ofList base) with
      | some p => .ok p
      | none => .error .notFound
    else do
      let path := Path.join dir program
      match ← disk.lookup path with
      | (_, .directory) => .error .permissionDenied
      | (_, .file _ false) => .error .permissionDenied
      | (_, .file (.archive _) true) => .error .notAProgram
      | (_, .file (.text source) true) =>
        if namesShell source then .ok (.script program source)
        else if Text.startsWith source "#!" then .error .notFound
        else .error .notAProgram

/-- The variables that programs started by a shell get. -/
def State.handedOn (s : State) : Dict String :=
  s.assigned.filter fun entry => s.exported.contains entry.1

/-- A shell for a script that another shell starts. -/
def State.child (s : State) (name : String) (arguments : List String) : State :=
  { s with
    assigned := s.handedOn
    exported := s.handedOn.keys
    name, arguments
    process := s.process + 1
    status := 0 }

/-- The signal that an option of `kill` names. -/
def signalOf (option : String) : Nat :=
  let name := (Text.dropStart? ['-'] option.toList).getD []
  match Text.readNat? name with
  | some n => n
  | none => match String.ofList name with
    | "HUP" => 1 | "INT" => 2 | "QUIT" => 3 | "KILL" => 9
    | "USR1" => 10 | "USR2" => 12 | _ => 15

mutual
/-- Expands one part of a word. -/
def expandPart : (fuel : Nat) → Streams → Part → Script Expansion
  | 0, _, _ => throw (.signalled 9)
  | fuel + 1, streams, part => do
    match part with
    | .text s quoted => return .whole (s.map (·, quoted))
    | .variable name quoted =>
      let s ← get
      -- `"$@"` is one field for each argument, whatever they hold
      if name = "@" ∧ quoted then return .each s.arguments
      let value :=
        if name = "@" ∨ name = "*" then Text.join " " s.arguments
        else s.parameter name
      return if quoted then .whole (Fields.quoteAll value) else .split value.toList
    -- the inner commands see the exit code so far and leave theirs
    | .output source quoted =>
      let text ← capture (enclosed (do
        modify fun s => { s with status := s.seen }
        runSource fuel { streams with out := .output } source))
      let text := dropLineEnds text
      return if quoted then .whole (Fields.quoteAll text) else .split text.toList

/-- The fields that words make. -/
def expandWords : (fuel : Nat) → Streams → List Word → Script (List String)
  | 0, _, _ => throw (.signalled 9)
  | fuel + 1, streams, words => do
    let fields ← words.mapM fun word => do
      return Fields.ofExpansions (← word.mapM (expandPart fuel streams))
    let s ← get
    return fields.flatten.flatMap (expandField s.disk s.dir)

/-- The one text that a word makes where nothing is cut. -/
def expandWhole : (fuel : Nat) → Streams → Word → Script String
  | 0, _, _ => throw (.signalled 9)
  | fuel + 1, streams, word => do
    let parts ← word.mapM (expandPart fuel streams)
    return plainText (parts.flatMap Expansion.marked)

/-- Opens what the redirections name; nothing if one of them fails. -/
def redirect : (fuel : Nat) → Streams → List Redirection →
    Script (Option (Streams × Option String))
  | 0, _, _ => throw (.signalled 9)
  | fuel + 1, streams, redirections => do
    redirections.foldlM (fun acc r => do
      let some (current, input) := acc | return none
      let s ← get
      let opened (descriptor : Nat) (append : Bool) (file : String) : Script
          (Option (Streams × Option String)) := do
        let (result, disk) := sinkFor append s.dir file s.disk
        modify fun s => { s with disk }
        match result with
        | .error kind =>
          complain current s!"{s.name}: cannot create {file}: {kind.reason}" 2
          return none
        | .ok sink =>
          return some (if descriptor = 2 then { current with err := sink }
            else { current with out := sink }, input)
      match r with
      | .write descriptor file =>
        opened descriptor false (← expandWhole fuel streams file)
      | .append descriptor file =>
        opened descriptor true (← expandWhole fuel streams file)
      -- where the other stream goes now; a later change of it has no
      -- effect on this one
      | .duplicate descriptor of =>
        let sink := match ← expandWhole fuel streams of with
          | "1" => current.out
          | "2" => current.err
          | _ => .nothing
        return some (if descriptor = 2 then { current with err := sink }
          else { current with out := sink }, input)
      | .hereDocument body =>
        return some (current, some (← expandWhole fuel streams body))
      | .input file =>
        let file ← expandWhole fuel streams file
        if file = "/dev/null" then return some (current, some "")
        match s.disk.readText (Path.join s.dir file) with
        | .ok text => return some (current, some text)
        | .error kind =>
          complain current s!"{s.name}: cannot open {file}: {kind.reason}" 2
          return none) (some (streams, none))

/-- Runs a shell that the current one starts. -/
def runShell : (fuel : Nat) → Streams → List String → Script Unit
  | 0, _, _ => throw (.signalled 9)
  | fuel + 1, streams, arguments => do
    match arguments with
    | "-c" :: source :: rest =>
      enclosed (do
        modify fun s => s.child (rest.headD "sh") (rest.drop 1)
        runSource fuel streams source.toList)
    -- without arguments a shell reads its commands from the input
    | [] =>
      let source := (← get).input
      enclosed (do
        modify fun s => { s.child "sh" [] with input := "" }
        runSource fuel streams source.toList)
    | file :: rest =>
      let s ← get
      match s.disk.readText (Path.join s.dir file) with
      | .error _ => complain streams s!"sh: 0: cannot open {file}: No such file" 2
      | .ok source =>
        enclosed (do
          modify fun s => s.child file rest
          runSource fuel streams source.toList)

/-- Runs a program by name. -/
def runProgram : (fuel : Nat) → Streams → String → List String → Script Unit
  | 0, _, _, _ => throw (.signalled 9)
  | fuel + 1, streams, name, arguments => do
    let s ← get
    match resolve s.disk s.dir name with
    | .ok .shell => runShell fuel streams arguments
    | .ok (.script path source) =>
      enclosed (do
        modify fun s => s.child path arguments
        runSource fuel streams source.toList)
    | .ok (.tool tool) =>
      let effect := tool arguments s.dir s.disk s.input
      set { s with disk := effect.disk, input := effect.input, status := effect.status }
      write streams.err effect.errors
      write streams.out effect.output
    -- a file that names no program to run it is run as a script of the shell
    | .error .notAProgram =>
      match s.disk.readText (Path.join s.dir name) with
      | .ok source =>
        enclosed (do
          modify fun s => s.child name arguments
          runSource fuel streams source.toList)
      | .error _ => complain streams s!"{s.name}: {name}: Exec format error" 126
    | .error .permissionDenied =>
      complain streams s!"{s.name}: {name}: Permission denied" 126
    | .error _ => complain streams s!"{s.name}: {name}: not found" 127

/-- Runs a command of the shell itself, or a program. -/
def runNamed : (fuel : Nat) → Streams → String → List String → Script Unit
  | 0, _, _, _ => throw (.signalled 9)
  | fuel + 1, streams, name, arguments => do
    match name with
    | ":" | "wait" => setStatus 0
    | "exit" =>
      let last := (← get).seen
      throw (.exited (match arguments.head? with
        | some n => (Text.readNat? n.toList).getD 2 % 256
        | none => last))
    | "cd" =>
      let s ← get
      let target := arguments.headD ((s.value? "HOME").getD "")
      let path := Path.join s.dir target
      if s.disk.isDirectory (if path.isEmpty then "." else path) then
        set { s with dir := path, status := 0 }
      else complain streams s!"{s.name}: cd: can't cd to {target}" 2
    | "export" =>
      for argument in arguments do
        match Text.splitFirst '=' argument.toList with
        | some (name, value) =>
          let name := String.ofList name
          modify fun s => { s with
            assigned := s.assigned.insert name (String.ofList value)
            exported := name :: s.exported }
        | none => modify fun s => { s with exported := argument :: s.exported }
      setStatus 0
    | "unset" =>
      modify fun s =>
        { s with assigned := arguments.foldl Dict.erase s.assigned, status := 0 }
    | "set" =>
      match arguments with
      | "--" :: rest => modify fun s => { s with arguments := rest, status := 0 }
      | _ => setStatus 0
    | "read" =>
      let s ← get
      let line := s.input.toList.takeWhile (· != '\n')
      let blank (c : Char) : Bool := c == ' ' || c == '\t'
      set { s with
        input := String.ofList (s.input.toList.drop (line.length + 1))
        assigned := s.assigned.extend (Fields.share blank arguments line)
        status := if s.input.length = line.length then 1 else 0 }
    | "shift" =>
      let count := (Text.readNat? (arguments.headD "1").toList).getD 1
      modify fun s => { s with arguments := s.arguments.drop count, status := 0 }
    | "eval" => runSource fuel streams (Text.join " " arguments).toList
    | "." =>
      let s ← get
      match s.disk.readText (Path.join s.dir (arguments.headD "")) with
      | .ok source => runSource fuel streams source.toList
      | .error _ => throw (.exited 2)
    | "exec" =>
      match arguments with
      | [] => setStatus 0
      | program :: rest =>
        let s ← get
        -- a shell that replaces this one keeps its process id, so that
        -- it can kill itself
        match resolve s.disk s.dir program, rest with
        | .ok .shell, file :: rest =>
          match s.disk.readText (Path.join s.dir file) with
          | .ok source =>
            set { s.child file rest with process := s.process }
            runSource fuel streams source.toList
          | .error _ => throw (.exited 2)
        | _, _ => runProgram fuel streams program rest
        throw (.exited (← get).status)
    | "kill" =>
      let s ← get
      let (option, targets) := match arguments with
        | first :: rest =>
          if first.toList.head? == some '-' then (first, rest) else ("-15", arguments)
        | [] => ("-15", [])
      -- no process but the shell itself is there to be killed
      if targets.contains (toString s.process) then
        throw (.signalled (signalOf option))
      else setStatus 1
    | _ => runProgram fuel streams name arguments

/-- Runs a simple command. -/
def runSimple : (fuel : Nat) → Streams → List (String × Word) → List Word →
    List Redirection → Script Unit
  | 0, _, _, _, _ => throw (.signalled 9)
  | fuel + 1, streams, assignments, words, redirections => do
    beginCommand
    let fields ← expandWords fuel streams words
    let values ← assignments.mapM fun (name, word) => do
      return (name, ← expandWhole fuel streams word)
    match fields with
    -- assignments alone change the shell's own variables
    | [] =>
      let _ ← redirect fuel streams redirections
      modify fun s => { s with assigned := s.assigned.extend values }
    | name :: arguments =>
      setStatus 0
      match ← redirect fuel streams redirections with
      | none => if isSpecial name then throw (.exited 2)
      | some (streams, input) =>
        -- assignments before a program last as long as the program runs
        let before := (← get)
        modify fun s => { s with
          assigned := s.assigned.extend values
          exported := values.map (·.1) ++ s.exported }
        match input with
        | some text => withInput text (runNamed fuel streams name arguments)
        | none => runNamed fuel streams name arguments
        unless values.isEmpty || isSpecial name do
          modify fun s =>
            { s with assigned := before.assigned, exported := before.exported }

/-- Runs a command. -/
def runCommand : (fuel : Nat) → Streams → Command → Script Unit
  | 0, _, _ => throw (.signalled 9)
  | fuel + 1, streams, command => do
    match command with
    | .nothing => pure ()
    | .simple assignments words redirections =>
      runSimple fuel streams assignments words redirections
    | .pipe first second =>
      -- the first command is over before the second one reads what it wrote
      let text ← capture
        (enclosed (runCommand fuel { streams with out := .output } first))
      withInput text (enclosed (runCommand fuel streams second))
    | .negate body =>
      runCommand fuel streams body
      setStatus (if (← get).status = 0 then 1 else 0)
    | .both first second =>
      runCommand fuel streams first
      if (← get).status = 0 then runCommand fuel streams second
    | .either first second =>
      runCommand fuel streams first
      if (← get).status ≠ 0 then runCommand fuel streams second
    | .sequence first second =>
      runCommand fuel streams first
      runCommand fuel streams second
    | .branch condition yes no =>
      runCommand fuel streams condition
      if (← get).status = 0 then runCommand fuel streams yes
      -- an `if` without a branch to take succeeds
      else match no with
        | .nothing => setStatus 0
        | no => runCommand fuel streams no
    | .loop whileTrue condition body => runLoop fuel streams whileTrue condition body 0
    | .each name words body =>
      beginCommand
      let values ← expandWords fuel streams words
      unless values.isEmpty do modify fun s => { s with status := s.seen }
      for value in values do
        modify fun s => { s with assigned := s.assigned.insert name value }
        runCommand fuel streams body
    | .select subject clauses =>
      beginCommand
      let text ← expandWhole fuel streams subject
      runClauses fuel streams text.toList clauses
    -- jobs in the background are over at once, so that `wait` has nothing to do
    | .background body =>
      enclosed (runCommand fuel streams body)
      setStatus 0
    | .group body redirections =>
      redirected fuel streams redirections (runCommand fuel · body)
    | .subshell body redirections => redirected fuel streams redirections (fun streams =>
        enclosed (runCommand fuel streams body))

/-- Turns a loop; its exit code is that of the last pass. -/
def runLoop : (fuel : Nat) → Streams → (whileTrue : Bool) → Command → Command →
    (last : Nat) → Script Unit
  | 0, _, _, _, _, _ => throw (.signalled 9)
  | fuel + 1, streams, whileTrue, condition, body, last => do
    runCommand fuel streams condition
    if ((← get).status = 0) = whileTrue then
      runCommand fuel streams body
      runLoop fuel streams whileTrue condition body (← get).status
    else setStatus last

/-- Runs the commands of the first clause with a pattern that matches a text. -/
def runClauses : (fuel : Nat) → Streams → List Char →
    List (List Word × Command) → Script Unit
  | 0, _, _, _ => throw (.signalled 9)
  | _, _, _, [] => pure ()
  | fuel + 1, streams, text, (patterns, body) :: clauses => do
    let matching ← patterns.anyM fun pattern => do
      let parts ← pattern.mapM (expandPart fuel streams)
      let marked := parts.flatMap Expansion.marked
      return matchesName (marked.length + text.length + 2) marked text
    if matching then runCommand fuel streams body
    else runClauses fuel streams text clauses

/-- Runs commands with redirections around them. -/
def redirected : (fuel : Nat) → Streams → List Redirection →
    (Streams → Script Unit) → Script Unit
  | 0, _, _, _ => throw (.signalled 9)
  | fuel + 1, streams, redirections, body => do
    match ← redirect fuel streams redirections with
    | none => pure ()
    | some (streams, some input) => withInput input (body streams)
    | some (streams, none) => body streams

/-- Runs the commands of a source line by line; a line that is
none ends the shell. -/
def runSource : (fuel : Nat) → Streams → List Char → Script Unit
  | 0, _, _ => throw (.signalled 9)
  | fuel + 1, streams, source => do
    let shellName := (← get).name
    match parseLine source with
    | none =>
      complain streams s!"{shellName}: syntax error" 2
      throw (.exited 2)
    | some (command, rest) =>
      runCommand fuel streams command
      unless rest.isEmpty do runSource fuel streams rest
end

/-- How deeply commands may nest and how often loops may turn. -/
def patience : Nat := 20000

/-- Runs a program on a disk, in an environment. -/
def start (environment : Dict String) (job : Nat) (launch : Launch) (disk : Disk) :
    Except IoKind Outcome :=
  if (launch.program :: launch.arguments).any fun s =>
    s.toList.contains '\x00' then .error .invalidInput
  else do
    let program ← resolve disk "" launch.program
    let assigned := environment.extend launch.environment
    let state : State := {
      disk
      assigned
      exported := assigned.keys
      name := launch.program
      process := 1000 + 2 * job
      input := launch.input }
    let body : Script Unit := match program, launch.arguments with
      | .shell, "-c" :: source :: rest => do
        set { state with name := rest.headD "sh", arguments := rest.drop 1 }
        runSource patience {} source.toList
      | .shell, file :: rest => do
        match disk.readText file with
        | .ok source =>
          set { state with name := file, arguments := rest }
          runSource patience {} source.toList
        | .error _ =>
          complain {} s!"{launch.program}: 0: cannot open {file}: No such file" 2
      | .shell, [] => runSource patience {} launch.input.toList
      | .script path source, arguments => do
        set { state with name := path, arguments }
        runSource patience {} source.toList
      | .tool tool, arguments => do
        let effect := tool arguments "" disk launch.input
        set { state with
          disk := effect.disk, status := effect.status, output := effect.output
          errors := effect.errors }
    let (result, after) := body.run state
    let status := match result with
      | .ok _ => Status.exited after.status
      | .error status => status
    return { status, output := after.output, errors := after.errors, disk := after.disk }

end Playbook.Shell
