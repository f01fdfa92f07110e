import Playbook.Loop

/-!
# Playbook — the command line

`kiln --project FILE` runs the playbook of a project. Further options append the
log to a file, build the registry from a saved state instead of the project, and
save the state of the registry after the run, even if the run has failed.

The exit code is 0 for success, 1 for a failure, which is the last line of the
log, 2 for a command line that cannot be understood, and 101 for a program that
was ended by an overflow, of which the log says nothing.
-/

namespace Playbook

/-- What a command line asks for. -/
structure Options where
  project : Option String := none
  logFile : Option String := none
  resume : Option String := none
  saveState : Option String := none
deriving DecidableEq, Inhabited, Repr

/-- What a command line means. -/
inductive Command where
  | run (project : String) (options : Options)
  | showVersion
  | showHelp
  | misused
deriving DecidableEq, Inhabited, Repr

namespace Command

/-- The four options that take a value. -/
inductive Name where
  | project
  | logFile
  | resume
  | saveState
deriving DecidableEq, Inhabited, Repr

/-- The option of a long name. -/
def Name.ofLong? : String → Option Name
  | "project" => some project
  | "log-file" => some logFile
  | "resume" => some resume
  | "save-state" => some saveState
  | _ => none

/-- Sets an option. An option is given once, and not to the empty text. -/
def set (options : Options) (name : Name) (value : String) : Option Options :=
  if value.isEmpty then none
  else match name with
    | .project => if options.project.isSome then none
      else some { options with project := some value }
    | .logFile => if options.logFile.isSome then none
      else some { options with logFile := some value }
    | .resume => if options.resume.isSome then none
      else some { options with resume := some value }
    | .saveState => if options.saveState.isSome then none
      else some { options with saveState := some value }

/-- Whether an argument can be the value of the option before it. -/
def isValue (argument : String) : Bool :=
  argument = "-" || argument.toList.head? != some '-'

/-- What an argument that starts with a dash says. -/
inductive Reading where
  | ends (command : Command)
  /-- An option with its value, if that is in the same argument. -/
  | option (name : Name) (value : Option String)

/-- Reads an argument. -/
def read (argument : String) : Reading :=
  match argument.toList with
  | '-' :: '-' :: long =>
    let (name, value) := match Text.splitFirst '=' long with
      | some (name, value) => (String.ofList name, some (String.ofList value))
      | none => (String.ofList long, none)
    match name, value with
    | "help", none => .ends .showHelp
    | "version", none => .ends .showVersion
    | name, value => match Name.ofLong? name with
      | some name => .option name value
      | none => .ends .misused
  | '-' :: 'h' :: _ => .ends .showHelp
  | '-' :: 'V' :: _ => .ends .showVersion
  | ['-', 'p'] => .option .project none
  -- `-pFILE` and `-p=FILE` are the same
  | '-' :: 'p' :: '=' :: value => .option .project (some (String.ofList value))
  | '-' :: 'p' :: value => .option .project (some (String.ofList value))
  | _ => .ends .misused

/-- Reads the arguments from left to right; the first that
settles the matter does. -/
def parseFrom (options : Options) : List String → Command
  | [] => match options.project with
    | some project => .run project options
    | none => .misused
  | argument :: rest =>
    match read argument, rest with
    | .ends command, _ => command
    | .option name (some value), rest => match set options name value with
      | some options => parseFrom options rest
      | none => .misused
    | .option name none, value :: rest =>
      if isValue value then match set options name value with
        | some options => parseFrom options rest
        | none => .misused
      else .misused
    | .option _ none, [] => .misused

/-- The meaning of a command line. -/
def parse (arguments : List String) : Command := parseFrom {} arguments

end Command

namespace Level

/-- How serious a level is; the most serious is 1. -/
def rank : Level → Nat
  | error => 1
  | warn => 2
  | info => 3

def name : Level → String
  | error => "ERROR"
  | warn => "WARN"
  | info => "INFO"

end Level

namespace Event

/-- Ranges of characters that do not stand for themselves between quotes:
controls, blanks other than the space, marks that join the character before
them, and those without a shape. -/
def hiddenRanges : List (Nat × Nat) := [
  (0x00, 0x1F), (0x7F, 0xA0), (0xAD, 0xAD), (0x300, 0x36F), (0x483, 0x489),
  (0x591, 0x5BD), (0x600, 0x605),
  (0x1680, 0x1680), (0x180B, 0x180F), (0x1AB0, 0x1ACE), (0x1DC0, 0x1DFF),
  (0x2000, 0x200F), (0x2028, 0x202F),
  (0x205F, 0x206F), (0x20D0, 0x20F0), (0x3000, 0x3000), (0x302A, 0x302F),
  (0x3099, 0x309A), (0xE000, 0xF8FF),
  (0xFE00, 0xFE0F), (0xFE20, 0xFE2F), (0xFEFF, 0xFEFF), (0xFFF0, 0xFFFB),
  (0xE0000, 0x10FFFF)]

/-- Whether a character stands for itself between quotes. -/
def isPlain (c : Char) : Bool := !hiddenRanges.any fun (first, last) =>
  first ≤ c.toNat && c.toNat ≤ last

/-- A character between quotes on a log line. -/
def quotedChar (c : Char) : List Char :=
  match c with
  | '"' => ['\\', '"']
  | '\\' => ['\\', '\\']
  | '\n' => ['\\', 'n']
  | '\r' => ['\\', 'r']
  | '\t' => ['\\', 't']
  | '\x00' => ['\\', '0']
  | c =>
    if isPlain c then [c] else '\\' :: 'u' :: '\x7b' :: Nat.toDigits 16
      c.toNat ++ ['\x7d']

/-- A detail on a log line. -/
def fieldText (f : Field) : String :=
  f.name ++ "=" ++ if f.quoted then String.ofList
  ('"' :: f.text.toList.flatMap quotedChar ++ ['"']) else f.text

/-- The text of an event on a log line. -/
def lineText (message : String) (fields : List Field) : String :=
  Text.join " " (message :: fields.map fieldText)

/-- The log line of an event, if it has one. -/
def line? : Event → Option (Level × String)
  | logged level message fields => some (level, lineText message fields)
  | _ => none

end Event

namespace Command

/-- The words that set how serious an event has to be for the log. -/
def levelWords : List (String × Nat) :=
  [("off", 0), ("error", 1), ("warn", 2), ("info", 3), ("debug", 4), ("trace", 5),
    ("0", 0), ("1", 1), ("2", 2), ("3", 3), ("4", 4), ("5", 5)]

/-- The rank that a word sets. -/
def levelOf? (word : String) : Option Nat :=
  (levelWords.find? fun entry => entry.1 == Path.lower word).map (·.2)

/-- Reads `level`, `source=level` or `source`, which means everything from that
source; the empty source is any. -/
def readDirective (text : String) : Option (String × Nat) :=
  match levelOf? text with
  | some rank => some ("", rank)
  | none =>
    let (source, level) := match Text.splitFirst '=' text.toList with
      | some (source, level) => (source, String.ofList level)
      | none => (text.toList, "")
    if source.isEmpty || !source.all fun c =>
      c.isAlphanum || c ∈ ['_', ':', '-'] then none
    else if level.isEmpty then some (String.ofList source, 5)
    else (levelOf? level).map fun rank => (String.ofList source, rank)

/-- The rank that directives set for the program: that of the longest source
that is the beginning of its name. -/
def rankAmong (directives : List (String × Nat)) : Nat :=
  let mine := directives.filter fun (source, _) => Text.startsWith "kiln" source
  (mine.foldl (fun (best : Nat × Nat) (source, rank) =>
    if best.1 ≤ source.length then (source.length, rank) else best) (0, 0)).2

/-- The least serious rank that is logged: by default, and where the variable cannot
be read, everything from information on, and errors only if it says nothing. -/
def logRank (environment : Dict String) : Nat :=
  match environment.get? "RUST_LOG" with
  | none => 3
  | some text =>
    let parts := ((Text.pieces ',' text.toList).map String.ofList).filter
        fun part => !part.isEmpty
    match parts, parts.mapM readDirective with
    | [], _ => 1
    | _, some directives => rankAmong directives
    | _, none => 3

/-- The lines of a journal that are logged. -/
def logLines (rank : Nat) (journal : Array Event) : List (Level × String) :=
  (journal.toList.filterMap Event.line?).filter fun entry => entry.1.rank ≤ rank

/-- Opens the log file for appending. -/
def openLog (path : String) : Act Unit := do
  Act.onDisk (Store.makeParent .io path)
  -- a log that is there is only added to
  Act.onDisk (Store.change .io fun disk =>
    if disk.isFile path then (.ok (), disk) else disk.write path (.text ""))

/-- Appends lines to the log file. -/
def appendLog (path : String) (lines : List (Level × String))
    (disk : Disk) : Disk :=
  let before := (disk.readText path).toOption.getD ""
  let text := String.join (lines.map fun (level, text) =>
      level.name ++ " " ++ text ++ "\n")
  (disk.write path (.text (before ++ text))).2

/-- Reads the project file. -/
def loadProject (path : String) : Act ProjectSpec :=
  Act.within (.loadProject path)
  (Act.fromDisk (Document.read ProjectSpec.decode path))

/-- Runs the playbook of a registry and keeps the world that it leaves. -/
def playOn (ctx : Context) (registry : Registry) (plan : Plan) :
    Act (Except Failure Unit) := fun world =>
  let (result, session) :=
    (Session.play ctx).run { world, run := { registry, plan } }
  (.ok result, session.world)

/-- Runs a project. -/
def runProject (host : Host) (environment : Dict String) (project : String)
    (options : Options) : Act Unit := do
  let spec ← loadProject project
  let (settings, events) := Settings.ofEnvironment environment
  for event in events do Act.note event
  let some settings := settings | Act.fail .overflow
  let ctx : Context := { settings, host, home := Settings.home environment }
  let registry ← match options.resume with
    | some path => Registry.resume ctx path
    | none => Registry.ofProject ctx spec
  -- the state is saved before a failure of the run is passed on
  let outcome ← playOn ctx registry spec.plan
  if let some path := options.saveState then
    let _ ← registry.save ctx path
  liftM outcome

/-- What a command leaves. -/
structure Result where
  code : Nat
  output : String := ""
  lines : List (Level × String) := []
  world : World

/-- The name and version of the program. -/
def versionText : String := "kiln 0.1.0\n"

/-- How the program is used. -/
def helpText : String := Text.join "\n" [
  "Runs a kiln project playbook", "",
  "Usage: kiln [OPTIONS] --project <PROJECT>", "",
  "Options:",
  "  -p, --project <PROJECT>        Project file (YAML, or JSON with a `.json` extension)",
  "      --log-file <LOG_FILE>      Append log output to this file instead of stderr",
  "      --resume <RESUME>          Rebuild the registry from a saved state file instead of the project's items",
  "      --save-state <SAVE_STATE>  Save the registry state here once the playbook finishes",
  "  -h, --help                     Print help",
  "  -V, --version                  Print version", ""]

/-- The world in which a command starts: the computations that are always there
are registered. -/
def startWorld (disk : Disk) : World :=
  Computation.builtins.foldl (fun w entry => w.register entry.1 entry.2) { disk }

/-- Opens the log, runs a project, and logs its failure. -/
def runLogged (host : Host) (environment : Dict String) (project : String)
    (options : Options) (disk : Disk) :
    Result :=
  let body : Act (Except Failure Unit) := do
    if let some path := options.logFile then openLog path
    Act.attempt (runProject host environment project options)
  let (result, world) := body.run (startWorld disk)
  match result with
  | .error _ => { code := 1, world }
  | .ok outcome =>
    -- the failure is the last line of the log
    let (code, journal) := match outcome with
      | .ok _ => (0, world.journal)
      | .error ⟨_, .overflow⟩ => (101, world.journal)
      | .error failure => (1, world.journal.push (.trouble failure.report []))
    let lines := logLines (logRank environment) journal
    let disk := match options.logFile with
      | some path => appendLog path lines world.disk
      | none => world.disk
    { code, output := world.printed, lines, world := { world with disk } }

/-- Carries out a command. -/
def carryOut (host : Host) (environment : Dict String) (disk : Disk) :
    Command → Result
  | run project options => runLogged host environment project options disk
  | showVersion => { code := 0, output := versionText, world := { disk } }
  | showHelp => { code := 0, output := helpText, world := { disk } }
  | misused => { code := 2, world := { disk } }

end Command

end Playbook
