import Playbook.Json.Decode
import Playbook.Npy

/-!
# Playbook — failures

A `Failure` is a `Cause` together with the `Frame`s it passed through on its way
out, outermost first. What callers decide on is the cause; `Failure.message` is
the text shown to people, frames and cause joined by colons.

All wording of this library's failures is in this module.
-/

namespace Playbook

/-- Why the operating system refused something. -/
inductive IoKind where
  | notFound
  | notADirectory
  | isADirectory
  | alreadyExists
  | permissionDenied
  | directoryNotEmpty
  | invalidInput
  | invalidFilename
  | invalidData
  | storageFull
  | readOnlyFilesystem
  | resourceBusy
  | brokenPipe
  /-- A program file that no loader accepts. -/
  | notAProgram
deriving DecidableEq, Inhabited, Repr

namespace IoKind

def name : IoKind → String
  | notFound => "NotFound"
  | notADirectory => "NotADirectory"
  | isADirectory => "IsADirectory"
  | alreadyExists => "AlreadyExists"
  | permissionDenied => "PermissionDenied"
  | directoryNotEmpty => "DirectoryNotEmpty"
  | invalidInput => "InvalidInput"
  | invalidFilename => "InvalidFilename"
  | invalidData => "InvalidData"
  | storageFull => "StorageFull"
  | readOnlyFilesystem => "ReadOnlyFilesystem"
  | resourceBusy => "ResourceBusy"
  | brokenPipe => "BrokenPipe"
  | notAProgram => "Uncategorized"

/-- The kind as it appears inside a message. -/
def text (kind : IoKind) : String := "<io " ++ kind.name ++ ">"

/-- The operating system's words. -/
def reason : IoKind → String
  | notFound => "No such file or directory"
  | notADirectory => "Not a directory"
  | isADirectory => "Is a directory"
  | alreadyExists => "File exists"
  | permissionDenied => "Permission denied"
  | directoryNotEmpty => "Directory not empty"
  | invalidFilename => "File name too long"
  | storageFull => "No space left on device"
  | readOnlyFilesystem => "Read-only file system"
  | resourceBusy => "Device or resource busy"
  | brokenPipe => "Broken pipe"
  | notAProgram => "Exec format error"
  | invalidInput => "file name contained an unexpected NUL byte"
  | invalidData => "stream did not contain valid UTF-8"

/-- The number that the operating system gives the kind, if it comes from there. -/
def number? : IoKind → Option Nat
  | notFound => some 2
  | notADirectory => some 20
  | isADirectory => some 21
  | alreadyExists => some 17
  | permissionDenied => some 13
  | directoryNotEmpty => some 39
  | invalidFilename => some 36
  | storageFull => some 28
  | readOnlyFilesystem => some 30
  | resourceBusy => some 16
  | brokenPipe => some 32
  | notAProgram => some 8
  | invalidInput | invalidData => none

/-- The operating system's words with their number. -/
def systemText (kind : IoKind) : String :=
  match kind.number? with
  | some n => kind.reason ++ s!" (os error {n})"
  | none => kind.reason

end IoKind

/-- How a program ended. -/
inductive Status where
  | exited (code : Nat)
  | signalled (signal : Nat)
deriving DecidableEq, Inhabited, Repr

namespace Status

def isSuccess (s : Status) : Bool := s == exited 0

/-- The names of the signals that end programs. -/
def signalName (signal : Nat) : String :=
  match signal with
  | 1 => " (SIGHUP)" | 2 => " (SIGINT)" | 3 => " (SIGQUIT)" | 4 =>
    " (SIGILL)" | 5 => " (SIGTRAP)"
  | 6 => " (SIGABRT)" | 7 => " (SIGBUS)" | 8 => " (SIGFPE)" | 9 =>
    " (SIGKILL)" | 10 => " (SIGUSR1)"
  | 11 => " (SIGSEGV)" | 12 => " (SIGUSR2)" | 13 =>
    " (SIGPIPE)" | 14 => " (SIGALRM)"
  | 15 => " (SIGTERM)" | _ => ""

def text : Status → String
  | exited code => s!"exit status: {code}"
  | signalled signal => s!"signal: {signal}" ++ signalName signal

end Status

/-- What is wrong with the description of a runner. -/
inductive ConfigurationFault where
  | noComputation
  | notAPrototype
  | noPrototype
  | noTouchfile
  | severalArrays (names : List String)
deriving DecidableEq, Inhabited, Repr

def ConfigurationFault.text : ConfigurationFault → String
  | noComputation =>
    "no computation is registered under this identifier and no executable exists at this path"
  | notAPrototype => "script prototypes must end in '.proto.sh'"
  | noPrototype => "script prototype does not exist"
  | noTouchfile => "prototype has no \x7b\x7btouchfile\x7d\x7d placeholder"
  | severalArrays names => "more than one array variable: " ++ Text.join ", " names

/-- Why a result does not fit the output of its step. -/
inductive BindingFault where
  | tooFew (names values : Nat)
  | notACollection
  | noKey (key : String)
  | notAMapping
deriving DecidableEq, Inhabited, Repr

def BindingFault.text : BindingFault → String
  | tooFew names values => s!"{names} names but only {values} values returned"
  | notACollection => "a list of names needs a list or mapping result"
  | noKey key => s!"result has no key '{key}'"
  | notAMapping => "copydict needs a mapping result"

/-- What a database refuses. -/
inductive DatabaseFault where
  | noColumn (column : String)
  | notAStorage (column : String)
  | unevenColumns
  | noExporter (exporter : String)
  | noNameArgument
  | noValuesArgument
  | notAList (column : String)
  | tooFewValues (column : String) (values entries : Nat)
  | notADatabase (other : String)
deriving DecidableEq, Inhabited, Repr

def DatabaseFault.text (database : String) : DatabaseFault → String
  | noColumn column => s!"database '{database}' has no column '{column}'"
  | notAStorage column =>
    s!"column '{column}' of database '{database}' is not a storage column"
  | unevenColumns =>
    s!"columns added to database '{database}' have different lengths"
  | noExporter exporter => s!"database '{database}' has no exporter '{exporter}'"
  | noNameArgument =>
    s!"action 'column' of database '{database}' needs a 'name' argument"
  | noValuesArgument =>
    s!"action 'add-entries' of database '{database}' needs a 'values' mapping"
  | notAList column =>
    s!"values for column '{column}' of database '{database}' must be a list"
  | tooFewValues column values entries =>
    s!"column '{column}' has {values} values for {entries} entries"
  | notADatabase other =>
    s!"cannot merge '{other}' into database '{database}': not a database"

/-- What is wrong with the fields of a step. -/
inductive StepFault where
  | noText (kind field : String)
  | noField (kind field : String)
  | argumentsNotAMapping (found : Json)
  | noKeyList
  | keyNotText (found : Json)
  | keyHoldsItem (key : String)
  | entriesNotIds
  | valuesNotColumns
deriving DecidableEq, Inhabited, Repr

def StepFault.text : StepFault → String
  | noText kind field => s!"step '{kind}' needs a string field '{field}'"
  | noField kind field => s!"step '{kind}' is missing field '{field}'"
  | argumentsNotAMapping found =>
    "action arguments must be a mapping, found " ++ found.compact
  | noKeyList => "dump_npz step needs a 'keys' list"
  | keyNotText found => "dump_npz keys must be strings, found " ++ found.compact
  | keyHoldsItem key =>
    s!"namespace value '{key}' holds a registry item and cannot be written to npz"
  | entriesNotIds =>
    "'entries' of an update-entries step must be a list of entry ids"
  | valuesNotColumns =>
    "'values' of an update-entries step must be a mapping of columns"

/-- What a figure of merit refuses. -/
inductive MeritFault where
  | noVector
  | notNumbers (found : Json)
  | notCategories (found : Json)
deriving DecidableEq, Inhabited, Repr

def MeritFault.text : MeritFault → String
  | noVector => "sphere requires a numeric 'x'"
  | notNumbers found => "expected numbers, found " ++ found.compact
  | notCategories found => "expected categorical numbers, found " ++ found.compact

/-- The innermost reason of a failure. -/
inductive Cause where
  | configuration (subject : String) (fault : ConfigurationFault)
  | missingArguments (runner : String) (missing : List String)
  | resolution (reference : String)
  | unknownItem (name : String)
  | unknownAction (item action : String)
  | unsupported (item capability : String)
  | outputBinding (fault : BindingFault)
  | itemBusy (item : String)
  | waitTimeout (seconds : Nat) (pending : List String)
  | cancelled (pending : List String)
  /-- A wait that neither ended nor was bounded within the polls
  that were looked at. -/
  | unfinished (pending : List String)
  | documentIo (path : String) (kind : IoKind)
  | documentJson (path : String) (fault : Fault)
  | documentYaml (path : String)
  | array (name : String) (fault : Npy.Fault)
  | archiveIo (kind : IoKind)
  /-- An archive would hold two members of one name. -/
  | archiveMember
  | json (fault : Fault)
  | io (kind : IoKind)
  | database (name : String) (fault : DatabaseFault)
  | step (fault : StepFault)
  | merit (fault : MeritFault)
  | arrayNotAList (variableName runner : String)
  | preparation (program reason : String)
  | exit (program : String) (status : Status) (errors : String)
  /-- A loop that was not stopped within the passes that were looked at. -/
  | endlessLoop
  /-- A product that its word does not hold. The program ends there, with no
  message of its own. -/
  | overflow
  /-- A computation's own words. -/
  | reported (text : String)
deriving DecidableEq, Inhabited, Repr

def Cause.text : Cause → String
  | configuration subject fault =>
    s!"configuration error in '{subject}': " ++ fault.text
  | missingArguments runner missing =>
    s!"runner '{runner}' is missing required arguments: " ++ Text.join ", " missing
  | resolution reference => s!"unresolvable reference '{reference}'"
  | unknownItem name => s!"unknown registry item '{name}'"
  | unknownAction item action => s!"item '{item}' has no action '{action}'"
  | unsupported item capability => s!"item '{item}' does not support {capability}"
  | outputBinding fault => "cannot bind output: " ++ fault.text
  | itemBusy item => s!"item '{item}' is busy; re-entrant calls are not allowed"
  | waitTimeout seconds pending =>
    s!"timed out after {seconds}s waiting for {pending.length} sentinel(s)"
  | cancelled pending =>
    s!"wait cancelled with {pending.length} sentinel(s) pending"
  | unfinished pending => s!"still waiting for {pending.length} sentinel(s)"
  | documentIo path kind => s!"document I/O error on {path}: " ++ kind.text
  | documentJson path fault => s!"invalid JSON document {path}: " ++ fault.text
  | documentYaml path => s!"invalid YAML document {path}"
  | array name fault => fault.text name
  | archiveIo kind => "npz I/O error: " ++ kind.text
  | archiveMember => "npz archive error"
  | json fault => fault.text
  | io kind => kind.text
  | database name fault => fault.text name
  | step fault => fault.text
  | merit fault => fault.text
  | arrayNotAList variableName runner =>
    s!"array variable '{variableName}' of runner '{runner}' must be a list"
  | preparation program reason =>
    s!"could not prepare arguments for '{program}': {reason}"
  | exit program status errors =>
    s!"'{program}' exited with " ++ status.text ++ ": " ++ errors
  | endlessLoop => "the loop has not been stopped"
  | overflow => "attempt to multiply with overflow"
  | reported text => text

/-- The text of a cause on a log line: the operating system's words in place of
kinds, and what a document or archive failed of once more at the end. -/
def Cause.report : Cause → String
  | documentIo path kind =>
    s!"document I/O error on {path}: " ++ kind.systemText ++ ": " ++ kind.systemText
  | archiveIo kind => "npz I/O error: " ++ kind.systemText ++ ": " ++
    kind.systemText
  | io kind => kind.systemText
  | documentJson path fault => (documentJson path fault).text ++ ": " ++ fault.text
  | other => other.text

/-- What was being done when a failure passed. -/
inductive Frame where
  | buildModule (runner : String)
  | buildScript (runner : String)
  | buildSequence (runner : String)
  | loadAlgorithm (name : String)
  | computation (identifier runner : String)
  | action (action algorithm : String)
  | createWorkdir (path : String)
  | createDirectory (path : String)
  | readPrototype (path : String)
  | writeScript (path : String)
  | launch (launcher runner : String)
  | launchElement (index : Nat) (runner : String)
  | launchProgram (program : String)
  | sendArguments
  | readOutput (program : String)
  | exporter (exporter database : String)
  | writeArchive (path : String)
  | loadProject (path : String)
  | step (phase : String) (number : Nat) (kind : String)
deriving DecidableEq, Inhabited, Repr

def Frame.text : Frame → String
  | buildModule runner => s!"failed to build module runner '{runner}'"
  | buildScript runner => s!"failed to build script runner '{runner}'"
  | buildSequence runner => s!"failed to build sequence runner '{runner}'"
  | loadAlgorithm name => s!"failed to load algorithm '{name}'"
  | computation identifier runner =>
    s!"module '{identifier}' failed in runner '{runner}'"
  | action name algorithm => s!"action '{name}' of algorithm '{algorithm}' failed"
  | createWorkdir path => s!"failed to create workdir {path}"
  | createDirectory path => s!"failed to create {path}"
  | readPrototype path => s!"failed to read prototype {path}"
  | writeScript path => s!"failed to write script {path}"
  | launch launcher runner =>
    s!"failed to launch '{launcher}' for runner '{runner}'"
  | launchElement index runner =>
    s!"failed to launch element {index} of runner '{runner}'"
  | launchProgram program => s!"failed to launch '{program}'"
  | sendArguments => "failed to send arguments"
  | readOutput program => s!"'{program}' printed invalid JSON"
  | exporter name database => s!"exporter '{name}' of database '{database}' failed"
  | writeArchive path => s!"failed to write {path}"
  | loadProject path => s!"Failed to load project file: {path}"
  | step phase number kind => s!"{phase} step {number} ('{kind}') failed"

/-- A cause and the frames around it, outermost first. -/
structure Failure where
  frames : List Frame
  cause : Cause
deriving DecidableEq, Inhabited, Repr

namespace Failure

/-- A failure in no frame. -/
def of (cause : Cause) : Failure := ⟨[], cause⟩

instance : Coe Cause Failure := ⟨of⟩

/-- Puts a failure into a frame. -/
def within (frame : Frame) (failure : Failure) :
    Failure := { failure with frames := frame :: failure.frames }

/-- The whole text of a failure. -/
def message (failure : Failure) : String :=
  Text.join ": " (failure.frames.map Frame.text ++ [failure.cause.text])

/-- The whole text of a failure on a log line. -/
def report (failure : Failure) : String :=
  Text.join ": " (failure.frames.map Frame.text ++ [failure.cause.report])

end Failure

end Playbook
