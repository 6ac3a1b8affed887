import ExecState.Disk.FileTree
import ExecState.Logging.Filter
import ExecState.Numeral.Quantity
import ExecState.Options.Grammar

/-!
# Log settings

The options that say how much is logged, in which form and where to. Every command takes them.
Logs always go to the standard output; they may go to the journal of the machine and to files of
a limited size besides.
-/

namespace ExecState.Logging

open Options (UsageError Shape Grammar Taken)

/-- The form of a log line. -/
inductive Format
  | json | logfmt | terminal
deriving DecidableEq

namespace Format

def all : List Format := [json, logfmt, terminal]

def name : Format → String
  | json => "json"
  | logfmt => "logfmt"
  | terminal => "terminal"

def ofName? (text : String) : Option Format := all.find? fun f ↦ f.name = text

end Format

/-- When colours are used. -/
inductive ColorMode
  | always | auto | never
deriving DecidableEq

namespace ColorMode

def all : List ColorMode := [always, auto, never]

def name : ColorMode → String
  | always => "always"
  | auto => "auto"
  | never => "never"

def ofName? (text : String) : Option ColorMode := all.find? fun m ↦ m.name = text

def unknownMessage (text : String) : String := "Invalid color mode: " ++ text

end ColorMode

/-- The settings. -/
structure Settings where
  format : Format
  stdoutFilter : String
  journald : Bool
  journaldFilter : String
  directory : Option String
  fileFilter : String
  /-- The greatest size of a file in mebibytes. -/
  maxFileSize : UInt64
  /-- The greatest number of older files. -/
  maxFiles : UInt64
  color : ColorMode
  verbosity : UInt8
  quiet : Bool
deriving DecidableEq

namespace Settings

def standard : Settings where
  format := .terminal
  stdoutFilter := ""
  journald := false
  journaldFilter := "error"
  directory := none
  fileFilter := "debug"
  maxFileSize := 200
  maxFiles := 5
  color := .always
  verbosity := 1
  quiet := false

/-- The level that applies where no directive does. -/
def level (s : Settings) : Level :=
  if s.quiet then .off
  else
    match s.verbosity - 1 with
    | 0 => .warn
    | 1 => .info
    | 2 => .debug
    | _ => .trace

def maxFileBytes (s : Settings) : Nat := s.maxFileSize.toNat * 1024 * 1024

end Settings

/-! ## Options -/

/-- The options on logs. -/
inductive LogOption
  | format | stdoutFilter | journald | journaldFilter | directory | fileFilter | maxFileSize
  | maxFiles | color | verbosity | quiet
deriving DecidableEq

namespace LogOption

def longs : List (String × LogOption) :=
  [("log.stdout.format", format), ("log.stdout.filter", stdoutFilter),
    ("log.journald", journald), ("log.journald.filter", journaldFilter),
    ("log.file.directory", directory), ("log.file.filter", fileFilter),
    ("log.file.max-size", maxFileSize), ("log.file.max-files", maxFiles), ("color", color),
    ("verbosity", verbosity), ("quiet", quiet), ("silent", quiet)]

def shorts : List (Char × LogOption) := [('v', verbosity), ('q', quiet)]

def shape : LogOption → Shape
  | journald | quiet => .switch
  | verbosity => .count
  | _ => .value

def numberFault (text : String) : Option UsageError :=
  match Unsigned.readUInt64 text with
  | .ok _ => none
  | .error _ => some .valueValidation

def fault (o : LogOption) (text : String) : Option UsageError :=
  match o with
  | format => if (Format.ofName? text).isSome then none else some .invalidValue
  | color => if (ColorMode.ofName? text).isSome then none else some .invalidValue
  | directory => if text.isEmpty then some .invalidValue else none
  | maxFileSize | maxFiles => numberFault text
  | _ => none

end LogOption

namespace Settings

variable {ι : Type} [DecidableEq ι]

/-- The number of an option, or the usual one where it is absent. -/
def number (t : Taken ι) (o : ι) (usual : UInt64) : UInt64 :=
  match (t.value? o).map Unsigned.readUInt64 with
  | some (.ok n) => n
  | _ => usual

/-- How often an option was given, as far as eight bits tell; the usual number where it was not
given. -/
def repeats (t : Taken ι) (o : ι) (usual : UInt8) : UInt8 :=
  if t.has o then UInt8.ofNat (min (t.count o) 255) else usual

/-- The settings that options change; `wrap` is the name that an option has among all options of
the command. -/
def withOptions (wrap : LogOption → ι) (s : Settings) (t : Taken ι) : Settings where
  format := ((t.value? (wrap .format)).bind Format.ofName?).getD s.format
  stdoutFilter := (t.value? (wrap .stdoutFilter)).getD s.stdoutFilter
  journald := s.journald || t.has (wrap .journald)
  journaldFilter := (t.value? (wrap .journaldFilter)).getD s.journaldFilter
  directory := (t.value? (wrap .directory)).or s.directory
  fileFilter := (t.value? (wrap .fileFilter)).getD s.fileFilter
  maxFileSize := number t (wrap .maxFileSize) s.maxFileSize
  maxFiles := number t (wrap .maxFiles) s.maxFiles
  color := ((t.value? (wrap .color)).bind ColorMode.ofName?).getD s.color
  verbosity := repeats t (wrap .verbosity) s.verbosity
  quiet := s.quiet || t.has (wrap .quiet)

end Settings

/-! ## Options on their own -/

/-- The options of a command that takes nothing but log options. -/
inductive OnlyLogs
  | log (o : LogOption)
  | help
deriving DecidableEq

def OnlyLogs.grammar : Grammar OnlyLogs where
  longs := ("help", .help) :: LogOption.longs.map fun p ↦ (p.1, .log p.2)
  shorts := ('h', .help) :: LogOption.shorts.map fun p ↦ (p.1, .log p.2)
  shape
    | .log o => o.shape
    | .help => .stop .displayHelp
  fault
    | .log o, text => o.fault text
    | .help, _ => none
  maxWords := some 0
  handsOver _ := false

/-- The settings of a command that takes nothing but log options. -/
def Settings.ofArguments (arguments : List String) : Except UsageError Settings := do
  return standard.withOptions OnlyLogs.log (← Options.read OnlyLogs.grammar arguments)

/-! ## Starting -/

/-- What the start of logs finds on the machine. -/
structure Host where
  /-- Whether there is a journal, and it answers. -/
  journal : Bool
  /-- What the variable `RUST_LOG` holds; nothing where it is not set. -/
  rustLog : String
deriving DecidableEq

/-- A machine without a journal where the variable is not set. -/
def Host.bare : Host := ⟨false, ""⟩

/-- Why logs cannot be started. -/
inductive LogError
  /-- The verbosity is zero, and one is to be taken from it. -/
  | noVerbosity
  /-- A filter holds something that is no directive. -/
  | filter (text : String) (fault : FilterFault)
  /-- The journal does not answer. -/
  | noJournal
  | directory (cause : DiskError)
  /-- The greatest size of a file has more than 64 bits. -/
  | fileSize (bytes : Nat)
deriving DecidableEq

/-- Whether a program that cannot start its logs breaks off and does not just do without. -/
def LogError.isFatal : LogError → Bool
  | .noVerbosity | .filter _ .splitCharacter | .fileSize _ => true
  | .filter _ .malformed | .noJournal | .directory _ => false

/-- The file that logs are written to, and how it is limited. -/
structure LogFile where
  path : String
  maxBytes : Nat
  maxFiles : UInt64
deriving DecidableEq

def pathWithin (directory name : String) : String :=
  if directory.toList.getLast? = some '/' then directory ++ name else directory ++ "/" ++ name

def Settings.file? (s : Settings) : Option LogFile :=
  s.directory.map fun d ↦ ⟨pathWithin d "evmstate.log", s.maxFileBytes, s.maxFiles⟩

variable {m : Type → Type} [Monad m]

/-- Opens the file of logs, which is created where it is absent. Nothing is written to it yet. -/
def openFile (disk : Disk m) (directory : String) (file : LogFile) :
    m (Except LogError Unit) := do
  match ← disk.makeDirectories directory with
  | .error e => return .error (.directory e)
  | .ok () =>
    match ← disk.append file.path "" with
    | .ok () => return .ok ()
    | .error e => return .error (.directory e)

/-- Reads one of the filters of settings. What `RUST_LOG` holds is read before it, each time. -/
def checkFilter (host : Host) (text : String) : Except LogError Unit :=
  match readWellFormed (directives host.rustLog) with
  | .error e => .error (.filter host.rustLog e)
  | .ok () =>
    match readFilter text with
    | .error e => .error (.filter text e)
    | .ok () => .ok ()

namespace Settings

/-- The level of the settings, if there is a verbosity to take one from. -/
def checkLevel (s : Settings) : Except LogError Level :=
  if !s.quiet && s.verbosity = 0 then .error .noVerbosity else .ok s.level

/-- What is wrong with the file of the settings before it is opened. -/
def checkFile (s : Settings) : Except LogError Unit :=
  if s.directory.isSome && UInt64.size ≤ s.maxFileBytes then .error (.fileSize s.maxFileBytes)
  else .ok ()

/-- What is wrong with the standard output of logs, which show what is of the level or above. -/
def checkStdout (host : Host) (s : Settings) (level : Level) : Except LogError Unit :=
  match readDirective level.name.toList with
  | .error e => .error (.filter level.name e)
  | .ok () => checkFilter host s.stdoutFilter

/-- What is wrong with the journal, where it is asked for. -/
def checkJournal (host : Host) (s : Settings) : Except LogError Unit :=
  if s.journald then
    match checkFilter host s.journaldFilter with
    | .error e => .error e
    | .ok () => if host.journal then .ok () else .error .noJournal
  else .ok ()

/-- What is wrong with settings before the file of logs is opened. All numbers come before the
filters. -/
def check (host : Host) (s : Settings) : Except LogError Unit := do
  let level ← s.checkLevel
  s.checkFile
  s.checkStdout host level
  s.checkJournal host

/-- Starts logs and tells the file that they are written to. The file is created before its
filter is read. -/
def start (disk : Disk m) (s : Settings) (host : Host := .bare) :
    m (Except LogError (Option LogFile)) := do
  match s.check host with
  | .error e => return .error e
  | .ok () =>
    match s.directory, s.file? with
    | some directory, some file =>
      match ← openFile disk directory file with
      | .error e => return .error e
      | .ok () =>
        match checkFilter host s.fileFilter with
        | .error e => return .error e
        | .ok () => return .ok (some file)
    | _, _ => return .ok none

end Settings

end ExecState.Logging
