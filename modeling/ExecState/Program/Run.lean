import ExecState.Config.Store
import ExecState.Logging.Settings
import ExecState.Program.Requests

/-!
# The program

The words of a call, and the run that they lead to.
-/

namespace ExecState.Program

/-!
## The words of a call

A call names one of three commands. Options on logs may stand before or after that name; where
both places give one, the later place counts.
-/

open Options (UsageError Shape Grammar Taken Reading)

/-- What a call asks for. -/
inductive Request
  | root (r : RootRequest)
  | advise (r : AdviceRequest)
  | config (key value : String)
deriving DecidableEq

/-- A call that was understood. -/
structure Call where
  logs : Logging.Settings
  request : Request
deriving DecidableEq

/-- The options of all commands. -/
inductive CallOption
  | log (o : Logging.LogOption)
  | secure | threads | memory | help | version
deriving DecidableEq

namespace CallOption

def shape : CallOption → Shape
  | log o => o.shape
  | secure => .switch
  | threads | memory => .value
  | help => .stop .displayHelp
  | version => .stop .displayVersion

def fault (o : CallOption) (text : String) : Option UsageError :=
  match o with
  | log o => o.fault text
  | threads | memory => Logging.LogOption.numberFault text
  | _ => none

/-- The grammar of a command with options of its own beside those on logs and the one for help. -/
def grammar (longs : List (String × CallOption)) (shorts : List (Char × CallOption))
    (maxWords : Option Nat) (handsOver : String → Bool) : Grammar CallOption where
  longs := longs ++ ("help", help) :: Logging.LogOption.longs.map fun p ↦ (p.1, log p.2)
  shorts := shorts ++ ('h', help) :: Logging.LogOption.shorts.map fun p ↦ (p.1, log p.2)
  shape := shape
  fault := fault
  maxWords := maxWords
  handsOver := handsOver

end CallOption

/-- The commands. -/
inductive CommandName
  | root | advise | config
deriving DecidableEq

namespace CommandName

def all : List CommandName := [root, advise, config]

def name : CommandName → String
  | root => "root"
  | advise => "advise"
  | config => "config"

def ofName? (text : String) : Option CommandName := all.find? fun c ↦ c.name = text

def grammar : CommandName → Grammar CallOption
  | root =>
    CallOption.grammar [("secure", .secure), ("threads", .threads)] [('t', .threads)] (some 1)
      fun _ ↦ false
  | advise => CallOption.grammar [("memory", .memory)] [] none fun _ ↦ false
  | config => CallOption.grammar [] [] (some 2) fun _ ↦ false

/-- The number of an option, if it is given. -/
def number? (t : Taken CallOption) (o : CallOption) : Option UInt64 :=
  (t.value? o).bind fun text ↦ (Unsigned.readUInt64 text).toOption

def request (c : CommandName) (t : Taken CallOption) : Except UsageError Request :=
  match c, t.words.reverse with
  | root, file :: _ => .ok (.root ⟨file, t.has .secure, number? t .threads⟩)
  | advise, opcode :: operands =>
    .ok (.advise ⟨opcode, operands, ((number? t .memory).getD 0).toNat⟩)
  | config, words => .ok (.config (words.getD 0 "") (words.getD 1 ""))
  | root, [] | advise, [] => .error .missingRequiredArgument

end CommandName

/-- The word that asks for help like a command. -/
def helpWord : String := "help"

/-- The options that may stand before the name of a command. -/
def callGrammar : Grammar CallOption :=
  CallOption.grammar [("version", .version)] [('V', .version)] (some 0) fun text ↦
    (CommandName.ofName? text).isSome || text = helpWord

/-- What the words after the one for help come to. Nothing but the name of a command may follow. -/
def helpOn : List String → UsageError
  | [] => .displayHelp
  | [text] =>
    if text = helpWord || (CommandName.ofName? text).isSome then .displayHelp
    else .invalidSubcommand
  | _ :: _ :: _ => .invalidSubcommand

/-- The call that words make. The words of the command are read through before the last option in
front of its name is checked. -/
def Call.ofArguments (arguments : List String) : Except UsageError Call := do
  let reading ← Options.readFrom callGrammar Taken.empty arguments
  match reading.handed with
  | none =>
    let _ ← reading.taken.settle callGrammar
    .error .missingSubcommand
  | some (text, rest) =>
    match CommandName.ofName? text with
    | none => .error (helpOn rest)
    | some c =>
      let inner ← Options.read c.grammar rest
      let request ← c.request inner
      let outer ← reading.taken.settle callGrammar
      let logs := (Logging.Settings.standard.withOptions CallOption.log outer).withOptions
        CallOption.log inner
      return ⟨logs, request⟩

/-! ### Settings on their own -/

/-- The key and the value of a call that goes to the settings directly. -/
def configWords (arguments : List String) : Except UsageError (String × String) := do
  let g : Grammar CallOption :=
    { longs := [("help", .help)], shorts := [('h', .help)], shape := CallOption.shape
      fault := CallOption.fault, maxWords := some 2, handsOver := fun _ ↦ false }
  let words := (← Options.read g arguments).words.reverse
  return (words.getD 0 "", words.getD 1 "")

end ExecState.Program

namespace ExecState.Program

/-!
## A run of the program

A run starts the logs, reads the settings and does what the call asks for. It ends with a code:
zero where all went well, one where the command failed, two where the words of the call are
refused. A run that breaks off in between has a code of its own.
-/

open Options (UsageError)

/-- What a run leaves behind. -/
structure Finish where
  exit : Nat
  stdout : String
  /-- What goes to the error output. -/
  stderr : String
deriving DecidableEq

namespace Finish

def success (stdout : String) : Finish := ⟨0, stdout, ""⟩

def broken (reason : String) : Finish := ⟨101, "", reason ++ "\n"⟩

def failure (e : Failure) : Finish :=
  if e.isFatal then broken e.message else ⟨1, "", "Error: " ++ e.render ++ "\n"⟩

def version : String := "evmstate 0.3.0\n"

def usage : String := "Usage: evmstate [OPTIONS] <COMMAND>\n\nCommands: root, advise, config\n"

/-- The end of a run whose call is not carried out. -/
def ofUsageError : UsageError → Finish
  | .displayVersion => success version
  | .displayHelp => success usage
  | e => ⟨2, "", "error: " ++ e.name ++ "\n\n" ++ usage⟩

end Finish

def Advice.display (a : Advice) : String :=
  a.mnemonic ++ " grows memory to " ++ Nat.repr a.length ++ " bytes (" ++
    a.expansionCost.decimal ++ " gas)\n"

variable {m : Type → Type} [Monad m]

/-- Does what a call asks for and yields what it prints. -/
def perform (disk : Disk m) (path : String) (c : Configuration) :
    Request → m (Except Failure String)
  | .root r => do
    match ← stateRoot disk c r with
    | .ok root => return .ok (Hex.encodeMarked root.bytes ++ "\n")
    | .error e => return .error e
  | .advise r => return (advise c r).map Advice.display
  | .config key value => do
    match ← Configuration.command disk path key value with
    | .ok .nothing => return .ok ""
    | .ok (.settings c) => return .ok (c.display ++ "\n")
    | .error e => return .error (.config e)

/-- Does what a call asks for under the settings that are kept. -/
def carryOut (disk : Disk m) (path : Except ConfigError String) (r : Request) : m Finish := do
  match path with
  | .error e => return Finish.failure (.config e)
  | .ok path =>
    match ← Configuration.load disk path with
    | .error e => return Finish.failure (.config e)
    | .ok c =>
      match ← perform disk path c r with
      | .ok stdout => return Finish.success stdout
      | .error e => return Finish.failure e

/-- Runs the program on the words of a call. Logs that cannot be started are done without, unless
the fault breaks the program off. -/
def run (disk : Disk m) (path : Except ConfigError String) (arguments : List String)
    (host : Logging.Host := .bare) : m Finish := do
  match Call.ofArguments arguments with
  | .error e => return Finish.ofUsageError e
  | .ok call =>
    match ← call.logs.start disk host with
    | .error e =>
      if e.isFatal then return Finish.broken "the logs cannot be started"
      else carryOut disk path call.request
    | .ok _ => carryOut disk path call.request

end ExecState.Program
