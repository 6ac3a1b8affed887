import ExecState.Disk.FileTree
import ExecState.Numeral.Quantity
import ExecState.Toml.Parser

/-!
# The configuration

The settings as a value, as a document and as a file.
-/

namespace ExecState

/-!
## Settings

The three settings that outlive a run of the program: how far memory may be grown, how many
workers build storage tries, and whether the keys of tries are hashed. A setting is changed by its
name and the text of its value.
-/

/-- The settings. -/
structure Configuration where
  /-- The greatest length of memory in bytes. -/
  maxMemorySize : UInt64
  /-- The number of workers that build storage tries. -/
  commitThreads : UInt64
  /-- Whether the keys of tries are hashed. -/
  secureTrie : Bool
deriving DecidableEq

def Configuration.standard : Configuration := ⟨32 * 1024 * 1024, 4, false⟩

/-- The name of one setting. -/
inductive Setting
  | maxMemorySize | commitThreads | secureTrie
deriving DecidableEq

namespace Setting

/-- All settings, in the order in which they are written. -/
def all : List Setting := [maxMemorySize, commitThreads, secureTrie]

def name : Setting → String
  | maxMemorySize => "max_memory_size"
  | commitThreads => "commit_threads"
  | secureTrie => "secure_trie"

def ofName? (text : String) : Option Setting := all.find? fun s ↦ s.name = text

end Setting

/-! ### Faults -/

/-- Why settings cannot be read, changed or kept. -/
inductive ConfigError
  /-- There is no directory to keep them in. -/
  | noHome
  | unreadable (cause : DiskError)
  | unwritable (cause : DiskError)
  | undeletable (path : String)
  /-- The file is no table with settings. -/
  | malformed
  /-- A setting is too large for the file. -/
  | outOfRange
  | notNumber (setting : Setting) (cause : UnsignedError)
  | notBoolean (setting : Setting)
  | unknownKey (key : String)
deriving DecidableEq

/-- What a fault has to do with: the surroundings, a text that is read or written, or a name. -/
inductive ConfigFault
  | generic | parse | invalidKey
deriving DecidableEq

namespace ConfigError

/-- What a fault has to do with. -/
def fault : ConfigError → ConfigFault
  | .noHome | .unreadable _ | .unwritable _ | .undeletable _ => .generic
  | .malformed | .outOfRange | .notNumber _ _ | .notBoolean _ => .parse
  | .unknownKey _ => .invalidKey

def detail : ConfigError → String
  | .noHome =>
    "failed to get home directory. does your os support `std::env::home_dir()`?"
  | .unreadable cause => "failed to read config file: " ++ cause.message
  | .unwritable cause => "failed to write config file: " ++ cause.message
  | .undeletable path => "failed to delete config file at " ++ path
  | .malformed => "failed to parse config file"
  | .outOfRange => "failed to serialize config: out-of-range value for u64 type"
  | .notNumber setting cause => setting.name ++ " must be an integer: " ++ cause.message
  | .notBoolean setting =>
    setting.name ++ " must be true or false: provided string was not `true` or `false`"
  | .unknownKey key => key

def message (e : ConfigError) : String :=
  match e.fault with
  | .generic => "Error: " ++ e.detail
  | .parse => "Parse error: " ++ e.detail
  | .invalidKey => "invalid key: '" ++ e.detail ++ "' is not a valid configuration key."

end ConfigError

/-! ### Changing a setting -/

namespace Configuration

def readBool? (text : String) : Option Bool :=
  if text = "true" then some true else if text = "false" then some false else none

/-- The settings with one of them read from a text. -/
def withText (c : Configuration) (setting : Setting) (text : String) :
    Except ConfigError Configuration :=
  match setting with
  | .maxMemorySize =>
    match Unsigned.readUInt64 text with
    | .ok maxMemorySize => .ok { c with maxMemorySize }
    | .error e => .error (.notNumber setting e)
  | .commitThreads =>
    match Unsigned.readUInt64 text with
    | .ok commitThreads => .ok { c with commitThreads }
    | .error e => .error (.notNumber setting e)
  | .secureTrie =>
    match readBool? text with
    | some secureTrie => .ok { c with secureTrie }
    | none => .error (.notBoolean setting)

/-- The settings with the one of a name read from a text. -/
def set (c : Configuration) (key text : String) : Except ConfigError Configuration :=
  match Setting.ofName? key with
  | some setting => c.withText setting text
  | none => .error (.unknownKey key)

end Configuration

end ExecState

namespace ExecState.Configuration

/-!
## Settings as a TOML document

The settings are written one to a line. Integers of a document have 63 bits beside the sign, so
that larger settings cannot be written. When a document is read, a setting that is absent has its
usual value, and unknown keys are passed over.
-/

/-- The bound below which an integer can be written. -/
def writableBound : Nat := 0x8000000000000000

def isWritable (c : Configuration) : Bool :=
  c.maxMemorySize.toNat < writableBound && c.commitThreads.toNat < writableBound

def renderBool (b : Bool) : String := if b then "true" else "false"

def line (setting : Setting) (value : String) : String := setting.name ++ " = " ++ value ++ "\n"

def render (c : Configuration) : String :=
  line .maxMemorySize (Nat.repr c.maxMemorySize.toNat) ++
    line .commitThreads (Nat.repr c.commitThreads.toNat) ++
    line .secureTrie (renderBool c.secureTrie)

/-- The document of the settings, if they can be written. -/
def toText (c : Configuration) : Except ConfigError String :=
  if c.isWritable then .ok c.render else .error .outOfRange

/-- A value that is a number, or the usual one where there is none. -/
def number? (usual : UInt64) : Option Toml.Value → Option UInt64
  | none => some usual
  | some (.integer n) => if 0 ≤ n then some (UInt64.ofNat n.toNat) else none
  | some _ => none

/-- A value that is a truth value, or the usual one where there is none. -/
def boolean? (usual : Bool) : Option Toml.Value → Option Bool
  | none => some usual
  | some (.boolean b) => some b
  | some _ => none

/-- The settings that the members of a table describe. -/
def ofMembers? (ms : Toml.Members) : Option Configuration := do
  let value := fun setting : Setting ↦ ms.get? setting.name
  return {
    maxMemorySize := ← number? standard.maxMemorySize (value .maxMemorySize)
    commitThreads := ← number? standard.commitThreads (value .commitThreads)
    secureTrie := ← boolean? standard.secureTrie (value .secureTrie) }

def ofText (text : String) : Except ConfigError Configuration :=
  match (Toml.read? text).bind ofMembers? with
  | some c => .ok c
  | none => .error .malformed

/-!
## Keeping settings in a file

Settings are kept in one file of a disk. Reading them creates the file with the usual settings
where it is absent. An update changes the settings at hand and then keeps them, so that a failure
to keep them leaves the settings at hand changed.
-/

/-- Where settings are kept: the path that the environment gives, else a file below the home
directory. An empty path in the environment counts as none. -/
def path (given home : Option String) : Except ConfigError String :=
  match given.filter (!·.isEmpty), home with
  | some path, _ => .ok path
  | none, some home =>
    let separator := if home.isEmpty || home.endsWith "/" then "" else "/"
    .ok (home ++ separator ++ ".evmstate/config.toml")
  | none, none => .error .noHome

variable {m : Type → Type} [Monad m] (disk : Disk m) (path : String)

def save (c : Configuration) : m (Except ConfigError Unit) := do
  match c.toText with
  | .error e => return .error e
  | .ok text =>
    match ← disk.write path text with
    | .ok () => return .ok ()
    | .error e => return .error (.unwritable e)

/-- Reads the settings of a file that is there. -/
def readFile : m (Except ConfigError Configuration) := do
  match ← disk.read path with
  | .ok text => return ofText text
  | .error e => return .error (.unreadable e)

/-- Reads the settings that are kept. Where none are, the usual ones are kept first. -/
def load : m (Except ConfigError Configuration) := do
  if ← disk.isPresent path then readFile disk path
  else
    match ← save disk path standard with
    | .ok () => readFile disk path
    | .error e => return .error e

def delete : m (Except ConfigError Unit) := do
  if ← disk.delete path then return .ok () else return .error (.undeletable path)

/-- Changes one of the settings at hand and keeps them all. The settings at hand are answered
whether they could be kept or not. -/
def update (c : Configuration) (key text : String) :
    m (Except ConfigError Unit × Configuration) := do
  match c.set key text with
  | .error e => return (.error e, c)
  | .ok c' => return (← save disk path c', c')

/-- What a request on the settings prints. -/
inductive Report
  | nothing
  /-- The settings that are kept. -/
  | settings (c : Configuration)

/-- Answers a request on the settings that are kept. With a key and a value it changes a setting,
with neither it shows them all, and with a key alone it does nothing. -/
def command (key value : String) : m (Except ConfigError Report) := do
  if key.isEmpty then
    match ← load disk path with
    | .ok c => return .ok (.settings c)
    | .error e => return .error e
  else if value.isEmpty then return .ok .nothing
  else
    match ← load disk path with
    | .error e => return .error e
    | .ok c =>
      match (← c.update disk path key value).1 with
      | .ok () => return .ok .nothing
      | .error e => return .error e

def display (c : Configuration) : String :=
  "Configuration \x7b\n" ++
    "    max_memory_size: " ++ Nat.repr c.maxMemorySize.toNat ++ ",\n" ++
    "    commit_threads: " ++ Nat.repr c.commitThreads.toNat ++ ",\n" ++
    "    secure_trie: " ++ renderBool c.secureTrie ++ ",\n" ++
    "\x7d"

end ExecState.Configuration
