import ExecState.Allocation.Document
import ExecState.Commit.Basic
import ExecState.Config.Store
import ExecState.Machine.Growth
import ExecState.Numeral.Quantity
import ExecState.Text.Characters
import ExecState.Trie.Basic

/-!
# What the program does

The requests on allocations and on single instructions, each carried out under the settings that are
kept, and what a request may fail by.
-/

namespace ExecState.Program

/-!
## Failures of the program

A command fails by a fault in its own words or surroundings, by a fault in the settings, or by a
fault in the state that it works on. A failure has a wording for people and a structured form,
which the program prints when it ends.
-/

/-- Why a command fails. -/
inductive Failure
  /-- The text names no instruction that touches memory. -/
  | notMemoryOpcode (text : String)
  | invalidOperand (text : String) (cause : NumeralError)
  /-- The memory at hand is greater than the settings admit. -/
  | memoryPastLimit (memory limit : Nat)
  | unreadableAllocation (cause : DiskError)
  | config (cause : ConfigError)
  | growth (cause : GrowthError)
  | allocation (cause : AllocationError)
  | trie (cause : TrieError)
  /-- The state has no root. -/
  | noRoot
  /-- Memory would have more bytes than a byte string can have. -/
  | exhausted (length : Nat)
deriving DecidableEq

/-- What a failure has to do with. -/
inductive Concern
  | generic | config | state
deriving DecidableEq

namespace Failure

def concern : Failure → Concern
  | .notMemoryOpcode _ | .invalidOperand _ _ | .memoryPastLimit _ _ | .unreadableAllocation _
  | .noRoot | .exhausted _ => .generic
  | .config _ => .config
  | .growth _ | .allocation _ | .trie _ => .state

def detail : Failure → String
  | .notMemoryOpcode text => "'" ++ text ++ "' is not a memory-touching opcode"
  | .invalidOperand text cause => "invalid operand '" ++ text ++ "': " ++ cause.message
  | .memoryPastLimit memory limit =>
    "current memory of " ++ Nat.repr memory ++ " bytes is past the limit of " ++
      Nat.repr limit ++ " bytes"
  | .unreadableAllocation cause => "failed to read allocation: " ++ cause.message
  | .config cause => cause.message
  | .growth cause => cause.message
  | .allocation cause => cause.message
  | .trie cause => cause.message
  | .noRoot => "the trie has no root"
  | .exhausted length => "no memory has " ++ Nat.repr length ++ " bytes"

/-- Whether a failure breaks the program off. -/
def isFatal : Failure → Bool
  | .exhausted _ => true
  | _ => false

def message (e : Failure) : String :=
  match e.concern with
  | .generic => e.detail
  | .config => "Config error: " ++ e.detail
  | .state => "State error: " ++ e.detail

/-! ### Structured form -/

/-- A name with one text in round brackets. -/
def tagged (name text : String) : String := name ++ "(" ++ text ++ ")"

def showConfig (e : ConfigError) : String :=
  match e.fault with
  | .generic => tagged "Generic" (Text.quoted e.detail)
  | .parse => tagged "ParseError" (Text.quoted e.detail)
  | .invalidKey => tagged "InvalidKey" (Text.quoted e.detail)

def showGrowth : GrowthError → String
  | .limitExceeded region limit =>
    "MemoryLimitExceeded \x7b offset: " ++ region.offset.decimal ++ ", length: " ++
      region.length.decimal ++ ", limit: " ++ Nat.repr limit ++ " \x7d"

/-- A failure in structured form. -/
def render (e : Failure) : String :=
  match e with
  | .config cause => tagged "ConfigError" (showConfig cause)
  | .growth cause => tagged "StateError" (showGrowth cause)
  | .allocation cause => tagged "StateError" (tagged "Alloc" (Text.quoted cause.detail))
  | .trie cause => tagged "StateError" (tagged "Trie" (Text.quoted cause.detail))
  | e => tagged "Generic" (Text.quoted e.detail)

end Failure

/-!
## Advice on one instruction

How far one instruction makes memory grow and what the growth costs, given the instruction, its
operands from the top of the stack and the length that memory has.
-/

/-- A request for advice. -/
structure AdviceRequest where
  /-- A mnemonic, or a byte in hexadecimal after the mark `0x`. -/
  opcode : String
  /-- The operands, from the top of the stack. -/
  operands : List String
  /-- The length of memory in bytes. -/
  memory : Nat
deriving DecidableEq

/-- What is advised. -/
structure Advice where
  mnemonic : String
  /-- The length of memory afterwards. -/
  length : Nat
  /-- The price of the growth. -/
  expansionCost : Gas
deriving DecidableEq

namespace AdviceRequest

def readOpcode (text : String) : Except Failure Opcode :=
  let named :=
    match text.toList with
    | '0' :: 'x' :: digits => (Unsigned.readHexByte digits).toOption.bind Opcode.ofByte?
    | _ => Opcode.ofMnemonic? text
  match named.filter (·.family?.isSome) with
  | some op => .ok op
  | none => .error (.notMemoryOpcode text)

/-- The number that a numeral denotes: hexadecimal after the mark `0x`, else decimal. -/
def readNumeral : List Char → Except NumeralError U256
  | '0' :: 'x' :: digits => Numeral.readHex digits
  | digits => Numeral.readDecimal digits

def readOperand (text : String) : Except Failure U256 :=
  match readNumeral text.toList with
  | .ok v => .ok v
  | .error e => .error (.invalidOperand text e)

/-- The stack of the operands. The lowest one is read first. -/
def readStack : List String → Except Failure Stack
  | [] => .ok Stack.empty
  | text :: rest => do
    let s ← readStack rest
    return s.push (← readOperand text)

end AdviceRequest

/-- The advice on an instruction under the settings. -/
def advise (c : Configuration) (r : AdviceRequest) : Except Failure Advice := do
  let op ← AdviceRequest.readOpcode r.opcode
  let stack ← AdviceRequest.readStack r.operands
  let limit := c.maxMemorySize.toNat
  if limit < r.memory then .error (.memoryPastLimit r.memory limit)
  else if Bytes.greatestSize < r.memory then .error (.exhausted r.memory)
  else
    let before := Memory.empty.resize r.memory
    match (GrowthAdvisor.mk limit).prepare op.byte stack before with
    | (.error e, _) => .error (.growth e)
    | (.ok (), after) =>
      if Bytes.greatestSize < after.length then .error (.exhausted after.length)
      else return ⟨op.mnemonic, after.length, before.expansionCost after.length⟩

end ExecState.Program

namespace ExecState.Program

/-!
## The root of an allocation

The world state that a file of JSON describes is committed into a trie of its own. What the
request leaves open is taken from the settings.
-/

/-- A request for a root. -/
structure RootRequest where
  /-- The path of the allocation. -/
  file : String
  /-- Whether keys are hashed whatever the settings say. -/
  secure : Bool
  /-- The number of workers, if not the one of the settings. -/
  threads : Option UInt64
deriving DecidableEq

/-- The root of the world state that a text describes. -/
def rootOfText (schedule : Schedule) (c : Configuration) (secure : Bool)
    (threads : Option UInt64) (text : String) : Except Failure Word :=
  match WorldState.ofAllocationText text with
  | .error e => .error (.allocation e)
  | .ok state =>
    let threads := (threads.getD c.commitThreads).toNat
    let trie := Trie.empty (secure || c.secureTrie)
    match (Commit.commit schedule threads state trie).1 with
    | .error e => .error (.trie e)
    | .ok none => .error .noRoot
    | .ok (some root) => .ok root

variable {m : Type → Type} [Monad m]

/-- The root of the world state that a file describes. -/
def stateRoot (disk : Disk m) (c : Configuration) (r : RootRequest) :
    m (Except Failure Word) := do
  match ← disk.read r.file with
  | .error e => return .error (.unreadableAllocation e)
  | .ok text => return rootOfText Schedule.sequential c r.secure r.threads text

end ExecState.Program
