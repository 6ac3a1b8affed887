import ExecState.Basic
import ExecState.Machine.Memory
import ExecState.Numeral.Quantity

/-!
# From operands to regions

An instruction finds its operands on the stack. Which of them say what it will touch depends on its
family, and from that the length is worked out that memory needs.
-/

namespace ExecState

/-!
## The operand stack

The values are listed from the top. Popping more values than there are is refused and pops
nothing; peeking below the bottom sees zeros.
-/

/-- Why a pop is refused. -/
inductive StackError
  /-- More values are asked for than there are. -/
  | underflow (requested depth : Nat)
deriving DecidableEq

def StackError.message : StackError → String
  | .underflow requested depth =>
    "stack underflow: tried to pop " ++ Nat.repr requested ++ " values from a stack of depth " ++
      Nat.repr depth

/-- A stack of operands. -/
structure Stack where
  /-- The values, from the top. -/
  values : List U256
deriving DecidableEq

namespace Stack

def empty : Stack := ⟨[]⟩

def depth (s : Stack) : Nat := s.values.length

def isEmpty (s : Stack) : Bool := s.values.isEmpty

def push (s : Stack) (v : U256) : Stack := ⟨v :: s.values⟩

def pop (s : Stack) : Outcome StackError U256 Stack :=
  match s.values with
  | [] => .failed (.underflow 1 0) s
  | v :: rest => .done v ⟨rest⟩

def popMany (s : Stack) (n : Nat) : Outcome StackError (List U256) Stack :=
  if n ≤ s.depth then .done (s.values.take n) ⟨s.values.drop n⟩
  else .failed (.underflow n s.depth) s

/-- The value at a depth, the top being at depth zero. -/
def peek (s : Stack) (i : Nat) : U256 := (s.values[i]?).getD 0

def peekMany (s : Stack) (n : Nat) : List U256 := (List.range n).map s.peek

/-- The values from the top, as hexadecimal numerals between brackets. -/
def render (s : Stack) : String :=
  "[" ++ String.intercalate ", " (s.values.map U256.hexadecimal) ++ "]"

end Stack

/-!
## Instructions

The instructions that the library knows by byte and by mnemonic. Nine of them touch memory; they
fall into families that read the same number of operands from the stack.
-/

/-- A known instruction. -/
inductive Opcode
  | add | callDataCopy | codeCopy | extCodeCopy | mstore | mstore8
  | call | callCode | delegateCall | staticCall
deriving DecidableEq

namespace Opcode

/-- The known instructions, by ascending byte. -/
def all : List Opcode :=
  [add, callDataCopy, codeCopy, extCodeCopy, mstore, mstore8, call, callCode, delegateCall,
    staticCall]

def byte : Opcode → UInt8
  | add => 0x01
  | callDataCopy => 0x37
  | codeCopy => 0x39
  | extCodeCopy => 0x3c
  | mstore => 0x52
  | mstore8 => 0x53
  | call => 0xf1
  | callCode => 0xf2
  | delegateCall => 0xf4
  | staticCall => 0xfa

def mnemonic : Opcode → String
  | add => "ADD"
  | callDataCopy => "CALLDATACOPY"
  | codeCopy => "CODECOPY"
  | extCodeCopy => "EXTCODECOPY"
  | mstore => "MSTORE"
  | mstore8 => "MSTORE8"
  | call => "CALL"
  | callCode => "CALLCODE"
  | delegateCall => "DELEGATECALL"
  | staticCall => "STATICCALL"

def ofByte? (b : UInt8) : Option Opcode := all.find? fun op ↦ op.byte = b

/-- The known instruction of a mnemonic, in any case of its letters. -/
def ofMnemonic? (text : String) : Option Opcode :=
  all.find? fun op ↦ op.mnemonic.toList = text.toList.map Char.toUpper

theorem ofByte?_byte (op : Opcode) : ofByte? op.byte = some op := by
  cases op <;> decide

end Opcode

/-- The instructions that take their memory region from the stack in the same way. -/
inductive MemoryFamily
  | store32 | store8 | codeCopy | callDataCopy | extCodeCopy | call | delegateCall
deriving DecidableEq

namespace MemoryFamily

/-- The number of operands that a family reads. -/
def operands : MemoryFamily → Nat
  | store32 | store8 => 2
  | codeCopy | callDataCopy => 3
  | extCodeCopy => 4
  | call => 7
  | delegateCall => 6

def name : MemoryFamily → String
  | store32 => "Store32"
  | store8 => "Store8"
  | codeCopy => "CodeCopy"
  | callDataCopy => "CallDataCopy"
  | extCodeCopy => "ExtCodeCopy"
  | call => "Call"
  | delegateCall => "DelegateCall"

def all : List MemoryFamily :=
  [store32, store8, codeCopy, callDataCopy, extCodeCopy, call, delegateCall]

def ofName? (text : String) : Option MemoryFamily := all.find? fun f ↦ f.name = text

end MemoryFamily

/-- The family of an instruction, if it touches memory. -/
def Opcode.family? : Opcode → Option MemoryFamily
  | .add => none
  | .callDataCopy => some .callDataCopy
  | .codeCopy => some .codeCopy
  | .extCodeCopy => some .extCodeCopy
  | .mstore => some .store32
  | .mstore8 => some .store8
  | .call | .callCode => some .call
  | .delegateCall | .staticCall => some .delegateCall

/-- The family of a byte, if it is an instruction that touches memory. -/
def MemoryFamily.ofByte? (b : UInt8) : Option MemoryFamily :=
  (Opcode.ofByte? b).bind Opcode.family?

end ExecState

namespace ExecState

/-!
## Growing memory ahead of an instruction

Before an instruction runs, memory is grown to cover the region that it will touch. The region is
read off the operands without taking them from the stack. Offset and length are added as numbers
without bound, and the sum is the length that memory needs; it may not pass the advisor's limit.

Calls name an input and an output region; only the output region is covered.
-/

/-- A stretch of memory. -/
structure Region where
  offset : U256
  length : U256
deriving DecidableEq

namespace Region

/-- The position after the last byte. -/
def finish (r : Region) : Nat := r.offset.toNat + r.length.toNat

end Region

/-- The region that a family takes from the operands, which are seen from the top. -/
def MemoryFamily.region (operand : Nat → U256) : MemoryFamily → Region
  | .store32 => ⟨operand 0, 32⟩
  | .store8 => ⟨operand 0, 1⟩
  | .codeCopy | .callDataCopy => ⟨operand 0, operand 2⟩
  | .extCodeCopy => ⟨operand 1, operand 3⟩
  | .call => ⟨operand 5, operand 6⟩
  | .delegateCall => ⟨operand 4, operand 5⟩

/-- Why memory is not grown. -/
inductive GrowthError
  /-- The region ends past the limit. -/
  | limitExceeded (region : Region) (limit : Nat)
deriving DecidableEq

def GrowthError.message : GrowthError → String
  | .limitExceeded region limit =>
    "memory limit exceeded: offset " ++ region.offset.decimal ++ " + length " ++
      region.length.decimal ++ " is past the limit of " ++ Nat.repr limit ++ " bytes"

/-- Grows memory up to a limit. -/
structure GrowthAdvisor where
  /-- The greatest length that memory may be grown to. -/
  limit : Nat
deriving DecidableEq

namespace GrowthAdvisor

/-- The limit where none is given: 32 mebibytes. -/
def defaultLimit : Nat := 32 * 1024 * 1024

def standard : GrowthAdvisor := ⟨defaultLimit⟩

/-- The length that memory needs for a region. -/
def requiredLength (advisor : GrowthAdvisor) (region : Region) : Except GrowthError Nat :=
  if region.finish ≤ advisor.limit then .ok region.finish
  else .error (.limitExceeded region advisor.limit)

/-- Grows memory for an instruction of a family and tells the length that it needs. -/
def grow (advisor : GrowthAdvisor) (family : MemoryFamily) (stack : Stack) (m : Memory) :
    Outcome GrowthError Nat Memory :=
  match advisor.requiredLength (family.region stack.peek) with
  | .ok required => .done required (m.resize required)
  | .error e => .failed e m

/-- Grows memory for an instruction; one that touches no memory needs nothing. -/
def prepare (advisor : GrowthAdvisor) (byte : UInt8) (stack : Stack) (m : Memory) :
    Outcome GrowthError Unit Memory :=
  match MemoryFamily.ofByte? byte with
  | none => .done () m
  | some family =>
    match advisor.grow family stack m with
    | (.ok _, m') => .done () m'
    | (.error e, m') => .failed e m'

end GrowthAdvisor

end ExecState
