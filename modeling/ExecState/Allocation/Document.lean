import ExecState.Json.Basic
import ExecState.Ledger.WorldState
import ExecState.Numeral.Quantity

/-!
# Allocations

What a world state starts with, first as a map of texts and then as the document that such a map is
read from.
-/

namespace ExecState

/-!
## Allocations

An allocation lists the accounts that a world state starts with. Everything in it is text as
people write it: addresses, code and storage are hexadecimal, balances and nonces are numbers or
numerals. Building the world state reads these texts, account by account and slot by slot in the
order of their keys, and stops at the first one that cannot be read.

Different key texts may name one address or one slot; the last of them then decides. A slot whose
value is empty is left out, and its key is not read at all.
-/

/-- A balance or a nonce. -/
inductive Quantity
  | number (n : UInt64)
  | text (s : String)
deriving DecidableEq

/-- What an allocation says of one account. -/
structure Entry where
  balance : Option Quantity
  nonce : Option Quantity
  code : Option String
  /-- Values by key. -/
  storage : Std.ExtTreeMap String String
deriving DecidableEq

/-- The entry that says nothing. -/
def Entry.empty : Entry := ⟨none, none, none, ∅⟩

/-- Entries by the text of their address. -/
abbrev Allocation := Std.ExtTreeMap String Entry

/-- Why no world state comes of an allocation. -/
inductive AllocationError
  /-- The text is no JSON of the right shape. -/
  | malformed
  | address (text : String) (cause : Hex.ReadError)
  | quantity (text : String) (cause : NumeralError)
  | code (address : Address) (cause : Hex.ReadError)
  | storageKey (text : String) (cause : Hex.ReadError)
  | storageValue (text : String) (cause : Hex.ReadError)
  /-- The ledger refuses a change. -/
  | ledger (cause : LedgerError)
deriving DecidableEq

namespace AllocationError

def detail : AllocationError → String
  | .malformed => "malformed json"
  | .address text cause => "invalid address '" ++ text ++ "': " ++ cause.message
  | .quantity text cause => "invalid quantity '" ++ text ++ "': " ++ cause.message
  | .code a cause => "invalid code for " ++ a.checksum ++ ": " ++ cause.message
  | .storageKey text cause => "invalid storage key '" ++ text ++ "': " ++ cause.message
  | .storageValue text cause => "invalid storage value '" ++ text ++ "': " ++ cause.message
  | .ledger cause => cause.message

def message : AllocationError → String
  | .ledger cause => cause.message
  | e => "invalid allocation: " ++ e.detail

end AllocationError

/-! ### Reading texts -/

namespace Quantity

/-- The number that a numeral denotes: hexadecimal after the mark `0x` or `0X`, else decimal.
The mark alone denotes zero. -/
def readNumeral : List Char → Except NumeralError U256
  | '0' :: 'x' :: digits => Numeral.readHex digits
  | '0' :: 'X' :: digits => Numeral.readHex digits
  | digits => Numeral.readDecimal digits

/-- The number that a text denotes, whatever blanks surround it. -/
def ofText (s : String) : Except AllocationError U256 :=
  let cs := Text.trim s.toList
  match readNumeral cs with
  | .ok v => .ok v
  | .error e => .error (.quantity (String.ofList cs) e)

def value : Quantity → Except AllocationError U256
  | number n => .ok (BitVec.ofNat 256 n.toNat)
  | text s => ofText s

end Quantity

namespace Allocation

def readAddress (text : String) : Except AllocationError Address :=
  match Hex.decodePadded 20 text with
  | .ok a => .ok a
  | .error e => .error (.address text e)

def readSlotKey (text : String) : Except AllocationError Word :=
  match Hex.decodePadded 32 text with
  | .ok k => .ok k
  | .error e => .error (.storageKey text e)

def readSlotValue (text : String) : Except AllocationError Bytes :=
  match Hex.decode text with
  | .ok v => .ok v
  | .error e => .error (.storageValue text e)

def readCode (a : Address) (text : String) : Except AllocationError Bytes :=
  match Hex.decode text with
  | .ok code => .ok code
  | .error e => .error (.code a e)

/-! ### Building the world state -/

/-- Adds the balance of an entry. -/
def loadBalance (a : Address) (q : Option Quantity) (s : WorldState) :
    Except AllocationError WorldState :=
  match q with
  | none => .ok s
  | some q => do
    let amount ← q.value
    match s.addBalance a amount with
    | (.ok (), s') => .ok s'
    | (.error e, _) => .error (.ledger e)

def loadNonce (a : Address) (q : Option Quantity) (s : WorldState) :
    Except AllocationError WorldState :=
  match q with
  | none => .ok s
  | some q => do return s.setNonce a (← q.value)

def loadCode (a : Address) (text : Option String) (s : WorldState) :
    Except AllocationError WorldState :=
  match text with
  | none => .ok s
  | some text => do return s.setCode a (← readCode a text)

/-- Sets one slot of an entry, unless its value is empty. -/
def loadSlot (a : Address) (s : WorldState) (slot : String × String) :
    Except AllocationError WorldState := do
  let value ← readSlotValue slot.2
  if value.isEmpty then return s
  else return s.setSlot a (← readSlotKey slot.1) value

def loadEntry (s : WorldState) (entry : String × Entry) : Except AllocationError WorldState := do
  let a ← readAddress entry.1
  let s ← loadBalance a entry.2.balance (s.createAccount a)
  let s ← loadNonce a entry.2.nonce s
  let s ← loadCode a entry.2.code s
  entry.2.storage.toList.foldlM (loadSlot a) s

/-- The world state that an allocation describes. -/
def toState (allocation : Allocation) : Except AllocationError WorldState :=
  allocation.toList.foldlM loadEntry WorldState.empty

end Allocation

namespace Quantity

/-!
## Allocations as JSON documents

An allocation is written as an object of objects. Reading is more liberal: the members of an
entry may be absent or null, except for the storage, which may be absent only; unknown members
are passed over; and an entry may be a list of its parts in order, cut off anywhere. A member of
an entry that is known may not occur twice. Of equal keys of the allocation or of a storage the
last one counts.
-/

def ofJson? (v : Json.Value) : Option Quantity :=
  match v.text?, v.natural? with
  | some s, _ => some (.text s)
  | none, some n => if n < UInt64.size then some (.number (UInt64.ofNat n)) else none
  | none, none => none

def toJson : Quantity → Json.Value
  | number n => .number (Nat.repr n.toNat).toList
  | text s => Json.Value.ofText s

end Quantity

namespace Entry

/-- The parts of an entry by name. -/
inductive Part
  | balance | nonce | code | storage
deriving DecidableEq

def Part.all : List Part := [.balance, .nonce, .code, .storage]

def Part.name : Part → String
  | balance => "balance"
  | nonce => "nonce"
  | code => "code"
  | storage => "storage"

def Part.ofName? (name : String) : Option Part := Part.all.find? fun p ↦ p.name = name

/-- The entry with one part read from a value. -/
def withPart? (e : Entry) (v : Json.Value) : Part → Option Entry
  | .balance => (v.nullable? Quantity.ofJson?).map ({ e with balance := · })
  | .nonce => (v.nullable? Quantity.ofJson?).map ({ e with nonce := · })
  | .code => (v.nullable? Json.Value.text?).map ({ e with code := · })
  | .storage => (v.toMap? Json.Value.text?).map ({ e with storage := · })

/-- The entry whose parts are the members of an object; `seen` holds the parts that have
occurred. -/
def ofObject? (e : Entry) (seen : List Part) : List (Json.Literal × Json.Value) → Option Entry
  | [] => some e
  | (key, v) :: rest =>
    match key.toString? with
    | none => none
    | some name =>
      match Part.ofName? name with
      | none => ofObject? e seen rest
      | some part =>
        if part ∈ seen then none
        else (e.withPart? v part).bind fun e ↦ ofObject? e (part :: seen) rest

/-- The entry whose first parts are the items of a list. -/
def ofArray? (e : Entry) : List Part → List Json.Value → Option Entry
  | _, [] => some e
  | [], _ :: _ => none
  | part :: parts, v :: rest => (e.withPart? v part).bind fun e ↦ ofArray? e parts rest

def ofJson? : Json.Value → Option Entry
  | .object members => ofObject? empty [] members
  | .array items => ofArray? empty Part.all items
  | _ => none

def partToJson (e : Entry) : Part → Json.Value
  | .balance => Json.Value.orNull Quantity.toJson e.balance
  | .nonce => Json.Value.orNull Quantity.toJson e.nonce
  | .code => Json.Value.orNull Json.Value.ofText e.code
  | .storage => Json.Value.ofMap Json.Value.ofText e.storage

def toJson (e : Entry) : Json.Value :=
  .object (Part.all.map fun p ↦ (Json.Literal.ofString p.name, e.partToJson p))

end Entry

namespace Allocation

def ofJson? (v : Json.Value) : Option Allocation := v.toMap? Entry.ofJson?

def toJson (a : Allocation) : Json.Value := Json.Value.ofMap Entry.toJson a

def ofText? (text : String) : Option Allocation := (Json.read? text).bind ofJson?

def render (a : Allocation) : String := String.ofList a.toJson.print

end Allocation

def Quantity.ofDocument? (text : String) : Option Quantity :=
  (Json.read? text).bind Quantity.ofJson?

/-- The world state that the text of an allocation describes. -/
def WorldState.ofAllocationText (text : String) : Except AllocationError WorldState :=
  match Allocation.ofText? text with
  | some a => a.toState
  | none => .error .malformed

end ExecState
