import ExecState.Basic
import ExecState.Bytes.Hex
import ExecState.Hash.Keccak
import ExecState.Numeral.Quantity
import Std.Data.ExtTreeMap

/-!
# The ledger

One account, the accounts by address and by age, and the world state around them, with the
operations that running code has on it. An account is named in messages by its address alone.
-/

namespace ExecState.Address

/-!
## Addresses in messages

An address is shown to people with a checksum in the case of its letters: a letter is a capital
where the digest of the lower-case digits has a digit of eight or more at the same place.
-/

/-- A digit of an address, in the case that the digit of the digest asks for. -/
def checksumDigit (digit digest : Char) : Char :=
  if 8 ≤ (Hex.digitValue? digest).getD 0 then digit.toUpper else digit

/-- An address after the mark `0x`, with its checksum. -/
def checksum (a : Address) : String :=
  let digits := Hex.digits a.bytes
  let digest := Keccak.hash (digits.map fun c ↦ UInt8.ofNat c.toNat)
  "0x" ++ String.ofList (digits.zipWith checksumDigit (Hex.digits digest.bytes))

end ExecState.Address

namespace ExecState

/-!
## Accounts

An account holds code, a nonce, a balance and its own storage from words to byte strings. It is
empty when it has no code and both numbers are zero, whatever its storage holds. Only accounts
that are neither empty nor destroyed are committed.
-/

/-- The storage of an account. -/
abbrev Storage := Std.ExtTreeMap Word Bytes

/-- A single entry of the ledger. -/
structure Account where
  address : Address
  code : Bytes
  nonce : U256
  balance : U256
  /-- Whether the account is to be left out when the state is committed. -/
  destroyed : Bool
  storage : Storage
deriving DecidableEq

namespace Account

/-- The account at an address that was never used. -/
def fresh (address : Address) : Account :=
  { address, code := [], nonce := 0, balance := 0, destroyed := false, storage := ∅ }

/-- Whether an account has no code and no nonce or balance. -/
def isEmpty (a : Account) : Bool := a.nonce = 0 && a.balance = 0 && a.code.isEmpty

/-- Whether an account takes part in the commitment. -/
def isCommittable (a : Account) : Bool := !(a.isEmpty || a.destroyed)

/-- The value under a storage key; a key without value has the empty one. -/
def slot (a : Account) (key : Word) : Bytes := (a.storage[key]?).getD []

/-- The account after a storage key took a value; the empty value takes the key away. -/
def setSlot (a : Account) (key : Word) (value : Bytes) : Account :=
  { a with storage := if value.isEmpty then a.storage.erase key else a.storage.insert key value }

theorem isEmpty_fresh (address : Address) : (fresh address).isEmpty = true := rfl

theorem slot_setSlot (a : Account) (key k : Word) (value : Bytes) :
    (a.setSlot key value).slot k = if key = k then value else a.slot k := by
  rw [slot, setSlot]
  by_cases hv : value.isEmpty
  · simp only [hv, if_true, Std.ExtTreeMap.getElem?_erase, Std.LawfulEqCmp.compare_eq_iff_eq]
    split
    · simpa using (List.isEmpty_iff.1 hv).symm
    · rfl
  · simp only [hv, Bool.false_eq_true, if_false, Std.ExtTreeMap.getElem?_insert,
      Std.LawfulEqCmp.compare_eq_iff_eq]
    split <;> rfl

end Account

/-!
## The accounts of a ledger

The accounts are kept by address, beside the list of addresses in the order in which they first
appeared. Replacing an account leaves its address where it was in that order.
-/

/-- Accounts by address, with the order in which their addresses first appeared. -/
structure Accounts where
  entries : Std.ExtTreeMap Address Account
  order : List Address
deriving DecidableEq

namespace Accounts

def empty : Accounts := ⟨∅, []⟩

def get? (s : Accounts) (a : Address) : Option Account := s.entries[a]?

def size (s : Accounts) : Nat := s.entries.size

/-- The accounts, in the order in which their addresses first appeared. -/
def toList (s : Accounts) : List Account := s.order.filterMap s.get?

/-- Stores an account under an address; an address that is new is the last in the order. -/
def put (s : Accounts) (a : Address) (account : Account) : Accounts :=
  { entries := s.entries.insert a account
    order := if (s.get? a).isSome then s.order else s.order ++ [a] }

/-- Stores an account under its own address. -/
def insert (s : Accounts) (account : Account) : Accounts := s.put account.address account

/-- The account at an address, and the accounts with it; where there is none a fresh one appears. -/
def getOrCreate (s : Accounts) (a : Address) : Account × Accounts :=
  match s.get? a with
  | some account => (account, s)
  | none => (Account.fresh a, s.insert (Account.fresh a))

/-- Changes the account at an address, which appears first where there is none. -/
def modify (s : Accounts) (a : Address) (f : Account → Account) : Accounts :=
  let (account, s') := s.getOrCreate a
  s'.put a (f account)

theorem get?_put (s : Accounts) (a b : Address) (account : Account) :
    (s.put a account).get? b = if a = b then some account else s.get? b := by
  simp only [get?, put, Std.ExtTreeMap.getElem?_insert, Std.LawfulEqCmp.compare_eq_iff_eq]

theorem get?_empty (a : Address) : empty.get? a = none := by
  simp [get?, empty]

theorem get?_getOrCreate (s : Accounts) (a b : Address) :
    (s.getOrCreate a).2.get? b =
      if a = b then some ((s.get? a).getD (Account.fresh a)) else s.get? b := by
  rw [getOrCreate]
  cases h : s.get? a with
  | some account =>
    by_cases hab : a = b
    · subst hab; simp [h]
    · simp [hab]
  | none =>
    show (s.put (Account.fresh a).address (Account.fresh a)).get? b = _
    rw [get?_put]
    rfl

theorem get?_modify (s : Accounts) (a b : Address) (f : Account → Account) :
    (s.modify a f).get? b =
      if a = b then some (f ((s.get? a).getD (Account.fresh a))) else s.get? b := by
  have hfst : (s.getOrCreate a).1 = (s.get? a).getD (Account.fresh a) := by
    rw [getOrCreate]; cases s.get? a <;> rfl
  show ((s.getOrCreate a).2.put a (f (s.getOrCreate a).1)).get? b = _
  rw [get?_put, get?_getOrCreate, hfst]
  split <;> simp_all

end Accounts

end ExecState

namespace ExecState

/-!
## The world state

The ledger that running code changes: the accounts, the logs in the order of their emission and
a counter of refunds. Reading an absent account yields zeros and creates nothing. Writing to one
creates it, except for taking from its balance and destroying it, which leave it absent.

A snapshot is the accounts of one moment with their order. Going back to it replaces the accounts
and leaves logs and refunds as they are.
-/

/-- A record emitted by running code. -/
structure Log where
  address : Address
  topics : List Word
  data : Bytes
deriving DecidableEq

/-- Why a change of the ledger is refused. -/
inductive LedgerError
  /-- More refunds are taken back than were granted. -/
  | refundUnderflow (requested available : U256)
  /-- More is taken from a balance than there is. -/
  | balanceUnderflow (address : Address) (requested available : U256)
  /-- A balance would reach `2 ^ 256`. -/
  | balanceOverflow (address : Address) (amount balance : U256)
deriving DecidableEq

def LedgerError.message : LedgerError → String
  | .refundUnderflow requested available =>
    "refund counter below zero: tried to subtract " ++ requested.decimal ++ " from " ++
      available.decimal
  | .balanceUnderflow address requested available =>
    "balance underflow for " ++ address.checksum ++ ": tried to subtract " ++
      requested.decimal ++ " from " ++ available.decimal
  | .balanceOverflow address amount balance =>
    "balance overflow for " ++ address.checksum ++ ": adding " ++ amount.decimal ++ " to " ++
      balance.decimal

/-- The accounts of one moment. -/
structure Snapshot where
  accounts : Accounts
deriving DecidableEq

/-- The accounts, logs and refunds of a running execution. -/
structure WorldState where
  accounts : Accounts
  /-- The logs, the oldest first. -/
  logs : List Log
  refund : U256
deriving DecidableEq

namespace WorldState

def empty : WorldState := ⟨Accounts.empty, [], 0⟩

/-! ### Reading -/

def size (s : WorldState) : Nat := s.accounts.size

def account? (s : WorldState) (a : Address) : Option Account := s.accounts.get? a

/-- Whether there is an account at an address. -/
def accountExists (s : WorldState) (a : Address) : Bool := (s.account? a).isSome

/-- Whether the account at an address is absent or empty. -/
def accountIsEmpty (s : WorldState) (a : Address) : Bool :=
  match s.account? a with
  | some account => account.isEmpty
  | none => true

/-- Whether the account at an address is destroyed. -/
def isDestroyed (s : WorldState) (a : Address) : Bool :=
  match s.account? a with
  | some account => account.destroyed
  | none => false

/-- The account at an address, or a fresh one where there is none. -/
def view (s : WorldState) (a : Address) : Account := (s.account? a).getD (Account.fresh a)

def code (s : WorldState) (a : Address) : Bytes := (s.view a).code

/-- The number of bytes of the code of an account. -/
def codeSize (s : WorldState) (a : Address) : Nat := (s.code a).length

def balance (s : WorldState) (a : Address) : U256 := (s.view a).balance

def nonce (s : WorldState) (a : Address) : U256 := (s.view a).nonce

/-- The value under a storage key of an account. -/
def slot (s : WorldState) (a : Address) (key : Word) : Bytes := (s.view a).slot key

/-- The accounts that take part in the commitment, in the order of their first appearance. -/
def committable (s : WorldState) : List Account := s.accounts.toList.filter Account.isCommittable

/-! ### Writing -/

/-- Stores an account under its address, as it is. -/
def insertAccount (s : WorldState) (account : Account) : WorldState :=
  { s with accounts := s.accounts.insert account }

/-- Puts a fresh account at an address, whatever was there. -/
def createAccount (s : WorldState) (a : Address) : WorldState :=
  s.insertAccount (Account.fresh a)

/-- Changes an account, which is created where it is absent. -/
def modify (s : WorldState) (a : Address) (f : Account → Account) : WorldState :=
  { s with accounts := s.accounts.modify a f }

def setCode (s : WorldState) (a : Address) (code : Bytes) : WorldState :=
  s.modify a ({ · with code })

def setNonce (s : WorldState) (a : Address) (nonce : U256) : WorldState :=
  s.modify a ({ · with nonce })

/-- Changes the value under a storage key of an account. -/
def setSlot (s : WorldState) (a : Address) (key : Word) (value : Bytes) : WorldState :=
  s.modify a (·.setSlot key value)

/-- Adds to the balance of an account, which is created first where it is absent. -/
def addBalance (s : WorldState) (a : Address) (amount : U256) :
    Outcome LedgerError Unit WorldState :=
  let (account, accounts) := s.accounts.getOrCreate a
  match account.balance.add? amount with
  | some balance => .done () { s with accounts := accounts.put a { account with balance } }
  | none => .failed (.balanceOverflow a amount account.balance) { s with accounts }

/-- Takes from the balance of an account. An absent account stays absent. -/
def subBalance (s : WorldState) (a : Address) (amount : U256) :
    Outcome LedgerError Unit WorldState :=
  match s.account? a with
  | none => .done () s
  | some account =>
    match account.balance.sub? amount with
    | some balance => .done () { s with accounts := s.accounts.put a { account with balance } }
    | none => .failed (.balanceUnderflow a amount account.balance) s

/-- Destroys an account. An absent account stays absent. -/
def destroy (s : WorldState) (a : Address) : WorldState :=
  match s.account? a with
  | none => s
  | some account => { s with accounts := s.accounts.put a { account with destroyed := true } }

/-- Grants refunds. The counter stops at the largest number. -/
def addRefund (s : WorldState) (amount : U256) : WorldState :=
  { s with refund := s.refund.addSaturating amount }

def subRefund (s : WorldState) (amount : U256) : Outcome LedgerError Unit WorldState :=
  match s.refund.sub? amount with
  | some refund => .done () { s with refund }
  | none => .failed (.refundUnderflow amount s.refund) s

def appendLog (s : WorldState) (log : Log) : WorldState := { s with logs := s.logs ++ [log] }

/-! ### Snapshots -/

def snapshot (s : WorldState) : Snapshot := ⟨s.accounts⟩

/-- The state with the accounts of a snapshot. -/
def revertTo (s : WorldState) (snapshot : Snapshot) : WorldState :=
  { s with accounts := snapshot.accounts }

end WorldState

end ExecState
