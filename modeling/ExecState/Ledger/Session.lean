import ExecState.Ledger.WorldState

/-!
# Sessions on a ledger

Everything that can be asked of a world state or done to it, as data, so that whole runs can be
spoken of. A query reads and a change writes. A session adds snapshots under names: taking one
under a name that is in use replaces it, and one that was taken can be returned to any number of
times.
-/

namespace ExecState

/-- What can be read from a world state. -/
inductive Query
  | accountExists (address : Address)
  | accountIsEmpty (address : Address)
  | isDestroyed (address : Address)
  | code (address : Address)
  | codeSize (address : Address)
  | balance (address : Address)
  | nonce (address : Address)
  | slot (address : Address) (key : Word)
  | account (address : Address)
  | accounts
  | committable
  | size
  | refund
  | logs

/-- What can be done to a world state. -/
inductive Change
  | createAccount (address : Address)
  | insertAccount (account : Account)
  | setCode (address : Address) (code : Bytes)
  | setNonce (address : Address) (nonce : U256)
  | addBalance (address : Address) (amount : U256)
  | subBalance (address : Address) (amount : U256)
  | destroy (address : Address)
  | setSlot (address : Address) (key : Word) (value : Bytes)
  | addRefund (amount : U256)
  | subRefund (amount : U256)
  | appendLog (log : Log)

/-- What a query or a change answers. -/
inductive Answer
  | done
  | flag (value : Bool)
  | count (value : Nat)
  | number (value : U256)
  | bytes (value : Bytes)
  | account (value : Option Account)
  | accounts (value : List Account)
  | logs (value : List Log)
deriving DecidableEq

namespace WorldState

def answer (s : WorldState) : Query → Answer
  | .accountExists a => .flag (s.accountExists a)
  | .accountIsEmpty a => .flag (s.accountIsEmpty a)
  | .isDestroyed a => .flag (s.isDestroyed a)
  | .code a => .bytes (s.code a)
  | .codeSize a => .count (s.codeSize a)
  | .balance a => .number (s.balance a)
  | .nonce a => .number (s.nonce a)
  | .slot a key => .bytes (s.slot a key)
  | .account a => .account (s.account? a)
  | .accounts => .accounts s.accounts.toList
  | .committable => .accounts s.committable
  | .size => .count s.size
  | .refund => .number s.refund
  | .logs => .logs s.logs

def apply (s : WorldState) : Change → Outcome LedgerError Unit WorldState
  | .createAccount a => .done () (s.createAccount a)
  | .insertAccount account => .done () (s.insertAccount account)
  | .setCode a code => .done () (s.setCode a code)
  | .setNonce a nonce => .done () (s.setNonce a nonce)
  | .addBalance a amount => s.addBalance a amount
  | .subBalance a amount => s.subBalance a amount
  | .destroy a => .done () (s.destroy a)
  | .setSlot a key value => .done () (s.setSlot a key value)
  | .addRefund amount => .done () (s.addRefund amount)
  | .subRefund amount => s.subRefund amount
  | .appendLog log => .done () (s.appendLog log)

end WorldState

/-! ## Snapshots under names -/

/-- One step of a session. -/
inductive Command
  | query (q : Query)
  | change (c : Change)
  | snapshot (name : String)
  | revert (name : String)

/-- A world state and the snapshots that were taken of it. -/
structure Session where
  state : WorldState
  snapshots : Std.ExtTreeMap String Snapshot

namespace Session

/-- The session in which nothing happened yet. -/
def empty : Session := ⟨WorldState.empty, ∅⟩

/-- Carries out one step. Returning to a name without a snapshot changes nothing. -/
def step (s : Session) : Command → Outcome LedgerError Answer Session
  | .query q => .done (s.state.answer q) s
  | .change c =>
    match s.state.apply c with
    | (.ok (), state) => .done .done { s with state }
    | (.error e, state) => .failed e { s with state }
  | .snapshot name => .done .done { s with snapshots := s.snapshots.insert name s.state.snapshot }
  | .revert name =>
    match s.snapshots[name]? with
    | some snapshot => .done .done { s with state := s.state.revertTo snapshot }
    | none => .done .done s

/-- Carries out steps one after the other. A step that fails does not end the run. -/
def run (s : Session) : List Command → List (Except LedgerError Answer) × Session
  | [] => ([], s)
  | c :: rest =>
    let (result, s') := s.step c
    let (results, s'') := s'.run rest
    (result :: results, s'')

end Session

end ExecState
