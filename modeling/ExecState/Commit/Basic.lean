import ExecState.Ledger.WorldState
import ExecState.Trie.Basic

/-!
# Commitments

The accounts of a world state are prepared by several workers and written into one trie.
-/

namespace ExecState

/-!
## Sharing work among workers

A row of items is cut into stretches of equal length, the last one perhaps shorter, and every
stretch is given to a worker. Each worker goes through its stretch in order; the results are
strung together in the order in which the workers finish. That order is not known beforehand, so
it is a parameter: of every number of workers it lists each one exactly once.
-/

/-- The order in which workers finish. -/
structure Arrival where
  /-- The workers of a team of the given size, the first to finish first. -/
  order : (team : Nat) → List Nat
  order_perm : ∀ team, (order team).Perm (List.range team)

/-- Every worker finishes before the next one. -/
def Arrival.inTurn : Arrival := ⟨List.range, fun _ ↦ List.Perm.refl _⟩

/-- Every worker finishes after the next one. -/
def Arrival.reversed : Arrival :=
  ⟨fun team ↦ (List.range team).reverse, fun _ ↦ List.reverse_perm _⟩

namespace FanOut

variable {α β : Type}

/-- A row cut into stretches of `size` items, where a size of zero counts as one. -/
def chunks (size : Nat) : List α → List (List α)
  | [] => []
  | x :: rest => (x :: rest.take (size - 1)) :: chunks size (rest.drop (size - 1))
termination_by items => items.length
decreasing_by simp only [List.length_drop, List.length_cons]; omega

/-- The number of workers that share a number of items: at least one, at most one for each. -/
def teamSize (threads items : Nat) : Nat := max 1 (min threads items)

/-- The number of items that each worker is given. -/
def chunkSize (threads items : Nat) : Nat :=
  let team := teamSize threads items
  (items + team - 1) / team

/-- The stretches that the workers are given. -/
def shares (threads : Nat) (items : List α) : List (List α) :=
  chunks (chunkSize threads items.length) items

/-- The results of all items, in the order in which the workers finish. -/
def run (arrival : Arrival) (threads : Nat) (f : α → β) (items : List α) : List β :=
  let results := (shares threads items).map (·.map f)
  ((arrival.order results.length).filterMap (results[·]?)).flatten

theorem flatten_chunks (size : Nat) (items : List α) : (chunks size items).flatten = items := by
  fun_induction chunks size items with
  | case1 => rfl
  | case2 x rest ih => simp [ih]

theorem ne_nil_of_mem_chunks {size : Nat} {items c : List α} (h : c ∈ chunks size items) :
    c ≠ [] := by
  fun_induction chunks size items with
  | case1 => simp at h
  | case2 x rest ih =>
    rcases List.mem_cons.1 h with rfl | h
    · simp
    · exact ih h

end FanOut

/-!
## Committing a world state

The accounts that take part are folded into a trie with one root. For each of them the storage is
put into a trie of its own, which starts as a cleared copy of the target, and its root goes into
the record that the target holds under the address. The code goes into the target's store.

Two things about a commitment are left open by the machine that runs it: the order in which
workers finish and the order in which a storage is walked. A `Schedule` settles both.
-/

/-- What the machine decides about a commitment. -/
structure Schedule where
  arrival : Arrival
  /-- The storage of an account, in the order in which it is walked. -/
  walk : Account → List (Word × Bytes)
  walk_perm : ∀ account, (walk account).Perm account.storage.toList

/-- The schedule of a machine that does one thing after the other. -/
def Schedule.sequential : Schedule :=
  ⟨Arrival.inTurn, fun account ↦ account.storage.toList, fun _ ↦ List.Perm.refl _⟩

/-- What the target trie takes in for one account. -/
structure Prepared where
  address : Address
  code : Bytes
  codeHash : Word
  /-- The encoded record of the account. -/
  encoding : Bytes
deriving DecidableEq

namespace Commit

/-- The number of workers where none is given. -/
def defaultThreads : Nat := 4

/-- The root of a storage in a trie that starts as a cleared copy of the template. Values are
encoded; keys are words, so that there always is a root. -/
def storageRoot (template : Trie) (entries : List (Word × Bytes)) : Except TrieError Word :=
  let encoded := entries.map fun entry ↦ (entry.1.bytes, Rlp.encodeBytes entry.2)
  match template.clear.putAll encoded with
  | (.ok (), t) => .ok t.digest
  | (.error e, _) => .error e

/-- The record of an account: its numbers, the root of its storage and the digest of its code. -/
def record (account : Account) (storageRoot codeHash : Word) : Rlp.Item :=
  .list [.uint account.nonce, .uint account.balance, .word storageRoot, .word codeHash]

/-- The work that is done for one account apart from the others. -/
def prepare (schedule : Schedule) (template : Trie) (account : Account) :
    Except TrieError Prepared :=
  match storageRoot template (schedule.walk account) with
  | .error e => .error e
  | .ok storageRoot =>
    let codeHash := Keccak.hash account.code
    .ok
      { address := account.address
        code := account.code
        codeHash
        encoding := (record account storageRoot codeHash).encode }

/-- All prepared accounts, or the first fault among them. -/
def gather : List (Except TrieError Prepared) → Except TrieError (List Prepared)
  | [] => .ok []
  | .error e :: _ => .error e
  | .ok p :: rest => (gather rest).map (p :: ·)

/-- Writes prepared accounts into the target, until one is refused. The code of an account is
stored before its record is put. -/
def writeAll (target : Trie) : List Prepared → Outcome TrieError Unit Trie
  | [] => .done () target
  | p :: rest =>
    match (target.putRaw p.codeHash p.code).put p.address.bytes p.encoding with
    | (.ok (), t) => writeAll t rest
    | (.error e, t) => .failed e t

/-- Commits a world state into a trie and answers the root of the trie. -/
def commit (schedule : Schedule) (threads : Nat) (state : WorldState) (target : Trie) :
    Outcome TrieError (Option Word) Trie :=
  let work := prepare schedule target
  match gather (FanOut.run schedule.arrival threads work state.committable) with
  | .error e => .failed e target
  | .ok prepared =>
    match writeAll target prepared with
    | (.error e, t) => .failed e t
    | (.ok (), t) => .done t.root? t

/-- The root of a world state in a trie of its own. -/
def stateRoot? (secure : Bool) (threads : Nat) (state : WorldState) : Option Word :=
  match commit Schedule.sequential threads state (Trie.empty secure) with
  | (.ok root, _) => root
  | (.error _, _) => none

end Commit

end ExecState
