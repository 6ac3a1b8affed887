import ExecState.Allocation.Document
import ExecState.Basic
import ExecState.Bytes.Hex
import ExecState.Commit.Basic
import ExecState.Config.Store
import ExecState.Disk.FileTree
import ExecState.Hash.Keccak
import ExecState.Json.Basic
import ExecState.Ledger.Session
import ExecState.Ledger.WorldState
import ExecState.Logging.Filter
import ExecState.Logging.Pattern
import ExecState.Logging.Settings
import ExecState.Machine.Growth
import ExecState.Machine.Memory
import ExecState.Machine.Session
import ExecState.Main
import ExecState.Numeral.Quantity
import ExecState.Options.Grammar
import ExecState.Program.Requests
import ExecState.Program.Run
import ExecState.Proofs.Allocation.CreationOrder
import ExecState.Proofs.Allocation.Denotation
import ExecState.Proofs.Allocation.Loading
import ExecState.Proofs.Allocation.Malformed
import ExecState.Proofs.Allocation.Rendering
import ExecState.Proofs.Allocation.Replay
import ExecState.Proofs.Atomicity
import ExecState.Proofs.Commit.Binding
import ExecState.Proofs.Commit.Order
import ExecState.Proofs.Commit.Pool
import ExecState.Proofs.Commit.Recommit
import ExecState.Proofs.Commit.Refusal
import ExecState.Proofs.Commit.StorageRoot
import ExecState.Proofs.Commit.Writes
import ExecState.Proofs.Config.Persistence
import ExecState.Proofs.Config.RefusedUpdate
import ExecState.Proofs.Disk.KeptFile
import ExecState.Proofs.Hash.Grid
import ExecState.Proofs.Json.Printing
import ExecState.Proofs.Ledger.Arithmetic
import ExecState.Proofs.Ledger.BlankSlots
import ExecState.Proofs.Ledger.Destruction
import ExecState.Proofs.Ledger.Index
import ExecState.Proofs.Ledger.Order
import ExecState.Proofs.Ledger.Refinement
import ExecState.Proofs.Ledger.Reordering
import ExecState.Proofs.Ledger.Revert
import ExecState.Proofs.Logging.Arithmetic
import ExecState.Proofs.Machine.Charges
import ExecState.Proofs.Machine.History
import ExecState.Proofs.Machine.Preparation
import ExecState.Proofs.Options.Accepted
import ExecState.Proofs.Program.Advice
import ExecState.Proofs.Rlp.Decoding
import ExecState.Proofs.Text.Hex
import ExecState.Proofs.Text.HexForms
import ExecState.Proofs.Text.Numeral
import ExecState.Proofs.Text.QuantityForms
import ExecState.Proofs.Text.Unsigned
import ExecState.Proofs.Toml.Rows
import ExecState.Proofs.Trie.Binding
import ExecState.Proofs.Trie.History
import ExecState.Proofs.Trie.Lookup
import ExecState.Proofs.Trie.Node
import ExecState.Proofs.Trie.Root
import ExecState.Rlp.Item
import ExecState.Text.Characters
import ExecState.Toml.Basic
import ExecState.Toml.Parser
import ExecState.Trie.Basic
