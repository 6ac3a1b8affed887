import ExecState.Ledger.Session
import ExecState.Machine.Session
import ExecState.Proofs.Ledger.Index
import ExecState.Trie.Basic

/-!
# All or nothing

An operation either does all that it is asked for or is refused, and a refusal leaves what it was
called on as it was. Outcomes carry the state that a refusal leaves behind, so this is something to
be proved: most operations check before they change anything, but adding to a balance creates an
absent account before the sum is known. No sum overflows there, since a fresh account has no
balance; so wherever the sum is refused, the account was there already.

What refusals leave alone they cannot pass on to later commands either. A run of a machine or of a
ledger ends in the state in which it ends without the commands that were refused, and the others
answer what they answer there (`Machine.run_accepted`, `Session.run_accepted`).
-/

namespace ExecState

/-! ## Outcomes -/

namespace Outcome

variable {ε α β κ σ : Type}

/-- Whether a refusal leaves the state as it was. -/
def AllOrNothing (o : Outcome ε α σ) (s : σ) : Prop := ∀ e, o.1 = .error e → o.2 = s

theorem allOrNothing_done (a : α) (s s' : σ) : (done a s' : Outcome ε α σ).AllOrNothing s := nofun

theorem allOrNothing_failed (e : ε) (s : σ) : (failed e s : Outcome ε α σ).AllOrNothing s :=
  fun _ _ ↦ rfl

/-! ### Runs without what was refused -/

variable (step : σ → κ → Outcome ε α σ)

/-- The commands of a run that are not refused. -/
def accepted (s : σ) : List κ → List κ
  | [] => []
  | c :: rest =>
    match step s c with
    | (.ok _, s') => c :: accepted s' rest
    | (.error _, s') => accepted s' rest

variable {step}

/-- **Refused commands leave no trace.** A run without them ends in the same state and answers the
same, apart from the refusals. -/
theorem run_accepted {run : σ → List κ → List (Except ε α) × σ} (hnil : ∀ s, run s [] = ([], s))
    (hcons : ∀ s c rest, run s (c :: rest) =
      ((step s c).1 :: (run (step s c).2 rest).1, (run (step s c).2 rest).2))
    (hstep : ∀ s c, (step s c).AllOrNothing s) (s : σ) (commands : List κ) :
    run s (accepted step s commands)
      = ((run s commands).1.filter (·.isOk), (run s commands).2) := by
  induction commands generalizing s with
  | nil => rw [accepted, hnil]; rfl
  | cons c rest ih =>
    have hrefused := hstep s c
    rw [accepted, hcons]
    match h : step s c with
    | (.ok a, s') =>
      dsimp only
      rw [hcons, h, ih]
      rfl
    | (.error e, s') =>
      rw [h] at hrefused
      obtain rfl : s' = s := hrefused e rfl
      exact ih s'

end Outcome

open Outcome

/-! ## Machines -/

theorem Memory.allOrNothing_write (m : Memory) (offset size : Nat) (value : Bytes) :
    (m.write offset size value).AllOrNothing m := by
  rw [write]
  split_ifs
  · exact allOrNothing_done _ _ _
  · exact allOrNothing_done _ _ _
  · exact allOrNothing_failed _ _
  · exact allOrNothing_failed _ _

theorem Memory.allOrNothing_writeClamped (m : Memory) (offset size : Nat) (value : Bytes) :
    (m.writeClamped offset size value).AllOrNothing m :=
  m.allOrNothing_write _ _ _

theorem Stack.allOrNothing_pop (s : Stack) : s.pop.AllOrNothing s := by
  rw [pop]
  split
  · exact allOrNothing_failed _ _
  · exact allOrNothing_done _ _ _

theorem Stack.allOrNothing_popMany (s : Stack) (n : Nat) : (s.popMany n).AllOrNothing s := by
  rw [popMany]
  split_ifs
  · exact allOrNothing_done _ _ _
  · exact allOrNothing_failed _ _

theorem GrowthAdvisor.allOrNothing_grow (advisor : GrowthAdvisor) (family : MemoryFamily)
    (stack : Stack) (m : Memory) : (advisor.grow family stack m).AllOrNothing m := by
  rw [grow]
  split
  · exact allOrNothing_done _ _ _
  · exact allOrNothing_failed _ _

theorem GrowthAdvisor.allOrNothing_prepare (advisor : GrowthAdvisor) (byte : UInt8) (stack : Stack)
    (m : Memory) : (advisor.prepare byte stack m).AllOrNothing m := by
  rw [prepare]
  split
  · exact allOrNothing_done _ _ _
  · rename_i family _
    have hgrow := advisor.allOrNothing_grow family stack m
    split
    · exact allOrNothing_done _ _ _
    · -- what a refused growth leaves is what the preparation leaves
      rename_i e m' heq
      rw [heq] at hgrow
      exact fun _ _ ↦ hgrow e rfl

namespace Machine

theorem exists_error_of_mapError {ε ε' α β : Type} {r : Except ε α} {f : α → β} {g : ε → ε'}
    {e' : ε'} (h : (r.map f).mapError g = .error e') : ∃ e, r = .error e := by
  cases r with
  | ok a => cases h
  | error e => exact ⟨e, rfl⟩

section After

variable {α : Type} {m : Machine} {answer : α → Answer}

theorem allOrNothing_afterMemory {o : Outcome MemoryError α Memory} (h : o.AllOrNothing m.memory) :
    (m.afterMemory answer o).AllOrNothing m := by
  intro _ he
  obtain ⟨e, he⟩ := exists_error_of_mapError he
  rw [afterMemory, h e he]

theorem allOrNothing_afterStack {o : Outcome StackError α Stack} (h : o.AllOrNothing m.stack) :
    (m.afterStack answer o).AllOrNothing m := by
  intro _ he
  obtain ⟨e, he⟩ := exists_error_of_mapError he
  rw [afterStack, h e he]

theorem allOrNothing_afterGrowth {o : Outcome GrowthError α Memory}
    (h : o.AllOrNothing m.memory) : (m.afterGrowth answer o).AllOrNothing m := by
  intro _ he
  obtain ⟨e, he⟩ := exists_error_of_mapError he
  rw [afterGrowth, h e he]

end After

theorem allOrNothing_perform (m : Machine) (c : Command) : (m.perform c).AllOrNothing m := by
  cases c with
  | write offset size value =>
    exact allOrNothing_afterMemory (m.memory.allOrNothing_write offset size value)
  | writeClamped offset size value =>
    exact allOrNothing_afterMemory (m.memory.allOrNothing_writeClamped offset size value)
  | pop => exact allOrNothing_afterStack m.stack.allOrNothing_pop
  | popMany n => exact allOrNothing_afterStack (m.stack.allOrNothing_popMany n)
  | prepare byte =>
    exact allOrNothing_afterGrowth (m.advisor.allOrNothing_prepare byte m.stack m.memory)
  | grow family =>
    exact allOrNothing_afterGrowth (m.advisor.allOrNothing_grow family m.stack m.memory)
  | requiredLength region =>
    rw [perform]
    split
    · exact allOrNothing_done _ _ _
    · exact allOrNothing_failed _ _
  | _ => exact allOrNothing_done _ _ _

theorem allOrNothing_step (m : Machine) (c : Command) : (m.step c).AllOrNothing m := by
  rw [step]
  split_ifs
  · exact m.allOrNothing_perform c
  · exact allOrNothing_failed _ _

/-- **A run of a machine is what it is without the commands that are refused.** -/
theorem run_accepted (m : Machine) (commands : List Command) :
    m.run (accepted step m commands) = ((m.run commands).1.filter (·.isOk), (m.run commands).2) :=
  Outcome.run_accepted (fun _ ↦ rfl) (fun _ _ _ ↦ rfl) allOrNothing_step m commands

end Machine

/-! ## Ledgers -/

namespace WorldState

/-- What is refused is refused to an account that is there, so none was created. -/
theorem allOrNothing_addBalance (s : WorldState) (a : Address) (amount : U256) :
    (s.addBalance a amount).AllOrNothing s := by
  rw [addBalance]
  dsimp only
  split
  · exact allOrNothing_done _ _ _
  · rename_i hnone
    rw [snd_getOrCreate_of_add?_eq_none hnone]
    exact allOrNothing_failed _ _

theorem allOrNothing_subBalance (s : WorldState) (a : Address) (amount : U256) :
    (s.subBalance a amount).AllOrNothing s := by
  rw [subBalance]
  split
  · exact allOrNothing_done _ _ _
  · split
    · exact allOrNothing_done _ _ _
    · exact allOrNothing_failed _ _

theorem allOrNothing_subRefund (s : WorldState) (amount : U256) :
    (s.subRefund amount).AllOrNothing s := by
  rw [subRefund]
  split
  · exact allOrNothing_done _ _ _
  · exact allOrNothing_failed _ _

theorem allOrNothing_apply (s : WorldState) (c : Change) : (s.apply c).AllOrNothing s := by
  cases c with
  | addBalance a amount => exact s.allOrNothing_addBalance a amount
  | subBalance a amount => exact s.allOrNothing_subBalance a amount
  | subRefund amount => exact s.allOrNothing_subRefund amount
  | _ => exact allOrNothing_done _ _ _

end WorldState

namespace Session

theorem allOrNothing_step (s : Session) (c : Command) : (s.step c).AllOrNothing s := by
  cases c with
  | change c =>
    have happly := s.state.allOrNothing_apply c
    rw [step]
    split
    · exact allOrNothing_done _ _ _
    · rename_i e state heq
      rw [heq] at happly
      obtain rfl : state = s.state := happly e rfl
      exact allOrNothing_failed _ _
  | revert name =>
    rw [step]
    split <;> exact allOrNothing_done _ _ _
  | _ => exact allOrNothing_done _ _ _

/-- **A run on a ledger is what it is without the commands that are refused.** -/
theorem run_accepted (s : Session) (commands : List Command) :
    s.run (accepted step s commands) = ((s.run commands).1.filter (·.isOk), (s.run commands).2) :=
  Outcome.run_accepted (fun _ ↦ rfl) (fun _ _ _ ↦ rfl) allOrNothing_step s commands

end Session

/-! ## Tries -/

theorem Trie.allOrNothing_put (t : Trie) (key value : Bytes) :
    (t.put key value).AllOrNothing t := by
  rw [put]
  split
  · split_ifs
    · exact allOrNothing_done _ _ _
    · exact allOrNothing_failed _ _
  · exact allOrNothing_done _ _ _

/-! ## All of them -/

/-- **All or nothing.** Whatever the core refuses, it refuses without a change: no byte is written
and no memory grown, nothing is popped, no account is created and none changed, and a trie keeps its
leaves and its store. -/
theorem coreOperations_allOrNothing :
    (∀ (m : Memory) (offset size : Nat) (value : Bytes),
      (m.write offset size value).AllOrNothing m ∧
      (m.writeClamped offset size value).AllOrNothing m) ∧
    (∀ (s : Stack) (n : Nat), s.pop.AllOrNothing s ∧ (s.popMany n).AllOrNothing s) ∧
    (∀ (advisor : GrowthAdvisor) (byte : UInt8) (family : MemoryFamily) (stack : Stack)
        (m : Memory),
      (advisor.prepare byte stack m).AllOrNothing m ∧
      (advisor.grow family stack m).AllOrNothing m) ∧
    (∀ (s : WorldState) (a : Address) (amount : U256),
      (s.addBalance a amount).AllOrNothing s ∧ (s.subBalance a amount).AllOrNothing s ∧
      (s.subRefund amount).AllOrNothing s) ∧
    ∀ (t : Trie) (key value : Bytes), (t.put key value).AllOrNothing t := by
  refine ⟨fun m offset size value ↦ ⟨?_, ?_⟩, fun s n ↦ ⟨?_, ?_⟩,
    fun advisor byte family stack m ↦ ⟨?_, ?_⟩, fun s a amount ↦ ⟨?_, ?_, ?_⟩, ?_⟩
  · exact m.allOrNothing_write offset size value
  · exact m.allOrNothing_writeClamped offset size value
  · exact s.allOrNothing_pop
  · exact s.allOrNothing_popMany n
  · exact advisor.allOrNothing_prepare byte stack m
  · exact advisor.allOrNothing_grow family stack m
  · exact s.allOrNothing_addBalance a amount
  · exact s.allOrNothing_subBalance a amount
  · exact s.allOrNothing_subRefund amount
  · exact Trie.allOrNothing_put

/-- A ledger with one account that has little. -/
def modest : WorldState :=
  WorldState.empty.after [.addBalance FixedBytes.zero 5, .addRefund 3]

/-- A trie with a key of one byte. -/
def narrow : Trie := (Trie.empty false).setLeaf [1] [1]

theorem coreOperations_allOrNothing_refused :
    (((Memory.empty.write 1 2 [7, 7]).1 = .error (.outOfBounds 1 2 0) ∧
        (Memory.empty.write 1 2 [7, 7]).2 = Memory.empty) ∧
      (Memory.empty.writeClamped 1 9 [7, 7]).1 = .error (.outOfBounds 1 2 0) ∧
        (Memory.empty.writeClamped 1 9 [7, 7]).2 = Memory.empty) ∧
    ((Stack.empty.pop.1 = .error (.underflow 1 0) ∧ Stack.empty.pop.2 = Stack.empty) ∧
      (Stack.popMany ⟨[5]⟩ 2).1 = .error (.underflow 2 1) ∧ (Stack.popMany ⟨[5]⟩ 2).2 = ⟨[5]⟩) ∧
    (((GrowthAdvisor.prepare ⟨31⟩ Opcode.mstore.byte Stack.empty Memory.empty).1
          = .error (.limitExceeded ⟨0, 32⟩ 31) ∧
        (GrowthAdvisor.prepare ⟨31⟩ Opcode.mstore.byte Stack.empty Memory.empty).2
          = Memory.empty) ∧
      (GrowthAdvisor.grow ⟨31⟩ .store32 Stack.empty Memory.empty).1
          = .error (.limitExceeded ⟨0, 32⟩ 31) ∧
        (GrowthAdvisor.grow ⟨31⟩ .store32 Stack.empty Memory.empty).2 = Memory.empty) ∧
    (((modest.addBalance FixedBytes.zero (BitVec.allOnes 256)).1
          = .error (.balanceOverflow FixedBytes.zero (BitVec.allOnes 256) 5) ∧
        (modest.addBalance FixedBytes.zero (BitVec.allOnes 256)).2 = modest) ∧
      ((modest.subBalance FixedBytes.zero 9).1
          = .error (.balanceUnderflow FixedBytes.zero 9 5) ∧
        (modest.subBalance FixedBytes.zero 9).2 = modest) ∧
      (modest.subRefund 4).1 = .error (.refundUnderflow 4 3) ∧ (modest.subRefund 4).2 = modest) ∧
    (narrow.put [1, 2] [1]).1 = .error (.keyLength 2 1) ∧ (narrow.put [1, 2] [1]).2 = narrow := by
  obtain ⟨hmemory, hstack, hgrowth, hledger, htrie⟩ := coreOperations_allOrNothing
  have hadd : (modest.addBalance FixedBytes.zero (BitVec.allOnes 256)).1
      = .error (.balanceOverflow FixedBytes.zero (BitVec.allOnes 256) 5) := by decide +kernel
  have hsub : (modest.subBalance FixedBytes.zero 9).1
      = .error (.balanceUnderflow FixedBytes.zero 9 5) := by decide +kernel
  have hlength : narrow.pathLength? = some 1 := by
    simp [narrow, Trie.pathLength?, Trie.setLeaf, Trie.empty, Std.ExtTreeMap.minKey?_insert]
  have hput : (narrow.put [1, 2] [1]).1 = .error (.keyLength 2 1) := by
    rw [Trie.put, hlength]
    rfl
  refine ⟨⟨⟨rfl, (hmemory _ _ _ _).1 _ rfl⟩, rfl, (hmemory _ _ _ _).2 _ rfl⟩,
    ⟨⟨rfl, (hstack _ 0).1 _ rfl⟩, rfl, (hstack _ _).2 _ rfl⟩,
    ⟨⟨rfl, (hgrowth _ _ .store32 _ _).1 _ rfl⟩, rfl, (hgrowth _ 0 _ _ _).2 _ rfl⟩,
    ⟨⟨hadd, (hledger _ _ _).1 _ hadd⟩, ⟨hsub, (hledger _ _ _).2.1 _ hsub⟩,
      rfl, (hledger _ FixedBytes.zero _).2.2 _ rfl⟩, hput, htrie _ _ _ _ hput⟩

end ExecState
