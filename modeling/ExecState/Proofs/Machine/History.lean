import ExecState.Machine.Memory
import Mathlib.Data.List.Induction

/-!
# The history of a memory

A memory is meant to be an endless row of bytes that start as zero, beside a length that only grows.
Its history settles both: the length is the greatest one that was asked for (`highWater`), and a
byte is the one that the last successful write over its position put there, or zero where there was
none (`stored`). Histories are read from the left, so a memory is compared with its history by
induction from the right, one command at a time (`byteAt_step`, `length_step`).

Which writes succeed is settled by the length alone. `write_ok_iff` and the two lemmas after it say
so of any memory, and `run_eq_history` says it of a memory with a history.
-/

namespace ExecState.Memory

/-- What is done to a memory. -/
inductive Command
  | resize (target : Nat)
  | write (offset size : Nat) (value : Bytes)
  | writeClamped (offset size : Nat) (value : Bytes)
deriving DecidableEq

def step (m : Memory) : Command → Outcome MemoryError Unit Memory
  | .resize target => .done () (m.resize target)
  | .write offset size value => m.write offset size value
  | .writeClamped offset size value => m.writeClamped offset size value

/-- Carries out commands one after the other. A command that fails does not end the run. -/
def run (m : Memory) : List Command → List (Except MemoryError Unit) × Memory
  | [] => ([], m)
  | c :: rest =>
    let (result, m') := m.step c
    let (results, m'') := m'.run rest
    (result :: results, m'')

/-! ## What a history says -/

namespace Command

def target? : Command → Option Nat
  | resize target => some target
  | write _ _ _ | writeClamped _ _ _ => none

/-- The position of the first byte that a command stores. -/
def offset : Command → Nat
  | resize _ => 0
  | write offset _ _ | writeClamped offset _ _ => offset

/-- The bytes that a command stores if it succeeds. -/
def payload : Command → Bytes
  | resize _ => []
  | write _ size value | writeClamped _ size value => value.take size

/-- Whether a command stores a byte at a position if it succeeds. -/
def covers (c : Command) (i : Nat) : Bool :=
  decide (c.offset ≤ i ∧ i < c.offset + c.payload.length)

end Command

/-- The greatest length that was asked for. -/
def highWater (commands : List Command) : Nat :=
  (commands.filterMap Command.target?).max?.getD 0

/-- The commands that succeeded on a memory that was empty at first. -/
def succeeded (commands : List Command) : List Command :=
  ((commands.zip (empty.run commands).1).filter fun entry ↦ entry.2.isOk).map Prod.fst

/-- The byte that the last successful write over a position put there, zero if there was none. -/
def stored (commands : List Command) (i : Nat) : UInt8 :=
  match (succeeded commands).findRev? fun c ↦ c.covers i with
  | some c => (c.payload[i - c.offset]?).getD 0
  | none => 0

/-! ## Which writes succeed -/

variable (m : Memory) (offset size : Nat) (value : Bytes)

theorem write_ok_iff :
    (m.write offset size value).1 = .ok () ↔
      size = 0 ∨ offset + size ≤ m.length ∧ value.length = size := by
  rw [write]
  split
  · simp [*]
  · split
    · split <;> simp [*]
    · simp [*]

/-- The bounds are checked first, whatever the size of the value. -/
theorem write_outOfBounds_iff :
    (m.write offset size value).1 = .error (.outOfBounds offset size m.length) ↔
      size ≠ 0 ∧ m.length < offset + size := by
  rw [write]
  split
  · simp [*]
  · split
    · rename_i hbounds
      split <;> simp [Nat.not_lt.mpr hbounds]
    · rename_i hsize hbounds
      simp [hsize, Nat.not_le.mp hbounds]

theorem write_sizeMismatch_iff :
    (m.write offset size value).1 = .error (.sizeMismatch size value.length) ↔
      size ≠ 0 ∧ offset + size ≤ m.length ∧ value.length ≠ size := by
  rw [write]
  split
  · simp [*]
  · split
    · split <;> simp [*]
    · simp [*]

theorem writeClamped_eq_write :
    m.writeClamped offset size value
      = m.write offset (min size value.length) (value.take (min size value.length)) := by
  rw [writeClamped, List.take_eq_take_min]

theorem writeClamped_ne_sizeMismatch (declared actual : Nat) :
    (m.writeClamped offset size value).1 ≠ .error (.sizeMismatch declared actual) := by
  rw [writeClamped, write]
  split
  · simp
  · rw [if_pos (List.length_take)]
    split <;> simp

/-! ## One command -/

theorem length_write : (m.write offset size value).2.length = m.length := by
  rw [write]
  split
  · rfl
  · split
    · split <;> rfl
    · rfl

/-- A write that succeeds stores as many bytes as it declares, one that fails stores none. -/
theorem snd_write :
    (m.write offset size value).2
      = if (m.write offset size value).1.isOk then m.store offset (value.take size) else m := by
  rw [write]
  split
  · rename_i hsize
    rw [hsize]
    rfl
  · split
    · split
      · rename_i hvalue
        rw [List.take_of_length_le (Nat.le_of_eq hvalue)]
        rfl
      · rfl
    · rfl

theorem snd_writeClamped :
    (m.writeClamped offset size value).2
      = if (m.writeClamped offset size value).1.isOk then m.store offset (value.take size)
        else m := by
  have hpayload : (value.take size).take (min size value.length) = value.take size :=
    List.take_of_length_le (Nat.le_of_eq List.length_take)
  rw [writeClamped, snd_write, hpayload]

theorem length_step (c : Command) : (m.step c).2.length = max m.length (c.target?.getD 0) := by
  cases c with
  | resize target => rfl
  | write offset size value => exact (m.length_write offset size value).trans (Nat.max_zero _).symm
  | writeClamped offset size value => exact (m.length_write offset _ _).trans (Nat.max_zero _).symm

/-- A position that a command does not cover, or that it fails to write, keeps its byte. -/
theorem byteAt_step (c : Command) (i : Nat) :
    (m.step c).2.byteAt i
      = if (m.step c).1.isOk && c.covers i then (c.payload[i - c.offset]?).getD 0
        else m.byteAt i := by
  -- every command stores its payload if it succeeds; that of a resize is empty
  have hstore : ∀ succeeds : Bool,
      (if succeeds then m.store c.offset c.payload else m).byteAt i
        = if succeeds && c.covers i then (c.payload[i - c.offset]?).getD 0 else m.byteAt i := by
    intro succeeds
    cases succeeds with
    | false => rfl
    | true => simp [byteAt_store, Command.covers]
  cases c with
  | resize target => exact hstore true
  | write offset size value =>
    rw [← hstore]
    exact congrArg (byteAt · i) (m.snd_write offset size value)
  | writeClamped offset size value =>
    rw [← hstore]
    exact congrArg (byteAt · i) (m.snd_writeClamped offset size value)

/-! ## Runs -/

theorem run_cons (c : Command) (rest : List Command) :
    m.run (c :: rest) = ((m.step c).1 :: ((m.step c).2.run rest).1, ((m.step c).2.run rest).2) :=
  rfl

theorem run_concat (commands : List Command) (c : Command) :
    m.run (commands ++ [c])
      = ((m.run commands).1 ++ [((m.run commands).2.step c).1], ((m.run commands).2.step c).2) := by
  induction commands generalizing m with
  | nil => rfl
  | cons d commands ih => rw [List.cons_append, run_cons, ih, run_cons, List.cons_append]

theorem length_fst_run (commands : List Command) :
    (m.run commands).1.length = commands.length := by
  induction commands generalizing m with
  | nil => rfl
  | cons c commands ih => rw [run_cons, List.length_cons, List.length_cons, ih]

theorem highWater_concat (commands : List Command) (c : Command) :
    highWater (commands ++ [c]) = max (highWater commands) (c.target?.getD 0) := by
  have hfold : ∀ l : List Nat, l.foldl max 0 = l.max?.getD 0 := fun l ↦ by
    rw [List.foldl_max, Nat.zero_max]
  rw [highWater, highWater, List.filterMap_append, ← hfold, ← hfold, List.foldl_append]
  cases h : c.target? with
  | none => simp [h]
  | some target => simp [h]

theorem succeeded_concat (commands : List Command) (c : Command) :
    succeeded (commands ++ [c])
      = succeeded commands ++ if ((empty.run commands).2.step c).1.isOk then [c] else [] := by
  rw [succeeded, succeeded, run_concat, List.zip_append (length_fst_run _ _).symm,
    List.filter_append, List.map_append]
  cases h : ((empty.run commands).2.step c).1.isOk <;> simp [h]

theorem stored_concat (commands : List Command) (c : Command) (i : Nat) :
    stored (commands ++ [c]) i
      = if ((empty.run commands).2.step c).1.isOk && c.covers i
        then (c.payload[i - c.offset]?).getD 0 else stored commands i := by
  -- read backwards, the new command is the first one to be looked at
  rw [stored, stored, succeeded_concat, List.findRev?_eq_find?_reverse,
    List.findRev?_eq_find?_reverse, List.reverse_append]
  cases ((empty.run commands).2.step c).1.isOk with
  | false => rfl
  | true => cases h : c.covers i <;> simp [h]

theorem length_run (commands : List Command) :
    (empty.run commands).2.length = highWater commands := by
  induction commands using List.reverseRecOn with
  | nil => rfl
  | append_singleton commands c ih => rw [run_concat, length_step, ih, highWater_concat]

theorem byteAt_run (commands : List Command) (i : Nat) :
    (empty.run commands).2.byteAt i = stored commands i := by
  induction commands using List.reverseRecOn with
  | nil => simp [run, stored, succeeded, byteAt, empty]
  | append_singleton commands c ih => rw [run_concat, byteAt_step, ih, stored_concat]

/-- **A memory is its history.** After any commands on a memory that was empty at first, its length
is the greatest one that was asked for. A write of no bytes succeeds; any other succeeds if it ends
within that length and the value has the declared size, and of the two the bounds are checked first.
A clamped write is a write of the bytes that the declared size admits, so that their number is never
wrong. Reading yields as many bytes as asked for, anywhere, and each is the one that the last
successful write over its position put there, or zero. -/
theorem run_eq_history (commands : List Command) :
    (empty.run commands).2.length = highWater commands ∧
      (∀ offset size value,
        (((empty.run commands).2.write offset size value).1 = .ok () ↔
          size = 0 ∨ offset + size ≤ highWater commands ∧ value.length = size) ∧
        (((empty.run commands).2.write offset size value).1
            = .error (.outOfBounds offset size (highWater commands)) ↔
          size ≠ 0 ∧ highWater commands < offset + size) ∧
        (((empty.run commands).2.write offset size value).1
            = .error (.sizeMismatch size value.length) ↔
          size ≠ 0 ∧ offset + size ≤ highWater commands ∧ value.length ≠ size)) ∧
      (∀ offset size value,
        (empty.run commands).2.writeClamped offset size value
          = (empty.run commands).2.write offset (min size value.length)
              (value.take (min size value.length)) ∧
        ∀ declared actual, ((empty.run commands).2.writeClamped offset size value).1
          ≠ .error (.sizeMismatch declared actual)) ∧
      ∀ offset size,
        ((empty.run commands).2.read offset size).length = size ∧
        (empty.run commands).2.read offset size
          = (List.range size).map fun i ↦ stored commands (offset + i) := by
  have hlength := length_run commands
  refine ⟨hlength, fun offset size value ↦ ?_, fun offset size value ↦ ?_, fun offset size ↦ ?_⟩
  · rw [← hlength]
    exact ⟨write_ok_iff _ offset size value, write_outOfBounds_iff _ offset size value,
      write_sizeMismatch_iff _ offset size value⟩
  · exact ⟨writeClamped_eq_write _ offset size value,
      writeClamped_ne_sizeMismatch _ offset size value⟩
  · refine ⟨length_read _ offset size, ?_⟩
    rw [read]
    exact List.map_congr_left fun i _ ↦ byteAt_run commands (offset + i)

/-- The second write covers the end of the first, the third ends past the length, and the fourth is
clamped to two bytes. -/
example : (empty.run [.resize 6, .write 0 4 [1, 2, 3, 4], .write 3 2 [5, 6], .write 5 2 [7, 8],
    .writeClamped 1 2 [9, 10, 11], .resize 3]).2.read 0 8 = [1, 9, 10, 5, 6, 0, 0, 0] := by
  decide

end ExecState.Memory
