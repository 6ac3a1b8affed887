import ExecState.Basic
import Std.Data.ExtTreeMap

/-!
# Memory and its price

Memory only grows, and every word of it has its price, so both are kept together.
-/

namespace ExecState

/-!
## Gas

Prices are numbers of 128 bits. Their arithmetic stops at the largest number instead of
wrapping. The price of a memory is quadratic in the number of its 32-byte words.
-/

/-- A price. -/
abbrev Gas := BitVec 128

namespace Gas

/-- The number of prices, two to the power of 128. -/
abbrev size : Nat := 0x100000000000000000000000000000000

/-- The price nearest to a number. -/
def clamp (n : Nat) : Gas := BitVec.ofNat 128 (min n (size - 1))

/-- The sum, or the largest price where it does not fit. -/
def addSaturating (a b : Gas) : Gas := clamp (a.toNat + b.toNat)

/-- The product, or the largest price where it does not fit. -/
def mulSaturating (a b : Gas) : Gas := clamp (a.toNat * b.toNat)

/-- The difference, or zero where it is negative. -/
def subSaturating (a b : Gas) : Gas := clamp (a.toNat - b.toNat)

theorem toNat_clamp (n : Nat) : (clamp n).toNat = min n (size - 1) := by
  rw [clamp, BitVec.toNat_ofNat, size]
  omega

theorem toNat_clamp_of_lt {n : Nat} (h : n < size) : (clamp n).toNat = n := by
  rw [size] at h
  rw [toNat_clamp, size]
  omega

/-- The number of 32-byte words that cover a length. -/
def words (length : Nat) : Nat := (length + 31) / 32

/-- The price of a memory of the given length. -/
def ofLength (length : Nat) : Gas :=
  let w := clamp (words length)
  addSaturating (mulSaturating w w / 512) (mulSaturating w 3)

def decimal (g : Gas) : String := Nat.repr g.toNat

end Gas

/-!
## Execution memory

A memory is a row of bytes that all start as zero, with a length that only grows. Growing writes
nothing, so a memory holds its length and the bytes that were written, and a position without an
entry reads as zero. Reading is possible everywhere; past the length it yields zeros. Writing is
possible only within the length.
-/

/-- Why a write is refused. -/
inductive MemoryError
  /-- The region reaches past the length. -/
  | outOfBounds (offset size length : Nat)
  /-- The value has not the declared size. -/
  | sizeMismatch (size valueLength : Nat)
deriving DecidableEq

def MemoryError.message : MemoryError → String
  | .outOfBounds offset size length =>
    "invalid memory access: " ++ Nat.repr size ++ " bytes at offset " ++ Nat.repr offset ++
      " exceeds memory length " ++ Nat.repr length
  | .sizeMismatch size valueLength =>
    "invalid memory access: declared size " ++ Nat.repr size ++ " but value is " ++
      Nat.repr valueLength ++ " bytes"

/-- A memory: its length and the bytes that were written. -/
structure Memory where
  /-- The largest length that was ever asked for. -/
  length : Nat
  /-- The bytes that were written, by position. -/
  cells : Std.ExtTreeMap Nat UInt8
deriving DecidableEq

namespace Memory

def empty : Memory := ⟨0, ∅⟩

def byteAt (m : Memory) (i : Nat) : UInt8 := (m.cells[i]?).getD 0

/-- The memory grown to at least the given length. -/
def resize (m : Memory) (target : Nat) : Memory := { m with length := max m.length target }

/-- The cells after a value was written from a position on. -/
def storeCells (cells : Std.ExtTreeMap Nat UInt8) (offset : Nat) :
    Bytes → Std.ExtTreeMap Nat UInt8
  | [] => cells
  | b :: rest => storeCells (cells.insert offset b) (offset + 1) rest

/-- The memory after a value was written from a position on, whatever the length. -/
def store (m : Memory) (offset : Nat) (value : Bytes) : Memory :=
  { m with cells := storeCells m.cells offset value }

/-- Writes a value of the declared size. The bounds are checked before the size. -/
def write (m : Memory) (offset size : Nat) (value : Bytes) : Outcome MemoryError Unit Memory :=
  if size = 0 then .done () m
  else if offset + size ≤ m.length then
    if value.length = size then .done () (m.store offset value)
    else .failed (.sizeMismatch size value.length) m
  else .failed (.outOfBounds offset size m.length) m

/-- Writes as many bytes of a value as the declared size admits. -/
def writeClamped (m : Memory) (offset size : Nat) (value : Bytes) :
    Outcome MemoryError Unit Memory :=
  m.write offset (min size value.length) (value.take size)

/-- The bytes of a region, which may lie anywhere. -/
def read (m : Memory) (offset size : Nat) : Bytes :=
  (List.range size).map fun i ↦ m.byteAt (offset + i)

def contents (m : Memory) : Bytes := m.read 0 m.length

def cost (m : Memory) : Gas := Gas.ofLength m.length

/-- The price of growing the memory to a new length. -/
def expansionCost (m : Memory) (newLength : Nat) : Gas :=
  (Gas.ofLength newLength).subSaturating m.cost

/-! ### What the operations do to the bytes -/

theorem getElem?_storeCells (cells : Std.ExtTreeMap Nat UInt8) (offset i : Nat) (value : Bytes) :
    (storeCells cells offset value)[i]? =
      if offset ≤ i ∧ i < offset + value.length then value[i - offset]? else cells[i]? := by
  induction value generalizing cells offset with
  | nil => simp only [storeCells, List.length_nil, Nat.add_zero]; rw [if_neg (by omega)]
  | cons b rest ih =>
    rw [storeCells, ih, Std.ExtTreeMap.getElem?_insert]
    simp only [List.length_cons, Std.LawfulEqCmp.compare_eq_iff_eq]
    by_cases h : offset = i
    · subst h
      rw [if_neg (by omega), if_pos rfl, if_pos (by omega)]
      simp
    · rw [if_neg h]
      by_cases h' : offset + 1 ≤ i ∧ i < offset + 1 + rest.length
      · rw [if_pos h', if_pos (by omega), show i - offset = i - (offset + 1) + 1 by omega]
        simp
      · rw [if_neg h', if_neg (by omega)]

theorem byteAt_store (m : Memory) (offset i : Nat) (value : Bytes) :
    (m.store offset value).byteAt i =
      if offset ≤ i ∧ i < offset + value.length then (value[i - offset]?).getD 0
      else m.byteAt i := by
  rw [byteAt, store, getElem?_storeCells]
  split <;> rfl

@[simp] theorem length_resize (m : Memory) (target : Nat) :
    (m.resize target).length = max m.length target := rfl

@[simp] theorem length_read (m : Memory) (offset size : Nat) :
    (m.read offset size).length = size := by simp [read]

end Memory

end ExecState
