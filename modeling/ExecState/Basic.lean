/-!
# Outcomes and byte strings

The vocabulary of the whole library: what an operation that may fail leaves behind, and the byte
strings that everything here is made of.
-/

namespace ExecState

/-!
## Outcomes

An operation on a state may fail, and whoever called it goes on with the state that it left
behind. So an operation yields both: its answer, or the cause why there is none, and the state
afterwards. That a failure leaves the state as it was is then something to be proved of an
operation, not something that its type says.
-/

/-- An answer or a cause of failure, beside the state that is left behind. -/
abbrev Outcome (ε α σ : Type) := Except ε α × σ

namespace Outcome

variable {ε α σ : Type}

/-- The outcome of an operation that succeeds. -/
def done (a : α) (s : σ) : Outcome ε α σ := (.ok a, s)

def failed (e : ε) (s : σ) : Outcome ε α σ := (.error e, s)

@[simp] theorem fst_done (a : α) (s : σ) : (done a s : Outcome ε α σ).1 = .ok a := rfl
@[simp] theorem snd_done (a : α) (s : σ) : (done a s : Outcome ε α σ).2 = s := rfl
@[simp] theorem fst_failed (e : ε) (s : σ) : (failed e s : Outcome ε α σ).1 = .error e := rfl
@[simp] theorem snd_failed (e : ε) (s : σ) : (failed e s : Outcome ε α σ).2 = s := rfl

end Outcome

/-- Two operations one after the other answer exactly if each of them does. -/
theorem bind_eq_ok_iff {ε α β : Type} {x : Except ε α} {f : α → Except ε β} {b : β} :
    x >>= f = .ok b ↔ ∃ a, x = .ok a ∧ f a = .ok b := by
  cases x with
  | error e => exact ⟨fun h ↦ (by cases h), fun ⟨_, h, _⟩ ↦ (by cases h)⟩
  | ok a =>
    refine ⟨fun h ↦ ⟨a, rfl, h⟩, fun ⟨a', ha, h⟩ ↦ ?_⟩
    cases ha
    exact h

/-!
## Byte strings

Everything that is hashed, stored or encoded is a list of bytes. Addresses and words are byte
strings of a fixed length, ordered as the big-endian numbers they denote, which for byte strings
of one length is the lexicographic order.

Numbers and byte strings meet in two functions: `Bytes.toNat` reads a byte string as a big-endian
number, and `Bytes.ofNat` writes a number with no leading zero byte.
-/

/-- A string of bytes. -/
abbrev Bytes := List UInt8

/-- The greatest size of a byte string that a machine of 64 bits can address. The functions of
this library know no such bound; where a size comes from outside, it is compared with this one. -/
def Bytes.greatestSize : Nat := 0x7fffffffffffffff

instance : Std.TransOrd Bytes := inferInstance

instance : Std.LawfulEqOrd Bytes := inferInstance

instance : LawfulBEq Bytes := inferInstance

/-- A byte string of exactly `n` bytes. -/
structure FixedBytes (n : Nat) where
  bytes : Bytes
  length_eq : bytes.length = n
deriving DecidableEq

/-- The 20-byte name of an account. -/
abbrev Address := FixedBytes 20

/-- A 32-byte word: a storage key, a digest or a log topic. -/
abbrev Word := FixedBytes 32

/-! ### Big-endian numbers -/

namespace Bytes

/-- The big-endian number that a byte string denotes. -/
def toNat (b : Bytes) : Nat := b.foldl (fun n d ↦ n * 256 + d.toNat) 0

/-- The big-endian bytes of a number, without leading zeros. -/
def ofNat (n : Nat) : Bytes :=
  if n = 0 then [] else ofNat (n / 256) ++ [UInt8.ofNat n]

@[simp] theorem ofNat_zero : ofNat 0 = [] := by rw [ofNat]; simp

theorem toNat_append_singleton (b : Bytes) (d : UInt8) :
    toNat (b ++ [d]) = toNat b * 256 + d.toNat := by
  simp [toNat]

theorem toNat_ofNat (n : Nat) : toNat (ofNat n) = n := by
  fun_induction ofNat n with
  | case1 => rfl
  | case2 n _ ih =>
    rw [toNat_append_singleton, ih, UInt8.toNat_ofNat']
    omega

end Bytes

/-! ### Byte strings of a fixed length -/

namespace FixedBytes

variable {n : Nat}

theorem bytes_injective {a b : FixedBytes n} (h : a.bytes = b.bytes) : a = b := by
  cases a; cases b; simp_all

theorem ext_iff {a b : FixedBytes n} : a = b ↔ a.bytes = b.bytes :=
  ⟨fun h ↦ h ▸ rfl, bytes_injective⟩

instance : Ord (FixedBytes n) := ⟨compareOn FixedBytes.bytes⟩

instance : Std.TransOrd (FixedBytes n) :=
  inferInstanceAs (Std.TransCmp (compareOn FixedBytes.bytes))

instance : Std.LawfulEqOrd (FixedBytes n) where
  eq_of_compare {a b} h := by
    have h' : compare a.bytes b.bytes = .eq := h
    exact bytes_injective (Std.LawfulEqCmp.eq_of_compare h')

instance : Std.TransOrd Address := inferInstance

instance : Std.LawfulEqOrd Address := inferInstance

instance : Std.TransOrd Word := inferInstance

instance : Std.LawfulEqOrd Word := inferInstance

def zero : FixedBytes n := ⟨List.replicate n 0, List.length_replicate⟩

instance : Inhabited (FixedBytes n) := ⟨zero⟩

/-- A byte string of the right length; any other has none. -/
def ofBytes? (n : Nat) (b : Bytes) : Option (FixedBytes n) :=
  if h : b.length = n then some ⟨b, h⟩ else none

/-- A byte string of at most `n` bytes, filled up with zeros on the left. -/
def leftPad (n : Nat) (b : Bytes) (h : b.length ≤ n) : FixedBytes n :=
  ⟨List.replicate (n - b.length) 0 ++ b, by simp; omega⟩

end FixedBytes

end ExecState
