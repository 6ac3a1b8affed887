import ExecState.Bytes.Hex

/-!
# Numerals

Numbers reach the library as text. Machine numbers and numbers of 256 bits have readers of their
own, which differ in what they skip and in the place at which a number too large is noticed.
-/

namespace ExecState

/-!
## Reading unsigned machine numbers

The plain numerals of settings and flags: one plus sign may stand in front, every other
character is a digit of the radix, and the number lies below a bound. Digits are read from the
left. A character that is no digit counts as the fault even where its place is already past the
bound; a number that passes the bound earlier ends the reading there.
-/

/-- Why a text is no unsigned number below the bound. -/
inductive UnsignedError
  /-- There is no text at all. -/
  | empty
  /-- A character is no digit. -/
  | invalidDigit
  /-- The number reaches the bound. -/
  | tooLarge
deriving DecidableEq

/-- The wording of a fault in an unsigned number. -/
def UnsignedError.message : UnsignedError → String
  | .empty => "cannot parse integer from empty string"
  | .invalidDigit => "invalid digit found in string"
  | .tooLarge => "number too large to fit in target type"

namespace Unsigned

/-- The number that a character stands for as a digit of the radix. -/
def digit? (radix : Nat) (c : Char) : Option Nat :=
  let d :=
    if '0' ≤ c ∧ c ≤ '9' then c.toNat - 48
    else if 'a' ≤ c ∧ c ≤ 'z' then c.toNat - 87
    else if 'A' ≤ c ∧ c ≤ 'Z' then c.toNat - 55
    else radix
  if d < radix then some d else none

/-- Appends digits to a value below the bound. -/
def digits (radix bound : Nat) : List Char → (value : Nat) → Except UnsignedError Nat
  | [], value => .ok value
  | c :: rest, value =>
    match digit? radix c with
    | none => .error .invalidDigit
    | some d =>
      let value' := value * radix + d
      if value' < bound then digits radix bound rest value' else .error .tooLarge

/-- The number below the bound that a text denotes in the radix. -/
def read (radix bound : Nat) : List Char → Except UnsignedError Nat
  | [] => .error .empty
  | ['+'] => .error .invalidDigit
  | '+' :: rest => digits radix bound rest 0
  | cs => digits radix bound cs 0

/-- The 64-bit number that a decimal text denotes. -/
def readUInt64 (text : String) : Except UnsignedError UInt64 :=
  (read 10 UInt64.size text.toList).map UInt64.ofNat

/-- The byte that a hexadecimal text denotes. -/
def readHexByte (cs : List Char) : Except UnsignedError UInt8 :=
  (read 16 UInt8.size cs).map UInt8.ofNat

end Unsigned

/-!
## Numbers of 256 bits

Balances, nonces, refunds and stack operands are numbers of 256 bits. No operation wraps: a sum or
difference that does not fit either has no value (`add?`, `sub?`) or stops at the largest number
(`addSaturating`).
-/

/-- A number of 256 bits. -/
abbrev U256 := BitVec 256

namespace U256

/-- The number of these numbers, two to the power of 256. -/
abbrev size : Nat := 0x10000000000000000000000000000000000000000000000000000000000000000

def add? (a b : U256) : Option U256 :=
  if a.toNat + b.toNat < size then some (a + b) else none

/-- The difference, if it is not negative. -/
def sub? (a b : U256) : Option U256 :=
  if b.toNat ≤ a.toNat then some (a - b) else none

/-- The sum, or the largest number where the sum does not fit. -/
def addSaturating (a b : U256) : U256 := (add? a b).getD (BitVec.allOnes 256)

theorem toNat_lt_size (a : U256) : a.toNat < size := a.isLt

theorem add?_eq_some_iff {a b c : U256} : add? a b = some c ↔ c.toNat = a.toNat + b.toNat := by
  have hc := toNat_lt_size c
  rw [add?]
  split
  · rename_i h
    rw [Option.some_inj, ← BitVec.toNat_inj, BitVec.toNat_add, Nat.mod_eq_of_lt h, eq_comm]
  · simp only [reduceCtorEq, false_iff]
    omega

theorem add?_eq_none_iff {a b : U256} : add? a b = none ↔ size ≤ a.toNat + b.toNat := by
  rw [add?]
  split
  · simp only [reduceCtorEq, false_iff]; omega
  · simp only [true_iff]; omega

theorem sub?_eq_some_iff {a b c : U256} :
    sub? a b = some c ↔ b.toNat ≤ a.toNat ∧ c.toNat = a.toNat - b.toNat := by
  rw [sub?]
  split
  · rename_i h
    rw [Option.some_inj, ← BitVec.toNat_inj, BitVec.toNat_sub_of_le (BitVec.le_def.2 h), eq_comm]
    simp [h]
  · rename_i h
    simp [h]

theorem sub?_eq_none_iff {a b : U256} : sub? a b = none ↔ a.toNat < b.toNat := by
  rw [sub?]
  split
  · simp only [reduceCtorEq, false_iff]; omega
  · simp only [true_iff]; omega

theorem toNat_addSaturating (a b : U256) :
    (addSaturating a b).toNat = min (a.toNat + b.toNat) (size - 1) := by
  rw [addSaturating]
  cases h : add? a b with
  | none =>
    rw [add?_eq_none_iff] at h
    simp only [Option.getD_none, BitVec.toNat_allOnes, size] at h ⊢
    omega
  | some c =>
    rw [add?_eq_some_iff] at h
    have := toNat_lt_size c
    simp only [Option.getD_some]
    omega

/-! ### Text and bytes -/

def decimal (v : U256) : String := Nat.repr v.toNat

/-- The hexadecimal numeral after the mark `0x`, without leading zeros. -/
def hexadecimal (v : U256) : String := "0x" ++ String.ofList (Nat.toDigits 16 v.toNat)

/-- The big-endian bytes, without leading zeros. -/
def trimmedBytes (v : U256) : Bytes := Bytes.ofNat v.toNat

end U256

end ExecState

namespace ExecState

/-!
## Reading numerals of 256 bits

A numeral is read from the bytes of its UTF-8 text. Underscores are skipped, the empty text
denotes zero, and reading stops at the first fault. Which fault is the first depends on the
radix: hexadecimal text is read from its last byte, so that every digit is weighed at once, and
decimal text from its first byte in groups of nineteen digits, so that a number too large is
noticed only where a group ends.
-/

/-- Why a text is no number below `2 ^ 256`. -/
inductive NumeralError
  /-- A byte of the text is no digit of the radix. -/
  | invalidDigit (byte : UInt8)
  /-- The digits denote `2 ^ 256` or more. -/
  | tooLarge
deriving DecidableEq

/-- The wording of a fault in a numeral; a byte is shown as the character of its number. -/
def NumeralError.message : NumeralError → String
  | .invalidDigit byte => "invalid digit: " ++ String.singleton (Char.ofNat byte.toNat)
  | .tooLarge => "the value is too large to fit the target type"

namespace Numeral

def utf8 (cs : List Char) : Bytes := cs.flatMap String.utf8EncodeChar

/-- The number that a byte stands for as a digit, letters of either case following nine. -/
def digit? (radix : Nat) (byte : UInt8) : Option Nat :=
  let c := byte.toNat
  let d :=
    if 48 ≤ c ∧ c ≤ 57 then c - 48
    else if 97 ≤ c ∧ c ≤ 122 then c - 87
    else if 65 ≤ c ∧ c ≤ 90 then c - 55
    else radix
  if d < radix then some d else none

/-- The byte of the underscore, which separates digits. -/
def separator : UInt8 := 95

/-- A number of 256 bits, or the fault that there is none. -/
def fit (n : Nat) : Except NumeralError U256 :=
  if n < U256.size then .ok (BitVec.ofNat 256 n) else .error .tooLarge

/-- Adds the digits of a text, given from its last byte, to a value; `place` counts the digits
that came before. -/
def hexDigits : Bytes → (place value : Nat) → Except NumeralError U256
  | [], _, value => fit value
  | byte :: rest, place, value =>
    if byte = separator then hexDigits rest place value
    else match digit? 16 byte with
      | none => .error (.invalidDigit byte)
      | some d =>
        let value' := value + d * Nat.pow 16 place
        if value' < U256.size then hexDigits rest (place + 1) value' else .error .tooLarge

/-- How many decimal digits are gathered before they are added to the value. -/
def groupSize : Nat := 19

/-- Appends the digits of a text to a value; `group` holds the `count` digits that are gathered
and not yet added. -/
def decimalDigits : Bytes → (value group count : Nat) → Except NumeralError U256
  | [], value, group, count => fit (value * Nat.pow 10 count + group)
  | byte :: rest, value, group, count =>
    if byte = separator then decimalDigits rest value group count
    else match digit? 10 byte with
      | none => .error (.invalidDigit byte)
      | some d =>
        let group' := group * 10 + d
        if count + 1 < groupSize then decimalDigits rest value group' (count + 1)
        else
          let value' := value * Nat.pow 10 groupSize + group'
          if value' < U256.size then decimalDigits rest value' 0 0 else .error .tooLarge

/-- The number that a hexadecimal text without mark denotes. -/
def readHex (cs : List Char) : Except NumeralError U256 := hexDigits (utf8 cs).reverse 0 0

def readDecimal (cs : List Char) : Except NumeralError U256 := decimalDigits (utf8 cs) 0 0 0

end Numeral

end ExecState
