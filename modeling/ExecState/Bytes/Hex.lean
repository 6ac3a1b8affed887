import ExecState.Basic
import ExecState.Text.Characters

/-!
# Hexadecimal text

`Hex.encode` writes two lower-case digits for every byte. `Hex.decode` is more liberal: blanks
around the text and one mark `0x` or `0X` are dropped, either letter case is read, an odd number
of digits is completed by a leading zero, and in a pair of characters a plus sign may stand for
the first digit.
-/

namespace ExecState.Hex

/-! ## Digits -/

/-- The lower-case digit of a number below sixteen. -/
def digitChar (n : Nat) : Char :=
  if n < 10 then Char.ofNat (n + 48) else Char.ofNat (n + 87)

/-- The number that a digit of either case stands for. -/
def digitValue? (c : Char) : Option Nat :=
  if '0' ≤ c ∧ c ≤ '9' then some (c.toNat - 48)
  else if 'a' ≤ c ∧ c ≤ 'f' then some (c.toNat - 87)
  else if 'A' ≤ c ∧ c ≤ 'F' then some (c.toNat - 55)
  else none

theorem digitValue?_digitChar {n : Nat} (h : n < 16) : digitValue? (digitChar n) = some n := by
  have key : ∀ i : Fin 16, digitValue? (digitChar i.val) = some i.val := by decide
  exact key ⟨n, h⟩

theorem toNat_sub_lt {c last : Char} {base : Nat} (hlast : last.toNat < base + 16)
    (hc : c ≤ last) : c.toNat - base < 16 := by
  have hle : c.toNat ≤ last.toNat := UInt32.le_iff_toNat_le.mp hc
  omega

theorem digitValue?_lt {c : Char} {n : Nat} (h : digitValue? c = some n) : n < 16 := by
  rw [digitValue?] at h
  by_cases hdecimal : '0' ≤ c ∧ c ≤ '9'
  · rw [if_pos hdecimal] at h
    exact Option.some.inj h ▸ toNat_sub_lt (by decide) hdecimal.2
  · rw [if_neg hdecimal] at h
    by_cases hlower : 'a' ≤ c ∧ c ≤ 'f'
    · rw [if_pos hlower] at h
      exact Option.some.inj h ▸ toNat_sub_lt (by decide) hlower.2
    · rw [if_neg hlower] at h
      by_cases hupper : 'A' ≤ c ∧ c ≤ 'F'
      · rw [if_pos hupper] at h
        exact Option.some.inj h ▸ toNat_sub_lt (by decide) hupper.2
      · rw [if_neg hupper] at h
        cases h

/-! ## Writing -/

def byteDigits (b : UInt8) : List Char := [digitChar (b.toNat / 16), digitChar (b.toNat % 16)]

/-- The digits of a byte string, two for each byte. -/
def digits (b : Bytes) : List Char := b.flatMap byteDigits

/-- A byte string as lower-case digits. -/
def encode (b : Bytes) : String := String.ofList (digits b)

/-- A byte string as lower-case digits after the mark `0x`. -/
def encodeMarked (b : Bytes) : String := "0x" ++ encode b

/-! ## Reading -/

/-- Why a text is no byte string. -/
inductive ReadError
  /-- The text, completed to an even length, has a character that is no digit. -/
  | invalid (text : String)
  /-- The text denotes more bytes than fit. -/
  | tooLong (length width : Nat)
  /-- More bytes are to be put in front than a byte string can have. -/
  | tooWide (width : Nat)
deriving DecidableEq

def ReadError.message : ReadError → String
  | .invalid text => "invalid hex string: " ++ text
  | .tooLong length width =>
    "hex value is " ++ Nat.repr length ++ " bytes, expected at most " ++ Nat.repr width
  | .tooWide width => "no byte string has " ++ Nat.repr width ++ " bytes"

/-- A text without its mark `0x` or `0X`. -/
def dropMark : List Char → List Char
  | '0' :: 'x' :: r => r
  | '0' :: 'X' :: r => r
  | cs => cs

/-- The byte that two characters denote: two digits, or a plus sign and a digit. -/
def pairValue? (a b : Char) : Option UInt8 :=
  if a = '+' then (digitValue? b).map UInt8.ofNat
  else (digitValue? a).bind fun x ↦ (digitValue? b).map fun y ↦ UInt8.ofNat (x * 16 + y)

def pairs? : List Char → Option Bytes
  | [] => some []
  | [_] => none
  | a :: b :: r => (pairValue? a b).bind fun x ↦ (pairs? r).map (x :: ·)

def utf8Length (cs : List Char) : Nat := cs.foldr (fun c n ↦ c.utf8Size + n) 0

/-- A text of odd length takes a leading zero. -/
def completePairs (cs : List Char) : List Char :=
  if utf8Length cs % 2 = 1 then '0' :: cs else cs

def decode (text : String) : Except ReadError Bytes :=
  let body := completePairs (dropMark (Text.trim text.toList))
  match pairs? body with
  | some b => .ok b
  | none => .error (.invalid (String.ofList body))

/-- The byte string of `width` bytes that a text denotes, filled up with zeros on the left. -/
def decodePadded (width : Nat) (text : String) : Except ReadError (FixedBytes width) :=
  match decode text with
  | .error e => .error e
  | .ok b =>
    if h : b.length ≤ width then
      if width - b.length ≤ Bytes.greatestSize then .ok (FixedBytes.leftPad width b h)
      else .error (.tooWide width)
    else .error (.tooLong b.length width)

/-! ## What is written reads back -/

theorem pairValue?_byteDigits (b : UInt8) :
    pairValue? (digitChar (b.toNat / 16)) (digitChar (b.toNat % 16)) = some b := by
  have hb := b.toNat_lt
  have key : ∀ i : Fin 16, digitChar i.val ≠ '+' := by decide
  have hplus : digitChar (b.toNat / 16) ≠ '+' := key ⟨b.toNat / 16, by omega⟩
  have hval : b.toNat / 16 * 16 + b.toNat % 16 = b.toNat := by omega
  rw [pairValue?, if_neg hplus, digitValue?_digitChar (show b.toNat / 16 < 16 by omega),
    digitValue?_digitChar (show b.toNat % 16 < 16 by omega)]
  simp only [Option.bind_some, Option.map_some, hval, UInt8.ofNat_toNat]

theorem pairs?_digits (b : Bytes) : pairs? (digits b) = some b := by
  induction b with
  | nil => rfl
  | cons x r ih =>
    rw [digits, List.flatMap_cons, ← digits]
    simp [byteDigits, pairs?, pairValue?_byteDigits, ih]

end ExecState.Hex
