import ExecState.Numeral.Quantity

/-!
# Recursive length prefix

An item is a number, a byte string or a list of items, and has one encoding as a byte string. A
number is encoded as its big-endian bytes without leading zeros. A single byte below `0x80`
stands for itself; every other string and every list follows a header that tells the length of
its payload.

The header of a list has to be written before its payload, so `Item.length` foretells how many
bytes `Item.encode` will write.
-/

namespace ExecState.Rlp

/-- What can be encoded. -/
inductive Item
  | uint (value : U256)
  | bytes (value : Bytes)
  | list (items : List Item)

/-- A word is encoded as the string of its bytes. -/
def Item.word (w : Word) : Item := .bytes w.bytes

/-! ## Headers -/

/-- The header of a payload. The short form adds the length to the base; the long form, for more
than 55 bytes, adds the number of bytes of the length to it and lets them follow. -/
def header (base : Nat) (length : Nat) : Bytes :=
  if length ≤ 55 then [UInt8.ofNat (base + length)]
  else
    let size := Bytes.ofNat length
    UInt8.ofNat (base + 55 + size.length) :: size

/-- The number of bytes of the header of a payload. -/
def headerLength (length : Nat) : Nat :=
  if length ≤ 55 then 1 else 1 + (Bytes.ofNat length).length

/-- Whether a byte string stands for itself. -/
def isBare : Bytes → Bool
  | [b] => b < 0x80
  | _ => false

def encodeBytes (b : Bytes) : Bytes := if isBare b then b else header 0x80 b.length ++ b

/-- The number of bytes of the encoding of a byte string. -/
def bytesLength (b : Bytes) : Nat :=
  if isBare b then 1 else headerLength b.length + b.length

/-! ## Items -/

mutual
/-- The number of bytes of the encoding of an item. -/
def Item.length : Item → Nat
  | .uint v => bytesLength v.trimmedBytes
  | .bytes b => bytesLength b
  | .list items =>
    let payload := payloadLength items
    payload + headerLength payload

/-- The number of bytes of the encodings of a row of items. -/
def payloadLength : List Item → Nat
  | [] => 0
  | item :: rest => item.length + payloadLength rest
end

mutual
def Item.encode : Item → Bytes
  | .uint v => encodeBytes v.trimmedBytes
  | .bytes b => encodeBytes b
  | .list items => header 0xc0 (payloadLength items) ++ encodeAll items

/-- The encodings of a row of items, one after the other. -/
def encodeAll : List Item → Bytes
  | [] => []
  | item :: rest => item.encode ++ encodeAll rest
end

/-- An item inside `n` lists of one element each. -/
def Item.nest (item : Item) : (n : Nat) → Item
  | 0 => item
  | n + 1 => .list [item.nest n]

end ExecState.Rlp
