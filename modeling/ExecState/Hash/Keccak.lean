import ExecState.Basic

/-!
# Keccak-256

The sponge over 25 lanes of 64 bits with a rate of 136 bytes, the padding `1 0* 1` and a digest
of 32 bytes. Lane `(x, y)` stands at position `x + 5 * y`, and a lane holds eight bytes of the
message, the first one lowest.
-/

namespace ExecState.Keccak

/-- The sponge's state. -/
abbrev Lanes := Vector UInt64 25

/-- The lane in column `x` and row `y`, both taken modulo five. -/
def lane (a : Lanes) (x y : Nat) : UInt64 := a[x % 5 + 5 * (y % 5)]

/-- The state whose lane in column `x` and row `y` is `f x y`. -/
def ofLanes (f : Nat → Nat → UInt64) : Lanes := Vector.ofFn fun i ↦ f (i.val % 5) (i.val / 5)

/-- A lane turned to the left by `n` bits, for `n < 64`. -/
def rotate (v : UInt64) (n : UInt64) : UInt64 := if n = 0 then v else v <<< n ||| v >>> (64 - n)

/-! ## The permutation -/

/-- How far each lane is turned. -/
def offsets : Vector UInt64 25 := #v[
  0, 1, 62, 28, 27,
  36, 44, 6, 55, 20,
  3, 10, 43, 25, 39,
  41, 45, 15, 21, 8,
  18, 2, 61, 56, 14]

def roundConstants : List UInt64 := [
  0x0000000000000001, 0x0000000000008082, 0x800000000000808a, 0x8000000080008000,
  0x000000000000808b, 0x0000000080000001, 0x8000000080008081, 0x8000000000008009,
  0x000000000000008a, 0x0000000000000088, 0x0000000080008009, 0x000000008000000a,
  0x000000008000808b, 0x800000000000008b, 0x8000000000008089, 0x8000000000008003,
  0x8000000000008002, 0x8000000000000080, 0x000000000000800a, 0x800000008000000a,
  0x8000000080008081, 0x8000000000008080, 0x0000000080000001, 0x8000000080008008]

/-- Every lane takes the parities of the two columns beside its own. -/
def theta (a : Lanes) : Lanes :=
  let parity : Vector UInt64 5 := Vector.ofFn fun x ↦
    lane a x 0 ^^^ lane a x 1 ^^^ lane a x 2 ^^^ lane a x 3 ^^^ lane a x 4
  let mix : Vector UInt64 5 := Vector.ofFn fun x ↦
    parity[(x.val + 4) % 5] ^^^ rotate parity[(x.val + 1) % 5] 1
  ofLanes fun x y ↦ lane a x y ^^^ mix[x % 5]

/-- Every lane is turned and moves to another place. -/
def rhoPi (a : Lanes) : Lanes :=
  ofLanes fun x y ↦ rotate (lane a (x + 3 * y) x) (lane offsets (x + 3 * y) x)

/-- Every lane takes from the two lanes after it in its row. -/
def chi (a : Lanes) : Lanes :=
  ofLanes fun x y ↦ lane a x y ^^^ (~~~ lane a (x + 1) y &&& lane a (x + 2) y)

def round (a : Lanes) (constant : UInt64) : Lanes :=
  let b := chi (rhoPi (theta a))
  b.set 0 (b[0] ^^^ constant)

def permute (a : Lanes) : Lanes := roundConstants.foldl round a

/-! ## The sponge -/

/-- The number of bytes that one permutation takes in. -/
def rate : Nat := 136

/-- The bytes that complete a message of the given length to a multiple of the rate. -/
def padding (length : Nat) : Bytes :=
  match rate - length % rate with
  | 1 => [0x81]
  | n => 0x01 :: (List.replicate (n - 2) 0 ++ [0x80])

def laneOfBytes (b : Bytes) : UInt64 := b.foldr (fun d v ↦ v <<< 8 ||| d.toUInt64) 0

def laneBytes (v : UInt64) : Bytes :=
  [v, v >>> 8, v >>> 16, v >>> 24, v >>> 32, v >>> 40, v >>> 48, v >>> 56].map UInt64.toUInt8

def lanesOfBytes : (count : Nat) → Bytes → List UInt64
  | 0, _ => []
  | count + 1, b => laneOfBytes (b.take 8) :: lanesOfBytes count (b.drop 8)

/-- The state after taking in one block of the message. -/
def absorbBlock (a : Lanes) (block : Bytes) : Lanes :=
  let words := (lanesOfBytes (rate / 8) block).toArray
  permute (Vector.ofFn fun i ↦ a[i] ^^^ words.getD i.val 0)

/-- The state after taking in the given number of blocks. -/
def absorb : (blocks : Nat) → Bytes → Lanes → Lanes
  | 0, _, a => a
  | blocks + 1, b, a => absorb blocks (b.drop rate) (absorbBlock a (b.take rate))

def hash (message : Bytes) : Word :=
  let length := message.length
  let a := absorb (length / rate + 1) (message ++ padding length) (Vector.replicate 25 0)
  ⟨laneBytes a[0] ++ laneBytes a[1] ++ laneBytes a[2] ++ laneBytes a[3], by simp [laneBytes]⟩

end ExecState.Keccak
