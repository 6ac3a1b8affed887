import ExecState.Hash.Keccak

/-!
# Digests by rows

The permutation is stated over a vector that is read by coordinates, so a lane is looked up anew in
every term that mentions it. Here the same five steps act on five rows of five lanes, each with a
name of its own. Every step on the rows is the one on the vector, and with it the digest, which can
so be worked out for a message that is written down.
-/

namespace ExecState.Keccak

/-- The five lanes of a row. -/
structure Row where
  (a b c d e : UInt64)

/-- The lanes of a state by their rows. -/
structure Grid where
  (p q r s t : Row)

namespace Row

def xor (x y : Row) : Row := ⟨x.a ^^^ y.a, x.b ^^^ y.b, x.c ^^^ y.c, x.d ^^^ y.d, x.e ^^^ y.e⟩

def chi (x : Row) : Row :=
  ⟨x.a ^^^ (~~~x.b &&& x.c), x.b ^^^ (~~~x.c &&& x.d), x.c ^^^ (~~~x.d &&& x.e),
    x.d ^^^ (~~~x.e &&& x.a), x.e ^^^ (~~~x.a &&& x.b)⟩

/-- What the parities of the five columns add to each lane of a row. -/
def mix (x : Row) : Row :=
  ⟨x.e ^^^ rotate x.b 1, x.a ^^^ rotate x.c 1, x.b ^^^ rotate x.d 1, x.c ^^^ rotate x.e 1,
    x.d ^^^ rotate x.a 1⟩

end Row

namespace Grid

/-- The state that the rows make up. -/
def lanes (g : Grid) : Lanes := #v[
  g.p.a, g.p.b, g.p.c, g.p.d, g.p.e,
  g.q.a, g.q.b, g.q.c, g.q.d, g.q.e,
  g.r.a, g.r.b, g.r.c, g.r.d, g.r.e,
  g.s.a, g.s.b, g.s.c, g.s.d, g.s.e,
  g.t.a, g.t.b, g.t.c, g.t.d, g.t.e]

def ofFn (f : Nat → Nat → UInt64) : Grid :=
  ⟨⟨f 0 0, f 1 0, f 2 0, f 3 0, f 4 0⟩, ⟨f 0 1, f 1 1, f 2 1, f 3 1, f 4 1⟩,
    ⟨f 0 2, f 1 2, f 2 2, f 3 2, f 4 2⟩, ⟨f 0 3, f 1 3, f 2 3, f 3 3, f 4 3⟩,
    ⟨f 0 4, f 1 4, f 2 4, f 3 4, f 4 4⟩⟩

theorem ofFn_eq_lanes (f : Fin 25 → UInt64) :
    Vector.ofFn f = (ofFn fun x y ↦ f (Fin.ofNat 25 (x + 5 * y))).lanes := by
  apply Vector.toList_inj.mp
  rw [Vector.toList_ofFn]
  rfl

theorem ofLanes_eq_lanes (f : Nat → Nat → UInt64) : ofLanes f = (ofFn f).lanes := by
  rw [ofLanes, ofFn_eq_lanes]
  rfl

theorem ofFn_five (f : Fin 5 → UInt64) : Vector.ofFn f = #v[f 0, f 1, f 2, f 3, f 4] := rfl

/-! ## The permutation -/

def xor (g h : Grid) : Grid :=
  ⟨g.p.xor h.p, g.q.xor h.q, g.r.xor h.r, g.s.xor h.s, g.t.xor h.t⟩

def theta (g : Grid) : Grid :=
  let d := ((((g.p.xor g.q).xor g.r).xor g.s).xor g.t).mix
  g.xor ⟨d, d, d, d, d⟩

def rhoPi (g : Grid) : Grid :=
  ⟨⟨g.p.a, rotate g.q.b 44, rotate g.r.c 43, rotate g.s.d 21, rotate g.t.e 14⟩,
    ⟨rotate g.p.d 28, rotate g.q.e 20, rotate g.r.a 3, rotate g.s.b 45, rotate g.t.c 61⟩,
    ⟨rotate g.p.b 1, rotate g.q.c 6, rotate g.r.d 25, rotate g.s.e 8, rotate g.t.a 18⟩,
    ⟨rotate g.p.e 27, rotate g.q.a 36, rotate g.r.b 10, rotate g.s.c 15, rotate g.t.d 56⟩,
    ⟨rotate g.p.c 62, rotate g.q.d 55, rotate g.r.e 39, rotate g.s.a 41, rotate g.t.b 2⟩⟩

def chi (g : Grid) : Grid := ⟨g.p.chi, g.q.chi, g.r.chi, g.s.chi, g.t.chi⟩

def round (g : Grid) (constant : UInt64) : Grid :=
  let h := g.theta.rhoPi.chi
  { h with p := { h.p with a := h.p.a ^^^ constant } }

def permute (g : Grid) : Grid := roundConstants.foldl round g

theorem theta_lanes (g : Grid) : Keccak.theta g.lanes = g.theta.lanes := by
  rw [Keccak.theta, ofFn_five, ofFn_five, ofLanes_eq_lanes]
  rfl

theorem rhoPi_lanes (g : Grid) : Keccak.rhoPi g.lanes = g.rhoPi.lanes := by
  rw [Keccak.rhoPi, ofLanes_eq_lanes]
  rfl

theorem chi_lanes (g : Grid) : Keccak.chi g.lanes = g.chi.lanes := by
  rw [Keccak.chi, ofLanes_eq_lanes]
  rfl

theorem round_lanes (g : Grid) (constant : UInt64) :
    Keccak.round g.lanes constant = (g.round constant).lanes := by
  rw [Keccak.round, theta_lanes, rhoPi_lanes, chi_lanes]
  rfl

theorem permute_lanes (g : Grid) : Keccak.permute g.lanes = g.permute.lanes := by
  rw [Keccak.permute, permute]
  -- on the constants that are left, and not on the twenty-four of the permutation
  generalize roundConstants = constants
  induction constants generalizing g with
  | nil => rfl
  | cons constant constants ih => rw [List.foldl_cons, List.foldl_cons, round_lanes, ih]

/-! ## The sponge -/

def zero : Grid :=
  ⟨⟨0, 0, 0, 0, 0⟩, ⟨0, 0, 0, 0, 0⟩, ⟨0, 0, 0, 0, 0⟩, ⟨0, 0, 0, 0, 0⟩, ⟨0, 0, 0, 0, 0⟩⟩

theorem lanes_zero : zero.lanes = Vector.replicate 25 0 := rfl

def absorbBlock (g : Grid) (block : Bytes) : Grid :=
  let words := (lanesOfBytes (rate / 8) block).toArray
  (g.xor (ofFn fun x y ↦ words.getD (x + 5 * y) 0)).permute

def absorb : (blocks : Nat) → Bytes → Grid → Grid
  | 0, _, g => g
  | blocks + 1, b, g => absorb blocks (b.drop rate) (g.absorbBlock (b.take rate))

theorem absorbBlock_lanes (g : Grid) (block : Bytes) :
    Keccak.absorbBlock g.lanes block = (g.absorbBlock block).lanes := by
  rw [Keccak.absorbBlock, absorbBlock, ← permute_lanes]
  -- whatever the words of the block are
  generalize (lanesOfBytes (rate / 8) block).toArray = words
  rw [ofFn_eq_lanes]
  rfl

theorem absorb_lanes (blocks : Nat) (b : Bytes) (g : Grid) :
    Keccak.absorb blocks b g.lanes = (absorb blocks b g).lanes := by
  induction blocks generalizing b g with
  | zero => rfl
  | succ blocks ih => rw [Keccak.absorb, absorbBlock_lanes, ih, absorb]

def hash (message : Bytes) : Word :=
  let g := absorb (message.length / rate + 1) (message ++ padding message.length) zero
  ⟨laneBytes g.p.a ++ laneBytes g.p.b ++ laneBytes g.p.c ++ laneBytes g.p.d, by simp [laneBytes]⟩

/-- **The digest by rows.** -/
theorem hash_eq (message : Bytes) : Keccak.hash message = hash message := by
  apply FixedBytes.bytes_injective
  rw [Keccak.hash]
  simp only [← lanes_zero, absorb_lanes]
  rfl

end Grid

end ExecState.Keccak
