import ExecState.Rlp.Item
import Mathlib.Algebra.Group.Nat.Defs

/-!
# Where an encoding ends

The first bytes of an encoding tell how long it is, so an item can be told apart from whatever
follows it. `frame` reads that length off; it is the length of the encoding as long as the length
itself takes up eight bytes at most, which is what the header has room for.

Two encodings that begin one byte string are therefore equal (`encode_append_inj`). Whole byte
strings and whole lists are told apart without a bound on their size, since the length of an
encoding determines the length of its payload.
-/

namespace ExecState

/-! ## The number of big-endian bytes -/

namespace Bytes

theorem length_ofNat_of_ne_zero {n : Nat} (h : n ≠ 0) :
    (ofNat n).length = (ofNat (n / 256)).length + 1 := by
  rw [ofNat, if_neg h, List.length_append, List.length_singleton]

theorem length_ofNat_le {n k : Nat} (h : n < 256 ^ k) : (ofNat n).length ≤ k := by
  induction k generalizing n with
  | zero =>
    have hn : n = 0 := by simpa using h
    simp [hn]
  | succ k ih =>
    by_cases hn : n = 0
    · simp [hn]
    · have hdiv : n / 256 < 256 ^ k := by rw [Nat.pow_succ] at h; omega
      rw [length_ofNat_of_ne_zero hn]
      exact Nat.succ_le_succ (ih hdiv)

theorem length_ofNat_mono {m n : Nat} (h : m ≤ n) : (ofNat m).length ≤ (ofNat n).length := by
  induction m using Nat.strongRecOn generalizing n with
  | ind m ih =>
    by_cases hm : m = 0
    · simp [hm]
    · rw [length_ofNat_of_ne_zero hm, length_ofNat_of_ne_zero (n := n) (by omega)]
      exact Nat.succ_le_succ (ih (m / 256) (by omega) (by omega))

theorem ofNat_ne_nil {n : Nat} (h : n ≠ 0) : ofNat n ≠ [] := by
  rw [ofNat, if_neg h]
  simp

theorem ofNat_injective {m n : Nat} (h : ofNat m = ofNat n) : m = n := by
  rw [← toNat_ofNat m, h, toNat_ofNat]

end Bytes

namespace Rlp

/-! ## Lengths -/

theorem length_header (base n : Nat) : (header base n).length = headerLength n := by
  rw [header, headerLength]
  split
  · rfl
  · rw [List.length_cons, Nat.add_comm]

theorem headerLength_pos (n : Nat) : 1 ≤ headerLength n := by
  rw [headerLength]
  split <;> omega

theorem headerLength_mono {m n : Nat} (h : m ≤ n) : headerLength m ≤ headerLength n := by
  have := Bytes.length_ofNat_mono h
  rw [headerLength, headerLength]
  split <;> split <;> omega

theorem eq_of_headerLength_add_eq {m n : Nat} (h : headerLength m + m = headerLength n + n) :
    m = n := by
  -- headers grow with their payloads, so the sum grows strictly
  rcases Nat.lt_trichotomy m n with hlt | heq | hgt
  · have := headerLength_mono (Nat.le_of_lt hlt)
    omega
  · exact heq
  · have := headerLength_mono (Nat.le_of_lt hgt)
    omega

theorem isBare_iff {b : Bytes} : isBare b = true ↔ ∃ x : UInt8, b = [x] ∧ x < 0x80 := by
  match b with
  | [] => simp [isBare]
  | [x] => simp [isBare]
  | x :: y :: rest => simp [isBare]

theorem length_encodeBytes (b : Bytes) : (encodeBytes b).length = bytesLength b := by
  rw [encodeBytes, bytesLength]
  split
  · rename_i h
    obtain ⟨x, rfl, -⟩ := isBare_iff.mp h
    rfl
  · rw [List.length_append, length_header]

mutual
theorem length_encode : ∀ item : Item, item.encode.length = item.length
  | .uint v => by rw [Item.encode, Item.length, length_encodeBytes]
  | .bytes b => by rw [Item.encode, Item.length, length_encodeBytes]
  | .list items => by
    rw [Item.encode, Item.length, List.length_append, length_header, length_encodeAll items,
      Nat.add_comm]

theorem length_encodeAll : ∀ items : List Item, (encodeAll items).length = payloadLength items
  | [] => by rw [encodeAll, payloadLength, List.length_nil]
  | item :: rest => by
    rw [encodeAll, payloadLength, List.length_append, length_encode item, length_encodeAll rest]
end

theorem bytesLength_pos (b : Bytes) : 1 ≤ bytesLength b := by
  have := headerLength_pos b.length
  rw [bytesLength]
  split <;> omega

theorem length_le_bytesLength (b : Bytes) : b.length ≤ bytesLength b := by
  rw [bytesLength]
  split
  · rename_i h
    obtain ⟨x, rfl, -⟩ := isBare_iff.mp h
    simp
  · omega

theorem Item.length_pos (item : Item) : 1 ≤ item.length := by
  cases item with
  | uint v => exact bytesLength_pos _
  | bytes b => exact bytesLength_pos b
  | list items =>
    have := headerLength_pos (payloadLength items)
    rw [Item.length]
    omega

theorem encode_ne_nil (item : Item) : item.encode ≠ [] := by
  intro h
  have hlen := length_encode item
  have := item.length_pos
  rw [h, List.length_nil] at hlen
  omega

theorem encodeBytes_ne_nil (b : Bytes) : encodeBytes b ≠ [] := encode_ne_nil (.bytes b)

/-! ## Frames -/

/-- The number of bytes of the item at the front, as its first bytes tell it. -/
def frame : Bytes → Nat
  | [] => 0
  | b :: rest =>
    if b.toNat < 0x80 then 1
    else if b.toNat ≤ 0xb7 then 1 + (b.toNat - 0x80)
    else if b.toNat < 0xc0 then
      1 + (b.toNat - 0xb7) + Bytes.toNat (rest.take (b.toNat - 0xb7))
    else if b.toNat ≤ 0xf7 then 1 + (b.toNat - 0xc0)
    else 1 + (b.toNat - 0xf7) + Bytes.toNat (rest.take (b.toNat - 0xf7))

theorem frame_header_append {base n : Nat} (hbase : base = 0x80 ∨ base = 0xc0) (hn : n < 2 ^ 64)
    (x : Bytes) : frame (header base n ++ x) = headerLength n + n := by
  by_cases hshort : n ≤ 55
  · have hval : (UInt8.ofNat (base + n)).toNat = base + n := by
      rw [UInt8.toNat_ofNat']
      omega
    rw [header, headerLength, if_pos hshort, if_pos hshort, List.singleton_append, frame, hval]
    rcases hbase with rfl | rfl
    · rw [if_neg (by omega), if_pos (by omega)]
      omega
    · rw [if_neg (by omega), if_neg (by omega), if_neg (by omega), if_pos (by omega)]
      omega
  · -- the length is written with one to eight bytes, so the first byte tells how many follow
    have hle : (Bytes.ofNat n).length ≤ 8 := Bytes.length_ofNat_le (by omega)
    have hpos : 0 < (Bytes.ofNat n).length :=
      List.length_pos_iff.mpr (Bytes.ofNat_ne_nil (by omega))
    have hval : (UInt8.ofNat (base + 55 + (Bytes.ofNat n).length)).toNat
        = base + 55 + (Bytes.ofNat n).length := by
      rw [UInt8.toNat_ofNat']
      omega
    have htake : ((Bytes.ofNat n ++ x).take (Bytes.ofNat n).length) = Bytes.ofNat n := by
      rw [List.take_left]
    rw [header, headerLength, if_neg hshort, if_neg hshort, List.cons_append, frame, hval]
    rcases hbase with rfl | rfl
    · rw [if_neg (by omega), if_neg (by omega), if_pos (by omega),
        show 0x80 + 55 + (Bytes.ofNat n).length - 0xb7 = (Bytes.ofNat n).length by omega, htake,
        Bytes.toNat_ofNat]
    · rw [if_neg (by omega), if_neg (by omega), if_neg (by omega), if_neg (by omega),
        show 0xc0 + 55 + (Bytes.ofNat n).length - 0xf7 = (Bytes.ofNat n).length by omega, htake,
        Bytes.toNat_ofNat]

theorem frame_encodeBytes_append {b : Bytes} (hb : b.length < 2 ^ 64) (x : Bytes) :
    frame (encodeBytes b ++ x) = bytesLength b := by
  rw [encodeBytes, bytesLength]
  split
  · rename_i h
    obtain ⟨y, rfl, hy⟩ := isBare_iff.mp h
    have hlt : y.toNat < 0x80 := hy
    rw [List.singleton_append, frame, if_pos hlt]
  · rw [List.append_assoc, frame_header_append (Or.inl rfl) hb]

/-- **Frames.** What follows an encoding has no part in where it ends. -/
theorem frame_encode_append {item : Item} (h : item.length < 2 ^ 64) (x : Bytes) :
    frame (item.encode ++ x) = item.encode.length := by
  rw [length_encode]
  cases item with
  | uint v =>
    rw [Item.length] at h ⊢
    exact frame_encodeBytes_append (Nat.lt_of_le_of_lt (length_le_bytesLength _) h) x
  | bytes b =>
    rw [Item.length] at h ⊢
    exact frame_encodeBytes_append (Nat.lt_of_le_of_lt (length_le_bytesLength _) h) x
  | list items =>
    rw [Item.length] at h ⊢
    rw [Item.encode, List.append_assoc, frame_header_append (Or.inr rfl) (by omega), Nat.add_comm]

theorem encode_append_inj {a b : Item} {x y : Bytes} (ha : a.length < 2 ^ 64)
    (hb : b.length < 2 ^ 64) (h : a.encode ++ x = b.encode ++ y) :
    a.encode = b.encode ∧ x = y := by
  have hlen : a.encode.length = b.encode.length := by
    rw [← frame_encode_append ha x, h, frame_encode_append hb y]
  exact List.append_inj h hlen

theorem encodeBytes_append_inj {b c x y : Bytes} (hb : b.length < 2 ^ 64)
    (hc : c.length < 2 ^ 64) (h : encodeBytes b ++ x = encodeBytes c ++ y) :
    encodeBytes b = encodeBytes c ∧ x = y := by
  have hlen : (encodeBytes b).length = (encodeBytes c).length := by
    rw [length_encodeBytes, length_encodeBytes, ← frame_encodeBytes_append hb x, h,
      frame_encodeBytes_append hc y]
  exact List.append_inj h hlen

theorem map_encode_eq_of_encodeAll_eq {xs ys : List Item}
    (hxs : ∀ a ∈ xs, a.length < 2 ^ 64) (hys : ∀ b ∈ ys, b.length < 2 ^ 64)
    (h : encodeAll xs = encodeAll ys) : xs.map Item.encode = ys.map Item.encode := by
  -- item by item from the front; a row that ends first leaves an item that has no bytes
  induction xs generalizing ys with
  | nil =>
    cases ys with
    | nil => rfl
    | cons b ys =>
      rw [encodeAll, encodeAll] at h
      exact absurd (List.append_eq_nil_iff.mp h.symm).1 (encode_ne_nil b)
  | cons a xs ih =>
    cases ys with
    | nil =>
      rw [encodeAll, encodeAll] at h
      exact absurd (List.append_eq_nil_iff.mp h).1 (encode_ne_nil a)
    | cons b ys =>
      rw [encodeAll, encodeAll] at h
      obtain ⟨hab, hrest⟩ := encode_append_inj (hxs a List.mem_cons_self)
        (hys b List.mem_cons_self) h
      rw [List.map_cons, List.map_cons, hab, ih (fun x hx ↦ hxs x (List.mem_cons_of_mem a hx))
        (fun y hy ↦ hys y (List.mem_cons_of_mem b hy)) hrest]

/-! ## Whole byte strings and whole lists -/

/-- A byte string that stands for itself is no other string's encoding. -/
private theorem ne_header_append {b c : Bytes} (hb : isBare b = true) :
    b ≠ header 0x80 c.length ++ c := by
  obtain ⟨x, rfl, hx⟩ := isBare_iff.mp hb
  intro h
  have hlen := congrArg List.length h
  rw [List.length_singleton, List.length_append, length_header] at hlen
  have hpos := headerLength_pos c.length
  have hc : c = [] := List.eq_nil_of_length_eq_zero (by omega)
  subst hc
  simp only [header, List.length_nil, Nat.zero_le, if_true, List.append_nil, List.cons.injEq,
    and_true] at h
  rw [h] at hx
  exact absurd hx (by decide)

theorem encodeBytes_injective {b c : Bytes} (h : encodeBytes b = encodeBytes c) : b = c := by
  rw [encodeBytes, encodeBytes] at h
  -- strings that stand for themselves are told apart from those after a header
  split at h
  · rename_i hb
    split at h
    · exact h
    · exact absurd h (ne_header_append hb)
  · split at h
    · rename_i hc
      exact absurd h.symm (ne_header_append hc)
    · have hlen := congrArg List.length h
      rw [List.length_append, List.length_append, length_header, length_header] at hlen
      rw [eq_of_headerLength_add_eq hlen] at h
      exact List.append_cancel_left h

theorem encodeAll_eq_of_encode_list_eq {xs ys : List Item}
    (h : (Item.list xs).encode = (Item.list ys).encode) : encodeAll xs = encodeAll ys := by
  have hlen := congrArg List.length h
  rw [length_encode, length_encode, Item.length, Item.length] at hlen
  rw [Item.encode, Item.encode, eq_of_headerLength_add_eq (m := payloadLength xs)
    (n := payloadLength ys) (by omega)] at h
  exact List.append_cancel_left h

theorem length_le_payloadLength {a : Item} {xs : List Item} (h : a ∈ xs) :
    a.length ≤ payloadLength xs := by
  induction xs with
  | nil => simp at h
  | cons b xs ih =>
    rw [payloadLength]
    rcases List.mem_cons.mp h with rfl | h
    · omega
    · have := ih h
      omega

theorem length_encode_le_of_mem {a : Item} {xs : List Item} (h : a ∈ xs) :
    a.encode.length ≤ (Item.list xs).encode.length := by
  rw [length_encode, length_encode, Item.length]
  exact Nat.le_trans (length_le_payloadLength h) (Nat.le_add_right _ _)

theorem payloadLength_le {k : Nat} {xs : List Item} (h : ∀ a ∈ xs, a.length ≤ k) :
    payloadLength xs ≤ xs.length * k := by
  induction xs with
  | nil => simp [payloadLength]
  | cons a xs ih =>
    have ha := h a List.mem_cons_self
    have hxs := ih fun b hb ↦ h b (List.mem_cons_of_mem a hb)
    rw [payloadLength, List.length_cons, Nat.succ_mul]
    omega

/-- **Lists with one encoding** agree item by item, if one of them is not too large. -/
theorem map_encode_eq_of_encode_list_eq {xs ys : List Item} (hys : payloadLength ys < 2 ^ 64)
    (h : (Item.list xs).encode = (Item.list ys).encode) :
    xs.map Item.encode = ys.map Item.encode := by
  have hall := encodeAll_eq_of_encode_list_eq h
  have hxs : payloadLength xs = payloadLength ys := by
    rw [← length_encodeAll, hall, length_encodeAll]
  exact map_encode_eq_of_encodeAll_eq
    (fun a ha ↦ Nat.lt_of_le_of_lt (length_le_payloadLength ha) (hxs ▸ hys))
    (fun b hb ↦ Nat.lt_of_le_of_lt (length_le_payloadLength hb) hys) hall

theorem encode_list_ne (xs : List Item) : (Item.list xs).encode ≠ encodeBytes [] := by
  intro h
  have hlen := congrArg List.length h
  have hpos := headerLength_pos (payloadLength xs)
  rw [length_encode, length_encodeBytes, Item.length] at hlen
  have hzero : payloadLength xs = 0 := by
    have : bytesLength [] = 1 := rfl
    omega
  rw [Item.encode, hzero, encodeBytes] at h
  exact absurd (List.cons.inj h).1 (by decide)

/-! ## Numbers and words -/

theorem length_uint_le (v : U256) : (Item.uint v).length ≤ 33 := by
  have hlen : v.trimmedBytes.length ≤ 32 := Bytes.length_ofNat_le v.isLt
  rw [Item.length, bytesLength]
  split
  · omega
  · rw [headerLength, if_pos (by omega)]
    omega

theorem length_encode_word (w : Word) : (Item.word w).encode.length = 33 := by
  have hbare : isBare w.bytes = false := by
    rw [Bool.eq_false_iff]
    intro h
    obtain ⟨x, hx, -⟩ := isBare_iff.mp h
    have hlen := w.length_eq
    rw [hx] at hlen
    simp at hlen
  rw [Item.word, length_encode, Item.length, bytesLength, hbare, w.length_eq]
  rfl

theorem uint_encode_injective {v w : U256} (h : (Item.uint v).encode = (Item.uint w).encode) :
    v = w :=
  BitVec.eq_of_toNat_eq (Bytes.ofNat_injective (encodeBytes_injective h))

theorem word_encode_injective {v w : Word} (h : (Item.word v).encode = (Item.word w).encode) :
    v = w :=
  FixedBytes.bytes_injective (encodeBytes_injective h)

end Rlp

end ExecState
