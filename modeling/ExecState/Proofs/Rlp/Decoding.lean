import ExecState.Proofs.Rlp.Framing
import Mathlib.Data.List.Induction

/-!
# Encodings read again

A whole encoding is read back, and so is the length in each of its headers.
-/

namespace ExecState

/-!
## Reading encodings back

`decode?` reads the item at the front of a byte string and leaves what follows it. It is strict: a
byte below `0x80` has no header, a length of up to 55 is part of the first byte, and a longer one
is written without leading zeros. So it reads nothing but encodings, and it reads all of them
whose payloads are shorter than `2 ^ 64` bytes, which is what a header has room for
(`decode?_eq_some_iff`).

A number is encoded as the string of its bytes, so an item is read back in its *normal form*, in
which all numbers were replaced by these strings (`Item.normal`). Nothing else is lost: two items
have one encoding exactly if they have one normal form, and no encoding is the beginning of
another (`encode_unambiguous`).

Reading goes in two steps. The front of a byte string is a byte string or a row of further
encodings (`Front`), and this much is read without recursion; a row is then read item by item. Each
step is settled by an equivalence with what was written, which serves for both directions.
-/

/-! ### Big-endian bytes without leading zeros -/

namespace Bytes

theorem toNat_lt (b : Bytes) : toNat b < 256 ^ b.length := by
  induction b using List.reverseRecOn with
  | nil => decide
  | append_singleton b d ih =>
    have hd := d.toNat_lt
    rw [toNat_append_singleton, List.length_append, List.length_singleton, Nat.pow_succ]
    omega

theorem head?_ofNat (n : Nat) : (ofNat n).head? ≠ some 0 := by
  fun_induction ofNat n with
  | case1 => simp
  | case2 n hn ih =>
    rw [List.head?_append]
    by_cases hdiv : n / 256 = 0
    · -- a single byte, which is the number itself
      have hval : (UInt8.ofNat n).toNat = n := by
        rw [UInt8.toNat_ofNat']
        omega
      rw [hdiv, ofNat_zero]
      simp only [List.head?_nil, Option.none_or, List.head?_cons, ne_eq, Option.some_inj]
      intro hzero
      rw [hzero] at hval
      exact hn hval.symm
    · obtain ⟨d, rest, hcons⟩ := List.exists_cons_of_ne_nil (ofNat_ne_nil hdiv)
      rw [hcons] at ih ⊢
      simpa using ih

theorem ofNat_toNat {b : Bytes} (h : b.head? ≠ some 0) : ofNat (toNat b) = b := by
  induction b using List.reverseRecOn with
  | nil => rw [toNat, List.foldl_nil, ofNat_zero]
  | append_singleton b d ih =>
    have hd := d.toNat_lt
    have hinit : ofNat (toNat b) = b := by
      refine ih fun hb ↦ h ?_
      rw [List.head?_append, hb, Option.some_or]
    have hne : toNat b * 256 + d.toNat ≠ 0 := by
      intro hzero
      have hb : b = [] := by rw [← hinit, show toNat b = 0 by omega, ofNat_zero]
      have hd0 : d = 0 := UInt8.toNat_inj.mp (show d.toNat = 0 by omega)
      exact h (by rw [hb, hd0]; rfl)
    have hlast : UInt8.ofNat (toNat b * 256 + d.toNat) = d := by
      refine UInt8.toNat_inj.mp ?_
      rw [UInt8.toNat_ofNat']
      omega
    rw [toNat_append_singleton, ofNat, if_neg hne, hlast,
      show (toNat b * 256 + d.toNat) / 256 = toNat b by omega, hinit]

end Bytes

namespace Rlp

/-! ### Headers -/

/-- How far the first byte of a header lies above the base. -/
def headerLead (n : Nat) : Nat := if n ≤ 55 then n else 55 + (Bytes.ofNat n).length

/-- What follows the first byte of a header. -/
def headerTail (n : Nat) : Bytes := if n ≤ 55 then [] else Bytes.ofNat n

theorem header_eq_cons (base n : Nat) :
    header base n = UInt8.ofNat (base + headerLead n) :: headerTail n := by
  rw [header, headerLead, headerTail]
  split
  · rfl
  · dsimp only
    rw [Nat.add_assoc]

theorem headerLead_lt {n : Nat} (h : n < 2 ^ 64) : headerLead n < 64 := by
  have hsize : (Bytes.ofNat n).length ≤ 8 := Bytes.length_ofNat_le (by omega)
  rw [headerLead]
  split <;> omega

/-- The length of a payload, read after the first byte of a header, which lies `lead` above the
base. A length that has bytes of its own is more than 55 and has no leading zero. -/
def readLength? (lead : Nat) (s : Bytes) : Option (Nat × Bytes) :=
  if lead ≤ 55 then some (lead, s)
  else
    let size := lead - 55
    let n := Bytes.toNat (s.take size)
    if size ≤ s.length ∧ s.head? ≠ some 0 ∧ 55 < n then some (n, s.drop size) else none

theorem readLength?_eq_some_iff {lead n : Nat} {s rest : Bytes} (hlead : lead < 64) :
    readLength? lead s = some (n, rest) ↔
      n < 2 ^ 64 ∧ lead = headerLead n ∧ s = headerTail n ++ rest := by
  rw [readLength?]
  constructor
  · intro h
    split at h
    · rename_i hshort
      obtain ⟨rfl, rfl⟩ := Prod.mk.inj (Option.some_inj.mp h)
      rw [headerLead, headerTail, if_pos hshort, if_pos hshort]
      exact ⟨by omega, rfl, rfl⟩
    · rename_i hlong
      dsimp only at h
      split at h
      · rename_i hdigits
        obtain ⟨hsize, hhead, hmore⟩ := hdigits
        obtain ⟨hn, rfl⟩ := Prod.mk.inj (Option.some_inj.mp h)
        have hlen : (s.take (lead - 55)).length = lead - 55 := by
          rw [List.length_take]
          omega
        have hofNat : Bytes.ofNat n = s.take (lead - 55) := by
          rw [← hn]
          refine Bytes.ofNat_toNat ?_
          rwa [List.head?_take, if_neg (by omega)]
        have hlt : n < 256 ^ (lead - 55) := by
          have hbound := Bytes.toNat_lt (s.take (lead - 55))
          rwa [hlen, hn] at hbound
        have hpow : 256 ^ (lead - 55) ≤ 256 ^ 8 := Nat.pow_le_pow_right (by decide) (by omega)
        rw [hn] at hmore
        rw [headerLead, headerTail, if_neg (by omega), if_neg (by omega), hofNat, hlen,
          List.take_append_drop]
        exact ⟨by omega, by omega, rfl⟩
      · cases h
  · rintro ⟨hn, rfl, rfl⟩
    by_cases hshort : n ≤ 55
    · rw [headerLead, headerTail, if_pos hshort, if_pos hshort, if_pos hshort]
      rfl
    · have hpos : 0 < (Bytes.ofNat n).length :=
        List.length_pos_iff.mpr (Bytes.ofNat_ne_nil (by omega))
      have hhead : (Bytes.ofNat n ++ rest).head? ≠ some 0 := by
        obtain ⟨d, digits, hcons⟩ := List.exists_cons_of_length_pos hpos
        have hfirst := Bytes.head?_ofNat n
        rw [hcons] at hfirst ⊢
        exact hfirst
      rw [headerLead, headerTail, if_neg hshort, if_neg hshort, if_neg (by omega)]
      dsimp only
      rw [Nat.add_sub_cancel_left, List.take_left, Bytes.toNat_ofNat, List.drop_left]
      refine if_pos ⟨?_, hhead, by omega⟩
      rw [List.length_append]
      omega

/-- The payload after the first byte of a header, and what follows it. -/
def readPayload? (lead : Nat) (s : Bytes) : Option (Bytes × Bytes) :=
  match readLength? lead s with
  | none => none
  | some (n, s') => if n ≤ s'.length then some (s'.take n, s'.drop n) else none

theorem readPayload?_eq_some_iff {lead : Nat} {s p rest : Bytes} (hlead : lead < 64) :
    readPayload? lead s = some (p, rest) ↔
      p.length < 2 ^ 64 ∧ lead = headerLead p.length ∧ s = headerTail p.length ++ (p ++ rest) := by
  rw [← readLength?_eq_some_iff hlead, readPayload?]
  constructor
  · intro h
    split at h
    · cases h
    · rename_i n s' hlength
      split at h
      · rename_i hle
        obtain ⟨rfl, rfl⟩ := Prod.mk.inj (Option.some_inj.mp h)
        rw [hlength, List.take_append_drop, List.length_take, Nat.min_eq_left hle]
      · cases h
  · intro h
    rw [h]
    dsimp only
    rw [if_pos (by rw [List.length_append]; omega), List.take_left, List.drop_left]

/-! ### The front of a byte string -/

/-- What stands at the front of a byte string: a byte string, or the encodings of the items of a
list. -/
inductive Front
  | string (payload : Bytes)
  | row (payload : Bytes)

namespace Front

def payload : Front → Bytes
  | string p | row p => p

def encode : Front → Bytes
  | string p => encodeBytes p
  | row p => header 0xc0 p.length ++ p

theorem encode_ne_nil (f : Front) : f.encode ≠ [] := by
  cases f with
  | string p => exact encodeBytes_ne_nil p
  | row p =>
    rw [encode, header_eq_cons]
    simp

end Front

/-- The front of a byte string, and what follows it. -/
def readFront? : Bytes → Option (Front × Bytes)
  | [] => none
  | b :: s =>
    if b < 0x80 then some (.string [b], s)
    else if b < 0xc0 then
      match readPayload? (b.toNat - 0x80) s with
      | none => none
      | some (p, rest) => if isBare p then none else some (.string p, rest)
    else
      match readPayload? (b.toNat - 0xc0) s with
      | none => none
      | some (p, rest) => some (.row p, rest)

theorem toNat_lead (base : Nat) {n : Nat} (hbase : base ≤ 0xc0) (hn : n < 2 ^ 64) :
    (UInt8.ofNat (base + headerLead n)).toNat = base + headerLead n := by
  have hlead := headerLead_lt hn
  rw [UInt8.toNat_ofNat']
  omega

theorem cons_eq_header {base n : Nat} {b : UInt8} (h : b.toNat = base + headerLead n) :
    b :: headerTail n = header base n := by
  have hb : b = UInt8.ofNat (base + headerLead n) := by
    rw [← h, UInt8.ofNat_toNat]
  rw [header_eq_cons, hb]

theorem encode_append_of_readFront? {s rest : Bytes} {f : Front}
    (h : readFront? s = some (f, rest)) :
    f.payload.length < 2 ^ 64 ∧ s = f.encode ++ rest := by
  cases s with
  | nil => cases h
  | cons b s =>
    have hlt := b.toNat_lt
    rw [readFront?] at h
    split at h
    · -- a byte that stands for itself
      rename_i hbare
      obtain ⟨rfl, rfl⟩ := Prod.mk.inj (Option.some_inj.mp h)
      have hb : isBare [b] = true := decide_eq_true hbare
      rw [Front.encode, Front.payload, encodeBytes, if_pos hb]
      exact ⟨by simp, rfl⟩
    · rename_i hbare
      have hbare' : 0x80 ≤ b.toNat := Nat.le_of_not_lt hbare
      split at h
      · rename_i hstring
        have hstring' : b.toNat < 0xc0 := hstring
        split at h
        · cases h
        · rename_i p rest' hpayload
          split at h
          · cases h
          · rename_i hp
            obtain ⟨rfl, rfl⟩ := Prod.mk.inj (Option.some_inj.mp h)
            obtain ⟨hlen, hlead, rfl⟩ := (readPayload?_eq_some_iff (by omega)).mp hpayload
            have hcons : b :: headerTail p.length = header 0x80 p.length :=
              cons_eq_header (by omega)
            rw [Front.encode, Front.payload, encodeBytes, if_neg hp, ← hcons]
            exact ⟨hlen, by simp⟩
      · rename_i hrow
        have hrow' : 0xc0 ≤ b.toNat := Nat.le_of_not_lt hrow
        split at h
        · cases h
        · rename_i p rest' hpayload
          obtain ⟨rfl, rfl⟩ := Prod.mk.inj (Option.some_inj.mp h)
          obtain ⟨hlen, hlead, rfl⟩ := (readPayload?_eq_some_iff (by omega)).mp hpayload
          have hcons : b :: headerTail p.length = header 0xc0 p.length := cons_eq_header (by omega)
          rw [Front.encode, Front.payload, ← hcons]
          exact ⟨hlen, by simp⟩

theorem readFront?_encode_append {f : Front} (h : f.payload.length < 2 ^ 64) (rest : Bytes) :
    readFront? (f.encode ++ rest) = some (f, rest) := by
  cases f with
  | string p =>
    rw [Front.encode, encodeBytes]
    split
    · rename_i hp
      obtain ⟨b, rfl, hb⟩ := isBare_iff.mp hp
      rw [List.singleton_append, readFront?, if_pos hb]
    · rename_i hp
      have hval := toNat_lead 0x80 (by decide) h
      have hlead := headerLead_lt h
      rw [Front.payload] at hval hlead
      have hpayload : readPayload? (headerLead p.length) (headerTail p.length ++ (p ++ rest))
          = some (p, rest) := (readPayload?_eq_some_iff hlead).mpr ⟨h, rfl, rfl⟩
      rw [header_eq_cons, List.append_assoc, List.cons_append, readFront?,
        if_neg (by rw [UInt8.lt_iff_toNat_lt, hval]; simp),
        if_pos (by rw [UInt8.lt_iff_toNat_lt, hval]; simp; omega), hval, Nat.add_sub_cancel_left,
        hpayload]
      exact if_neg hp
  | row p =>
    have hval := toNat_lead 0xc0 (by decide) h
    have hlead := headerLead_lt h
    rw [Front.payload] at hval hlead
    have hpayload : readPayload? (headerLead p.length) (headerTail p.length ++ (p ++ rest))
        = some (p, rest) := (readPayload?_eq_some_iff hlead).mpr ⟨h, rfl, rfl⟩
    rw [Front.encode, header_eq_cons, List.append_assoc, List.cons_append, readFront?,
      if_neg (by rw [UInt8.lt_iff_toNat_lt, hval]; simp; omega),
      if_neg (by rw [UInt8.lt_iff_toNat_lt, hval]; simp), hval, Nat.add_sub_cancel_left, hpayload]

theorem length_rest_lt {s rest : Bytes} {f : Front} (h : readFront? s = some (f, rest)) :
    rest.length < s.length := by
  obtain ⟨-, rfl⟩ := encode_append_of_readFront? h
  have hpos := List.length_pos_iff.mpr f.encode_ne_nil
  rw [List.length_append]
  omega

theorem length_row_lt {s p rest : Bytes} (h : readFront? s = some (.row p, rest)) :
    p.length < s.length := by
  obtain ⟨-, rfl⟩ := encode_append_of_readFront? h
  rw [Front.encode, header_eq_cons]
  simp only [List.length_append, List.length_cons]
  omega

/-! ### Items -/

/-- The items whose encodings make up a byte string. -/
def decodeAll? (s : Bytes) : Option (List Item) :=
  if s = [] then some []
  else
    match _hfront : readFront? s with
    | none => none
    | some (.string p, rest) => (decodeAll? rest).map (.bytes p :: ·)
    | some (.row p, rest) =>
      (decodeAll? p).bind fun items ↦ (decodeAll? rest).map (.list items :: ·)
termination_by s.length
decreasing_by
  · exact length_rest_lt _hfront
  · exact length_row_lt _hfront
  · exact length_rest_lt _hfront

def Front.item? : Front → Option Item
  | string p => some (.bytes p)
  | row p => (decodeAll? p).map .list

/-- The item at the front of a byte string, and what follows it. -/
def decode? (s : Bytes) : Option (Item × Bytes) :=
  (readFront? s).bind fun (f, rest) ↦ f.item?.map fun item ↦ (item, rest)

theorem decodeAll?_nil : decodeAll? [] = some [] := by
  rw [decodeAll?, if_pos rfl]

theorem decodeAll?_of_ne_nil {s : Bytes} (h : s ≠ []) :
    decodeAll? s = (decode? s).bind fun (item, rest) ↦ (decodeAll? rest).map (item :: ·) := by
  rw [decodeAll?, if_neg h, decode?]
  cases readFront? s with
  | none => rfl
  | some front =>
    obtain ⟨f | p, rest⟩ := front
    · rfl
    · show ((decodeAll? p).bind fun items ↦ (decodeAll? rest).map (.list items :: ·))
        = (((decodeAll? p).map Item.list).map fun item ↦ (item, rest)).bind _
      cases decodeAll? p <;> rfl

/-! ### Normal forms -/

mutual
/-- An item with all numbers replaced by the strings of their bytes. -/
def Item.normal : Item → Item
  | .uint v => .bytes v.trimmedBytes
  | .bytes b => .bytes b
  | .list items => .list (normalAll items)

def normalAll : List Item → List Item
  | [] => []
  | item :: rest => item.normal :: normalAll rest
end

/-- An item as it stands at the front of its encoding. -/
def Item.front : Item → Front
  | .uint v => .string v.trimmedBytes
  | .bytes b => .string b
  | .list items => .row (encodeAll items)

/-- The bytes of an encoding that are not part of the outermost header. -/
def Item.payload (item : Item) : Bytes := item.front.payload

theorem encode_front (item : Item) : item.front.encode = item.encode := by
  cases item with
  | uint v => rw [Item.front, Front.encode, Item.encode]
  | bytes b => rw [Item.front, Front.encode, Item.encode]
  | list items => rw [Item.front, Front.encode, Item.encode, length_encodeAll]

theorem length_payload_le (item : Item) : item.payload.length ≤ item.encode.length := by
  rw [Item.payload, ← encode_front]
  cases item.front with
  | string p =>
    rw [Front.payload, Front.encode, length_encodeBytes]
    exact length_le_bytesLength p
  | row p =>
    rw [Front.payload, Front.encode, List.length_append]
    omega

theorem length_payload_le_of_mem {item : Item} {items : List Item} (h : item ∈ items) :
    item.payload.length ≤ (encodeAll items).length := by
  have hitem := length_payload_le item
  rw [length_encode] at hitem
  rw [length_encodeAll]
  exact Nat.le_trans hitem (length_le_payloadLength h)

mutual
theorem encode_normal : ∀ item : Item, item.normal.encode = item.encode
  | .uint v => by rw [Item.normal, Item.encode, Item.encode]
  | .bytes b => by rw [Item.normal]
  | .list items => by
    rw [Item.normal, Item.encode, Item.encode, ← length_encodeAll, ← length_encodeAll,
      encodeAll_normalAll items]

theorem encodeAll_normalAll : ∀ items : List Item, encodeAll (normalAll items) = encodeAll items
  | [] => by rw [normalAll]
  | item :: rest => by
    rw [normalAll, encodeAll, encodeAll, encode_normal item, encodeAll_normalAll rest]
end

/-! ### Reading what was written -/

theorem decode?_encode_append_of_front {item : Item} (h : item.payload.length < 2 ^ 64)
    (hitem : item.front.item? = some item.normal) (rest : Bytes) :
    decode? (item.encode ++ rest) = some (item.normal, rest) := by
  rw [decode?, ← encode_front, readFront?_encode_append h, Option.bind_some]
  dsimp only
  rw [hitem]
  rfl

mutual
theorem item?_front : ∀ item : Item, item.payload.length < 2 ^ 64 →
    item.front.item? = some item.normal
  | .uint v, _ => by rw [Item.front, Item.normal, Front.item?]
  | .bytes b, _ => by rw [Item.front, Item.normal, Front.item?]
  | .list items, h => by
    have hall := decodeAll?_encodeAll items fun _ hmem ↦
      Nat.lt_of_le_of_lt (length_payload_le_of_mem hmem) h
    rw [Item.front, Item.normal, Front.item?, hall]
    rfl

theorem decodeAll?_encodeAll : ∀ items : List Item,
    (∀ item ∈ items, item.payload.length < 2 ^ 64) →
      decodeAll? (encodeAll items) = some (normalAll items)
  | [], _ => by rw [encodeAll, normalAll, decodeAll?_nil]
  | item :: rest, h => by
    have hitem := h item List.mem_cons_self
    have hrest := decodeAll?_encodeAll rest fun i hi ↦ h i (List.mem_cons_of_mem item hi)
    have hdecode := decode?_encode_append_of_front hitem (item?_front item hitem) (encodeAll rest)
    have hne : item.encode ++ encodeAll rest ≠ [] := by
      simp [encode_ne_nil]
    rw [encodeAll, normalAll, decodeAll?_of_ne_nil hne, hdecode, Option.bind_some]
    dsimp only
    rw [hrest]
    rfl
end

theorem decode?_encode_append {item : Item} (h : item.payload.length < 2 ^ 64) (rest : Bytes) :
    decode? (item.encode ++ rest) = some (item.normal, rest) :=
  decode?_encode_append_of_front h (item?_front item h) rest

/-! ### Reading nothing else -/

theorem encodeAll_of_decodeAll? {s : Bytes} {items : List Item} (h : decodeAll? s = some items) :
    encodeAll items = s ∧ normalAll items = items := by
  fun_induction decodeAll? s generalizing items with
  | case1 =>
    rw [← Option.some_inj.mp h, encodeAll, normalAll]
    exact ⟨rfl, rfl⟩
  | case2 s hne hnone => cases h
  | case3 s hne p rest hfront ih =>
    obtain ⟨items', hrest, rfl⟩ := Option.map_eq_some_iff.mp h
    obtain ⟨hencode, hnormal⟩ := ih hrest
    obtain ⟨-, hs⟩ := encode_append_of_readFront? hfront
    rw [encodeAll, normalAll, Item.encode, Item.normal, hencode, hnormal, hs, Front.encode]
    exact ⟨rfl, rfl⟩
  | case4 s hne p rest hfront ihp ihrest =>
    obtain ⟨inner, hinner, hmap⟩ := Option.bind_eq_some_iff.mp h
    obtain ⟨items', hrest, rfl⟩ := Option.map_eq_some_iff.mp hmap
    obtain ⟨hencodeInner, hnormalInner⟩ := ihp hinner
    obtain ⟨hencode, hnormal⟩ := ihrest hrest
    obtain ⟨-, hs⟩ := encode_append_of_readFront? hfront
    rw [encodeAll, normalAll, Item.encode, Item.normal, ← length_encodeAll, hencodeInner,
      hnormalInner, hencode, hnormal, hs, Front.encode]
    exact ⟨rfl, rfl⟩

theorem front_of_item? {f : Front} {item : Item} (h : f.item? = some item) :
    item.front = f ∧ item.normal = item := by
  cases f with
  | string p =>
    rw [← Option.some_inj.mp h, Item.front, Item.normal]
    exact ⟨rfl, rfl⟩
  | row p =>
    obtain ⟨items, hitems, rfl⟩ := Option.map_eq_some_iff.mp h
    obtain ⟨hencode, hnormal⟩ := encodeAll_of_decodeAll? hitems
    rw [Item.front, Item.normal, hencode, hnormal]
    exact ⟨rfl, rfl⟩

/-- **Reading is strict.** What is read is in normal form, and it was written as an encoder writes
it. -/
theorem decode?_eq_some_iff {s rest : Bytes} {item : Item} :
    decode? s = some (item, rest) ↔
      item.normal = item ∧ item.payload.length < 2 ^ 64 ∧ s = item.encode ++ rest := by
  constructor
  · intro h
    obtain ⟨⟨f, rest'⟩, hfront, hmap⟩ := Option.bind_eq_some_iff.mp h
    obtain ⟨item', hitem, heq⟩ := Option.map_eq_some_iff.mp hmap
    obtain ⟨rfl, rfl⟩ := Prod.mk.inj heq
    obtain ⟨hfrontItem, hnormal⟩ := front_of_item? hitem
    obtain ⟨hlen, hs⟩ := encode_append_of_readFront? hfront
    rw [Item.payload, ← encode_front, hfrontItem]
    exact ⟨hnormal, hlen, hs⟩
  · rintro ⟨hnormal, hlen, rfl⟩
    rw [decode?_encode_append hlen, hnormal]

/-- No header for a byte that stands for itself, and no leading zero in a length. -/
example : (decode? [0x81, 0x05]).isNone ∧
    (decode? ([0xb9, 0x00, 0x38] ++ List.replicate 56 1)).isNone := by decide

/-- **Encodings are unambiguous.** As long as payloads are shorter than `2 ^ 64` bytes, no encoding
is the beginning of another one, two items have one encoding exactly if they have one normal form,
and a strict reader finds that normal form in front of whatever follows it. The reader reads
encodings of normal forms and nothing else. -/
theorem encode_unambiguous {a b : Item} (ha : a.payload.length < 2 ^ 64)
    (hb : b.payload.length < 2 ^ 64) :
    (a.encode <+: b.encode → a.encode = b.encode) ∧
      (a.encode = b.encode ↔ a.normal = b.normal) ∧
      (∀ rest, decode? (a.encode ++ rest) = some (a.normal, rest)) ∧
      ∀ s item rest, decode? s = some (item, rest) ↔
        item.normal = item ∧ item.payload.length < 2 ^ 64 ∧ s = item.encode ++ rest := by
  have hread : ∀ rest, decode? (a.encode ++ rest) = some (a.normal, rest) :=
    decode?_encode_append ha
  have hreadb : decode? b.encode = some (b.normal, []) := by
    simpa using decode?_encode_append hb []
  have hencode : a.normal = b.normal → a.encode = b.encode := fun h ↦ by
    rw [← encode_normal a, h, encode_normal b]
  -- both encodings are at the front of one string, and it is read in one way
  have hextends : ∀ rest, a.encode ++ rest = b.encode → a.normal = b.normal := by
    intro rest h
    have hboth := hread rest
    rw [h, hreadb, Option.some_inj] at hboth
    exact (Prod.mk.inj hboth).1.symm
  refine ⟨?_, ⟨fun h ↦ ?_, hencode⟩, hread, fun _ _ _ ↦ decode?_eq_some_iff⟩
  · rintro ⟨rest, h⟩
    exact hencode (hextends rest h)
  · exact hextends [] (by rw [List.append_nil, h])

/-- Lists in a list, with a number and a byte string that is long enough for a long header. -/
def numbered : Item :=
  .list [.uint 1024, .list [.bytes (List.replicate 60 0xaa), .list []], .bytes [0x7f]]

/-- The same with the bytes of the number in its place. -/
def spelled : Item :=
  .list [.bytes [4, 0], .list [.bytes (List.replicate 60 0xaa), .list []], .uint 0x7f]

theorem encode_unambiguous_nested :
    numbered.payload.length < 2 ^ 64 ∧ spelled.payload.length < 2 ^ 64 ∧
      (numbered.encode <+: spelled.encode → numbered.encode = spelled.encode) ∧
      (numbered.encode = spelled.encode ↔ numbered.normal = spelled.normal) ∧
      (∀ rest, decode? (numbered.encode ++ rest) = some (numbered.normal, rest)) ∧
      ∀ s item rest, decode? s = some (item, rest) ↔
        item.normal = item ∧ item.payload.length < 2 ^ 64 ∧ s = item.encode ++ rest := by
  have hnumbered : numbered.payload.length < 2 ^ 64 := by decide +kernel
  have hspelled : spelled.payload.length < 2 ^ 64 := by decide +kernel
  exact ⟨hnumbered, hspelled, encode_unambiguous hnumbered hspelled⟩

end Rlp

end ExecState

namespace ExecState.Rlp

/-!
## Headers state what follows them

The header of a list is written before the items are, so the number in it is foretold by one
recursion (`Item.length`) and the bytes behind it are written by another (`Item.encode`). If the two
differed at one item, every list around it would state a wrong number.

The statement is therefore about every part of an item and not about the item alone. A part stands
between what is written before it and after it (`Part`), which is what puts its header at a place of
the output. The number is read off the bytes at that place by `statedLength?`, which knows nothing
of items. A header has room for a number of eight bytes; no part is longer than the whole, so a
bound on the whole is enough.
-/

/-! ### Parts -/

/-- Whether an item is a part of a whole, with these bytes written before it and after it. -/
inductive Part (whole : Item) : (before : Bytes) → (item : Item) → (after : Bytes) → Prop
  /-- The whole has nothing around it. -/
  | whole : Part whole [] whole []
  /-- An item of a list comes after the header of the list and the items on its left. -/
  | element {before after : Bytes} {left right : List Item} {item : Item} :
      Part whole before (.list (left ++ item :: right)) after →
      Part whole (before ++ header 0xc0 (payloadLength (left ++ item :: right)) ++ encodeAll left)
        item (encodeAll right ++ after)

theorem encodeAll_eq_flatMap (items : List Item) : encodeAll items = items.flatMap Item.encode := by
  induction items with
  | nil => rw [encodeAll, List.flatMap_nil]
  | cons item rest ih => rw [encodeAll, ih, List.flatMap_cons]

variable {whole item : Item} {before after : Bytes}

theorem Part.encode_eq (h : Part whole before item after) :
    whole.encode = before ++ (item.encode ++ after) := by
  induction h with
  | whole => rw [List.nil_append, List.append_nil]
  | element _ ih =>
    rw [ih, Item.encode]
    simp only [encodeAll_eq_flatMap, List.flatMap_append, List.flatMap_cons, List.append_assoc]

theorem Part.length_le (h : Part whole before item after) : item.length ≤ whole.length := by
  have hlen := congrArg List.length h.encode_eq
  rw [List.length_append, List.length_append, length_encode, length_encode] at hlen
  omega

/-! ### Stated lengths -/

/-- The length that the header of a list states, and what follows the header. -/
def statedLength? : Bytes → Option (Nat × Bytes)
  | [] => none
  | b :: s => if b < 0xc0 then none else readLength? (b.toNat - 0xc0) s

theorem statedLength?_header_append {n : Nat} (h : n < 2 ^ 64) (s : Bytes) :
    statedLength? (header 0xc0 n ++ s) = some (n, s) := by
  have hval := toNat_lead 0xc0 (by decide) h
  have hrow : ¬ UInt8.ofNat (0xc0 + headerLead n) < 0xc0 := by
    rw [UInt8.lt_iff_toNat_lt, hval]
    exact Nat.not_lt.mpr (Nat.le_add_right _ _)
  rw [header_eq_cons, List.cons_append, statedLength?, if_neg hrow, hval, Nat.add_sub_cancel_left]
  exact (readLength?_eq_some_iff (headerLead_lt h)).mpr ⟨h, rfl, rfl⟩

theorem statedLength?_encode_append {items : List Item} (h : (Item.list items).length < 2 ^ 64)
    (s : Bytes) :
    statedLength? ((Item.list items).encode ++ s)
      = some ((items.flatMap Item.encode).length, items.flatMap Item.encode ++ s) := by
  have hpayload : payloadLength items < 2 ^ 64 := by
    rw [Item.length] at h
    omega
  rw [Item.encode, List.append_assoc, statedLength?_header_append hpayload,
    ← encodeAll_eq_flatMap, length_encodeAll]

/-- **Lengths are exact at every place.** Every part of an item is as long as foretold, and none is
longer than the whole, so that no length on the way needs more than 64 bits. The header of every
list, wherever it was written, states the number of bytes from its end to the end of the list. -/
theorem encode_states_lengths (h : whole.length < 2 ^ 64) :
    whole.encode.length = whole.length ∧
    ∀ before item after, Part whole before item after →
      whole.encode = before ++ (item.encode ++ after) ∧
      item.encode.length = item.length ∧ item.length ≤ whole.length ∧
      ∀ items, item = .list items →
        statedLength? (item.encode ++ after)
          = some ((items.flatMap Item.encode).length, items.flatMap Item.encode ++ after) := by
  refine ⟨length_encode whole, fun before item after hpart ↦ ?_⟩
  refine ⟨hpart.encode_eq, length_encode item, hpart.length_le, ?_⟩
  rintro items rfl
  exact statedLength?_encode_append (Nat.lt_of_le_of_lt hpart.length_le h) after

/-- A list with a payload of 256 bytes, the least that takes two bytes to state. -/
def twoByteStated : Item := .list [.bytes (List.replicate 253 0xaa), .list []]

/-- Lists whose payloads lie around the lengths at which headers grow. -/
def straddling : Item :=
  .list [.list [.bytes (List.replicate 54 0xaa)], .list [.bytes (List.replicate 55 0xaa)],
    twoByteStated, .uint 0x7f]

theorem encode_states_lengths_straddling :
    straddling.length < 2 ^ 64 ∧
    ∃ before after, Part straddling before twoByteStated after ∧
      statedLength? (twoByteStated.encode ++ after)
        = some (256, (Item.bytes (List.replicate 253 0xaa)).encode ++ [0xc0] ++ [0x7f]) := by
  have hlen : straddling.length < 2 ^ 64 := by decide +kernel
  have hpart := @Part.element straddling [] []
    [.list [.bytes (List.replicate 54 0xaa)], .list [.bytes (List.replicate 55 0xaa)]] [.uint 0x7f]
    twoByteStated .whole
  obtain ⟨-, -, -, hstated⟩ := (encode_states_lengths hlen).2 _ _ _ hpart
  refine ⟨hlen, _, _, hpart, ?_⟩
  rw [hstated _ rfl]
  decide +kernel

end ExecState.Rlp
