import ExecState.Proofs.Allocation.Denotation

/-!
# Allocations that are refused

Every text of an allocation has a kind, and every kind says what its texts must be like: addresses
and keys are hexadecimal and no longer than what they name, code and values are hexadecimal, and
balances and nonces are numerals (`Allocation.Kind.Admits`). An allocation with a text that is not
like that is malformed.

No other allocation is refused (`Allocation.toState_error_iff`): neither names that stand for the
same nor the sums of balances are an obstacle. But some malformed allocations are loaded all the
same. A plus sign passes for a digit where it is the first of a pair, so more can be read
(`Allocation.Kind.Reads`) than a kind admits; and the key of a slot whose value is empty is not read
at all. These are the only faults that a loaded allocation can have.
-/

namespace ExecState

/-! ## Texts and their kinds -/

namespace Allocation

/-- What a text of an allocation is there for. -/
inductive Kind
  | address
  | slotKey
  /-- A code or the value of a slot. -/
  | bytes
  /-- A balance or a nonce. -/
  | quantity
deriving DecidableEq

namespace Kind

/-- Whether a text is what its kind asks for. -/
def Admits : Kind → String → Prop
  | address, text => ∃ length, Hex.IsHexadecimal text length ∧ (length + 1) / 2 ≤ 20
  | slotKey, text => ∃ length, Hex.IsHexadecimal text length ∧ (length + 1) / 2 ≤ 32
  | bytes, text => ∃ length, Hex.IsHexadecimal text length
  | quantity, text => ∃ n < U256.size, Quantity.TextDenotes text n

/-- Whether a text stands for something of its kind. -/
def Reads : Kind → String → Prop
  | address, text => ∃ a : Address, Hex.DenotesPadded text a
  | slotKey, text => ∃ key : Word, Hex.DenotesPadded text key
  | bytes, text => ∃ b, Hex.Denotes text b
  | quantity, text => ∃ n : U256, Quantity.TextDenotes text n.toNat

end Kind

end Allocation

/-- The texts of an entry that stands under a key, by their kinds. -/
inductive Entry.HasText (k : String) (e : Entry) : Allocation.Kind → String → Prop
  | address : HasText k e .address k
  | balance {text : String} (h : e.balance = some (.text text)) : HasText k e .quantity text
  | nonce {text : String} (h : e.nonce = some (.text text)) : HasText k e .quantity text
  | code {text : String} (h : e.code = some text) : HasText k e .bytes text
  | slotKey {key value : String} (h : e.storage[key]? = some value) : HasText k e .slotKey key
  | slotValue {key value : String} (h : e.storage[key]? = some value) : HasText k e .bytes value

/-- Whether an entry has a slot without value under a key. -/
def Entry.Skips (e : Entry) (key : String) : Prop :=
  ∃ value, e.storage[key]? = some value ∧ Hex.Denotes value []

namespace Allocation

/-- The texts of an allocation by their kinds. -/
def HasText (allocation : Allocation) (kind : Kind) (text : String) : Prop :=
  ∃ (k : String) (e : Entry), allocation[k]? = some e ∧ e.HasText k kind text

/-- Whether some entry has a slot without value under a key. -/
def Skips (allocation : Allocation) (key : String) : Prop :=
  ∃ (k : String) (e : Entry), allocation[k]? = some e ∧ e.Skips key

/-- Whether some text is not what its kind asks for. -/
def IsMalformed (allocation : Allocation) : Prop :=
  ∃ kind text, allocation.HasText kind text ∧ ¬ kind.Admits text

/-! ## What is admitted can be read -/

/-- **A kind admits what can be read, but for plus signs.** -/
theorem Kind.admits_iff {kind : Kind} {text : String} :
    kind.Admits text ↔ kind.Reads text ∧ '+' ∉ text.toList := by
  cases kind with
  | address => exact Hex.exists_isHexadecimal_le_iff
  | slotKey => exact Hex.exists_isHexadecimal_le_iff
  | bytes => exact Hex.exists_isHexadecimal_iff
  | quantity =>
    rw [Admits, Reads]
    constructor
    · rintro ⟨n, hn, hdenotes⟩
      refine ⟨⟨BitVec.ofNat 256 n, ?_⟩, hdenotes.plus_notMem⟩
      rwa [BitVec.toNat_ofNat, Nat.mod_eq_of_lt hn]
    · rintro ⟨⟨n, hdenotes⟩, -⟩
      exact ⟨n.toNat, U256.toNat_lt_size n, hdenotes⟩

/-! ## What is read -/

variable {allocation : Allocation} {e : Entry} {k : String}

theorem exists_readQuantity_iff {q : Option Quantity} :
    (∃ n, readQuantity q = .ok n) ↔ ∀ text, q = some (.text text) → Kind.quantity.Reads text := by
  match q with
  | none => simp [readQuantity]
  | some (.number n) => simp [readQuantity, Quantity.value]
  | some (.text s) =>
    simp only [readQuantity, Quantity.value, Quantity.ofText_eq_ok_iff, Option.some_inj,
      Quantity.text.injEq, forall_eq', Kind.Reads]

theorem exists_readOptionalCode_iff {a : Address} {code : Option String} :
    (∃ b, readOptionalCode a code = .ok b) ↔ ∀ text, code = some text → Kind.bytes.Reads text := by
  cases code with
  | none => simp [readOptionalCode]
  | some s =>
    simp only [readOptionalCode, readCode_eq_ok_iff, Option.some_inj, forall_eq', Kind.Reads]

theorem exists_readSlot_iff {slot : String × String} :
    (∃ x, readSlot slot = .ok x) ↔ Kind.slotKey.Reads slot.1 ∧ Kind.bytes.Reads slot.2 := by
  simp only [readSlot_eq_ok_iff, readSlotKey_eq_ok_iff, readSlotValue_eq_ok_iff, Prod.exists,
    exists_and_left, exists_and_right, Kind.Reads]

theorem exists_mapM_eq_ok_iff {ε α β : Type} {f : α → Except ε β} {xs : List α} :
    (∃ ys, xs.mapM f = .ok ys) ↔ ∀ x ∈ xs, ∃ y, f x = .ok y := by
  induction xs with
  | nil => exact ⟨fun _ ↦ by simp, fun _ ↦ ⟨[], rfl⟩⟩
  | cons x xs ih =>
    rw [List.forall_mem_cons, ← ih]
    simp only [mapM_eq_ok_iff, List.forall₂_cons_left_iff]
    constructor
    · rintro ⟨_, y, ys, hy, hys, rfl⟩
      exact ⟨⟨y, hy⟩, ys, hys⟩
    · rintro ⟨⟨y, hy⟩, ys, hys⟩
      exact ⟨y :: ys, y, ys, hy, hys, rfl⟩

/-- **An entry is read if each of its texts can be read.** -/
theorem exists_readEntry_iff :
    (∃ r, readEntry (k, e) = .ok r) ↔ ∀ kind text, e.HasText k kind text → kind.Reads text := by
  simp only [readEntry_eq_ok_iff]
  constructor
  · rintro ⟨r, hr⟩ kind text htext
    have hslot : ∀ key value, e.storage[key]? = some value →
        Kind.slotKey.Reads key ∧ Kind.bytes.Reads value := by
      intro key value hvalue
      have hlisted := Std.ExtTreeMap.mem_toList_iff_getElem?_eq_some.mpr hvalue
      obtain ⟨x, -, hx⟩ := exists_mem_of_forall₂ hr.slots hlisted
      exact exists_readSlot_iff.mp ⟨x, hx⟩
    cases htext with
    | address => exact ⟨r.address, readAddress_eq_ok_iff.mp hr.address⟩
    | balance h => exact exists_readQuantity_iff.mp ⟨_, hr.balance⟩ text h
    | nonce h => exact exists_readQuantity_iff.mp ⟨_, hr.nonce⟩ text h
    | code h => exact exists_readOptionalCode_iff.mp ⟨_, hr.code⟩ text h
    | slotKey h => exact (hslot _ _ h).1
    | slotValue h => exact (hslot _ _ h).2
  · intro hall
    obtain ⟨a, ha⟩ := hall _ _ .address
    obtain ⟨balance, hbalance⟩ := exists_readQuantity_iff.mpr fun _ h ↦ hall _ _ (.balance h)
    obtain ⟨nonce, hnonce⟩ := exists_readQuantity_iff.mpr fun _ h ↦ hall _ _ (.nonce h)
    obtain ⟨code, hcode⟩ := exists_readOptionalCode_iff.mpr fun _ h ↦ hall _ _ (.code h)
    have hslots : ∃ slots, e.storage.toList.mapM readSlot = .ok slots := by
      refine exists_mapM_eq_ok_iff.mpr ?_
      rintro ⟨key, value⟩ hlisted
      have hvalue := Std.ExtTreeMap.mem_toList_iff_getElem?_eq_some.mp hlisted
      exact exists_readSlot_iff.mpr ⟨hall _ _ (.slotKey hvalue), hall _ _ (.slotValue hvalue)⟩
    obtain ⟨slots, hslots⟩ := hslots
    exact ⟨⟨a, balance, nonce, code, slots⟩, readAddress_eq_ok_iff.mpr ha, hbalance, hnonce, hcode,
      mapM_eq_ok_iff.mp hslots⟩

theorem exists_read_iff :
    (∃ rows, read allocation = .ok rows)
      ↔ ∀ kind text, allocation.HasText kind text → kind.Reads text := by
  rw [read, exists_mapM_eq_ok_iff]
  constructor
  · rintro hall kind text ⟨k, e, he, htext⟩
    exact exists_readEntry_iff.mp (hall (k, e)
      (Std.ExtTreeMap.mem_toList_iff_getElem?_eq_some.mpr he)) kind text htext
  · rintro hall ⟨k, e⟩ hlisted
    have he := Std.ExtTreeMap.mem_toList_iff_getElem?_eq_some.mp hlisted
    exact exists_readEntry_iff.mpr fun kind text htext ↦ hall kind text ⟨k, e, he, htext⟩

/-! ## What is not read -/

theorem getElem?_storage_filled {key value : String} :
    e.filled.storage[key]? = some value
      ↔ e.storage[key]? = some value ∧ ¬ Hex.Denotes value [] := by
  rw [Entry.filled, ← Hex.decode_eq_ok_iff]
  simp [Std.ExtTreeMap.getElem?_filter]

theorem HasText.of_filled {kind : Kind} {text : String}
    (h : allocation.filled.HasText kind text) : allocation.HasText kind text := by
  obtain ⟨k, e', he', htext⟩ := h
  rw [Allocation.filled, Std.ExtTreeMap.getElem?_map, Option.map_eq_some_iff] at he'
  obtain ⟨e, he, rfl⟩ := he'
  refine ⟨k, e, he, ?_⟩
  cases htext with
  | address => exact .address
  | balance h => exact .balance h
  | nonce h => exact .nonce h
  | code h => exact .code h
  | slotKey h => exact .slotKey (getElem?_storage_filled.mp h).1
  | slotValue h => exact .slotValue (getElem?_storage_filled.mp h).1

theorem HasText.filled {kind : Kind} {text : String} (h : allocation.HasText kind text) :
    allocation.filled.HasText kind text ∨ kind = .slotKey ∧ allocation.Skips text ∨
      kind = .bytes ∧ Hex.Denotes text [] := by
  obtain ⟨k, e, he, htext⟩ := h
  have he' : allocation.filled[k]? = some e.filled := by
    rw [Allocation.filled, Std.ExtTreeMap.getElem?_map, he]
    rfl
  cases htext with
  | address => exact .inl ⟨text, _, he', .address⟩
  | balance h => exact .inl ⟨k, _, he', .balance h⟩
  | nonce h => exact .inl ⟨k, _, he', .nonce h⟩
  | code h => exact .inl ⟨k, _, he', .code h⟩
  | @slotKey key value h =>
    by_cases hempty : Hex.Denotes value []
    · exact .inr (.inl ⟨rfl, k, e, he, value, h, hempty⟩)
    · exact .inl ⟨k, _, he', .slotKey (getElem?_storage_filled.mpr ⟨h, hempty⟩)⟩
  | slotValue h =>
    by_cases hempty : Hex.Denotes text []
    · exact .inr (.inr ⟨rfl, hempty⟩)
    · exact .inl ⟨k, _, he', .slotValue (getElem?_storage_filled.mpr ⟨h, hempty⟩)⟩

/-! ## What is refused -/

theorem exists_toState_iff :
    (∃ s, toState allocation = .ok s)
      ↔ ∀ kind text, allocation.filled.HasText kind text → kind.Reads text := by
  rw [← exists_read_iff, toState_eq]
  cases read allocation.filled with
  | error e => simp [Except.map]
  | ok rows => simp [Except.map]

theorem exists_error_iff :
    (∃ e, toState allocation = .error e) ↔ ¬ ∃ s, toState allocation = .ok s := by
  cases toState allocation <;> simp

/-- **Only malformed allocations are refused, and nearly all of them.** An allocation is refused
exactly if, its slots without value apart, it has a text that cannot be read. So it is malformed if
it is refused; and if it is loaded, each of its texts is what its kind asks for, has a plus sign or
is the key of a slot without value. -/
theorem toState_error_iff (allocation : Allocation) :
    ((∃ e, toState allocation = .error e) ↔
      ∃ kind text, allocation.filled.HasText kind text ∧ ¬ kind.Reads text) ∧
    (∀ (kind : Kind) text, kind.Admits text ↔ kind.Reads text ∧ '+' ∉ text.toList) ∧
    ((∃ e, toState allocation = .error e) → allocation.IsMalformed) ∧
    ((∃ s, toState allocation = .ok s) → ∀ kind text, allocation.HasText kind text →
      kind.Admits text ∨ '+' ∈ text.toList ∨ kind = .slotKey ∧ allocation.Skips text) := by
  have herror : (∃ e, toState allocation = .error e) ↔
      ∃ kind text, allocation.filled.HasText kind text ∧ ¬ kind.Reads text := by
    rw [exists_error_iff, exists_toState_iff]
    simp only [not_forall, exists_prop]
  refine ⟨herror, fun _ _ ↦ Kind.admits_iff, ?_, ?_⟩
  · intro hrefused
    obtain ⟨kind, text, htext, hread⟩ := herror.mp hrefused
    exact ⟨kind, text, htext.of_filled, fun hadmits ↦ hread (Kind.admits_iff.mp hadmits).1⟩
  · intro hloaded kind text htext
    have hclose : kind.Reads text → kind.Admits text ∨ '+' ∈ text.toList := by
      intro hread
      by_cases hplus : '+' ∈ text.toList
      · exact .inr hplus
      · exact .inl (Kind.admits_iff.mpr ⟨hread, hplus⟩)
    rcases htext.filled with hfilled | hskipped | ⟨rfl, hempty⟩
    · exact (hclose (exists_toState_iff.mp hloaded kind text hfilled)).imp_right .inl
    · exact .inr (.inr hskipped)
    · exact (hclose ⟨[], hempty⟩).imp_right .inl

/-- An allocation with a slot that has neither a key nor a value. -/
def nameless : Allocation :=
  .ofList [("0x01", { Entry.empty with storage := .ofList [("zz", "0x")] })]

/-- Not every malformed allocation is refused. -/
theorem not_forall_toState_error_iff :
    ¬ ∀ allocation : Allocation,
      (∃ e, toState allocation = .error e) ↔ allocation.IsMalformed := by
  intro h
  have hkey : ∀ key, ¬ Hex.DenotesPadded "zz" (key : Word) := by
    intro key hkey
    have hread : (readSlotKey "zz").toOption = none := by decide +kernel
    rw [readSlotKey_eq_ok_iff.mpr hkey] at hread
    cases hread
  have hmalformed : nameless.IsMalformed := by
    refine ⟨.slotKey, "zz", ⟨"0x01", _, rfl, .slotKey rfl⟩, ?_⟩
    intro hadmits
    obtain ⟨key, hdenotes⟩ := (Kind.admits_iff.mp hadmits).1
    exact hkey key hdenotes
  obtain ⟨e, he⟩ := (h nameless).mpr hmalformed
  have hloaded : (toState nameless).toOption.isSome := by decide +kernel
  rw [he] at hloaded
  cases hloaded

end Allocation

end ExecState
