import ExecState.Program.Requests
import ExecState.Proofs.Allocation.Loading
import ExecState.Proofs.Allocation.Rendering
import ExecState.Proofs.Commit.Binding
import ExecState.Proofs.Ledger.BlankSlots
import ExecState.Proofs.Text.Numeral

/-!
# What allocations mean

A text denotes accounts, these are what is loaded from it, and they settle the root.
-/

namespace ExecState

/-!
## What an allocation denotes

The text of an allocation denotes, for some addresses, what the accounts there hold. Here this is
said of the document itself: of the values of its members and of what the texts in them stand for.
Nothing depends on how members are ordered, on which spelling a text has, on whether a field is left
out or null, or on slots without value.

What is loaded is what the document denotes (`Allocation.denotes_iff`), as long as no two names in
it stand for one address, or for one slot of an account. Otherwise the order of the names decides,
which the denotation knows nothing of.
-/

/-! ### What is denoted -/

/-- What an account holds. -/
structure Holdings where
  balance : U256
  nonce : U256
  code : Bytes
  slot : Word → Bytes

/-- Whether there is a balance, a nonce or a code. -/
def Holdings.IsUsed (h : Holdings) : Prop := h.balance ≠ 0 ∨ h.nonce ≠ 0 ∨ h.code ≠ []

def Account.holdings (a : Account) : Holdings := ⟨a.balance, a.nonce, a.code, a.slot⟩

namespace Json.Value

/-- Whether a field is left out or null. -/
def IsAbsent (field : Option Value) : Prop := field = none ∨ field = some null

/-- Whether no two names of members stand for the same byte string. -/
def NamesApart (width : Nat) (v : Value) : Prop :=
  ∀ k ∈ v.names, ∀ l ∈ v.names, ∀ w : FixedBytes width,
    Hex.DenotesPadded k w → Hex.DenotesPadded l w → k = l

theorem NamesApart.eq {width : Nat} {v x y : Value} {k l : String} {w : FixedBytes width}
    (h : v.NamesApart width) (hx : v.member? k = some x) (hy : v.member? l = some y)
    (hk : Hex.DenotesPadded k w) (hl : Hex.DenotesPadded l w) : k = l :=
  h k (mem_names_of_member? hx) l (mem_names_of_member? hy) w hk hl

end Json.Value

/-- Whether a field denotes a balance or a nonce: an absent one is zero, and else it is a plain
number of 64 bits or a numeral. -/
def Quantity.Denotes (field : Option Json.Value) (n : U256) : Prop :=
  Json.Value.IsAbsent field ∧ n = 0 ∨
    ∃ v, field = some v ∧
      (v.natural? = some n.toNat ∧ n.toNat < UInt64.size ∨
        ∃ s, v.text? = some s ∧ TextDenotes s n.toNat)

namespace Entry

/-- Whether a field denotes a code; an absent one is empty. -/
def CodeDenotes (field : Option Json.Value) (code : Bytes) : Prop :=
  Json.Value.IsAbsent field ∧ code = [] ∨
    ∃ v s, field = some v ∧ v.text? = some s ∧ Hex.Denotes s code

/-- Whether a storage has a slot with a value. -/
def SlotDenotes (field : Option Json.Value) (key : Word) (value : Bytes) : Prop :=
  ∃ v k x s, field = some v ∧ v.member? k = some x ∧ x.text? = some s ∧
    Hex.DenotesPadded k key ∧ Hex.Denotes s value

/-- Whether a value denotes what an account holds. A slot holds a value that is not empty exactly if
the storage has it. -/
structure Denotes (x : Json.Value) (h : Holdings) : Prop where
  balance : Quantity.Denotes (field? .balance x) h.balance
  nonce : Quantity.Denotes (field? .nonce x) h.nonce
  code : CodeDenotes (field? .code x) h.code
  slot : ∀ key value, value ≠ [] →
    (h.slot key = value ↔ SlotDenotes (field? .storage x) key value)

end Entry

namespace Allocation

/-- Whether the text of an allocation denotes what the account at an address holds. -/
def Denotes (text : String) (a : Address) (h : Holdings) : Prop :=
  ∃ v k x, Json.read? text = some v ∧ v.member? k = some x ∧ Hex.DenotesPadded k a ∧
    Entry.Denotes x h

/-- Whether no two names in the text of an allocation stand for one address, or for one slot of an
account. -/
structure Unambiguous (text : String) : Prop where
  addresses : ∀ v, Json.read? text = some v → v.NamesApart 20
  slots : ∀ v k x storage, Json.read? text = some v → v.member? k = some x →
    Entry.field? .storage x = some storage → storage.NamesApart 32

end Allocation

/-! ### The readers of the fields -/

namespace Allocation

theorem readAddress_eq_ok_iff {k : String} {a : Address} :
    readAddress k = .ok a ↔ Hex.DenotesPadded k a := by
  rw [← Hex.decodePadded_eq_ok_iff (by decide), readAddress]
  cases Hex.decodePadded 20 k <;> simp

theorem readSlotKey_eq_ok_iff {k : String} {key : Word} :
    readSlotKey k = .ok key ↔ Hex.DenotesPadded k key := by
  rw [← Hex.decodePadded_eq_ok_iff (by decide), readSlotKey]
  cases Hex.decodePadded 32 k <;> simp

theorem readSlotValue_eq_ok_iff {s : String} {value : Bytes} :
    readSlotValue s = .ok value ↔ Hex.Denotes s value := by
  rw [← Hex.decode_eq_ok_iff, readSlotValue]
  cases Hex.decode s <;> simp

theorem readCode_eq_ok_iff {a : Address} {s : String} {code : Bytes} :
    readCode a s = .ok code ↔ Hex.Denotes s code := by
  rw [← Hex.decode_eq_ok_iff, readCode]
  cases Hex.decode s <;> simp

/-! #### Names that stand for the same can be found -/

theorem namesApart_iff {width : Nat} (hwidth : width ≤ Bytes.greatestSize) {v : Json.Value} :
    v.NamesApart width
      ↔ ∀ k ∈ v.names, ∀ l ∈ v.names, (Hex.decodePadded width k).toOption.isSome →
        Hex.decodePadded width k = Hex.decodePadded width l → k = l := by
  constructor
  · intro h k hk l hl hsome heq
    cases hread : Hex.decodePadded width k with
    | error e => rw [hread] at hsome; cases hsome
    | ok w =>
      have hread' : Hex.decodePadded width l = .ok w := heq.symm.trans hread
      exact h k hk l hl w ((Hex.decodePadded_eq_ok_iff hwidth).mp hread)
        ((Hex.decodePadded_eq_ok_iff hwidth).mp hread')
  · intro h k hk l hl w hdenotes hdenotes'
    have hread := (Hex.decodePadded_eq_ok_iff hwidth).mpr hdenotes
    have hread' := (Hex.decodePadded_eq_ok_iff hwidth).mpr hdenotes'
    refine h k hk l hl ?_ (hread.trans hread'.symm)
    rw [hread]
    rfl

instance (v : Json.Value) : Decidable (v.NamesApart 20) :=
  decidable_of_iff _ (namesApart_iff (by decide)).symm

instance (v : Json.Value) : Decidable (v.NamesApart 32) :=
  decidable_of_iff _ (namesApart_iff (by decide)).symm

instance (text : String) : Decidable (Unambiguous text) :=
  decidable_of_iff
    (∀ v, Json.read? text = some v → v.NamesApart 20 ∧ ∀ k ∈ v.names, ∀ x, v.member? k = some x →
      ∀ storage, Entry.field? .storage x = some storage → storage.NamesApart 32)
    ⟨fun h ↦ ⟨fun v hv ↦ (h v hv).1, fun v k x storage hv hx hstorage ↦
        (h v hv).2 k (Json.Value.mem_names_of_member? hx) x hx storage hstorage⟩,
      fun h v hv ↦ ⟨h.addresses v hv, fun k _ x hx storage hstorage ↦
        h.slots v k x storage hv hx hstorage⟩⟩

/-! #### Fields -/

variable {field : Option Json.Value}

theorem nullable?_eq_some_iff {α : Type} {read? : Json.Value → Option α} {q : Option α} :
    (field.getD .null).nullable? read? = some q
      ↔ Json.Value.IsAbsent field ∧ q = none ∨
        ∃ v a, field = some v ∧ v ≠ .null ∧ read? v = some a ∧ q = some a := by
  cases field with
  | none => simp [Json.Value.nullable?, Json.Value.IsAbsent, eq_comm]
  | some v =>
    cases v with
    | null => simp [Json.Value.nullable?, Json.Value.IsAbsent, eq_comm]
    | _ => simp [Json.Value.nullable?, Json.Value.IsAbsent, eq_comm]

theorem text?_eq_none_of_natural? {v : Json.Value} {n : Nat} (h : v.natural? = some n) :
    v.text? = none := by
  cases v with
  | number lexeme => rfl
  | _ => cases h

theorem value_eq_ok_iff {v : Json.Value} {q : Quantity} (h : Quantity.ofJson? v = some q)
    {n : U256} :
    q.value = .ok n
      ↔ v.natural? = some n.toNat ∧ n.toNat < UInt64.size ∨
        ∃ s, v.text? = some s ∧ Quantity.TextDenotes s n.toNat := by
  rw [Quantity.ofJson?] at h
  split at h
  · rename_i s htext
    cases h
    have hnatural : v.natural? = none := by
      refine Option.eq_none_iff_forall_ne_some.mpr fun m hm ↦ ?_
      rw [text?_eq_none_of_natural? hm] at htext
      cases htext
    rw [Quantity.value, Quantity.ofText_eq_ok_iff]
    simp [hnatural, htext]
  · rename_i m htext hnatural
    split at h
    · rename_i hm
      cases h
      have hvalue : (UInt64.ofNat m).toNat = m := by
        rw [UInt64.toNat_ofNat', Nat.mod_eq_of_lt hm]
      have hwide : m < 2 ^ 256 := Nat.lt_trans hm (by decide)
      rw [Quantity.value, hvalue, Except.ok.injEq, ← BitVec.toNat_inj, BitVec.toNat_ofNat,
        Nat.mod_eq_of_lt hwide]
      simp only [hnatural, htext, Option.some_inj, reduceCtorEq, false_and, exists_false, or_false]
      exact ⟨fun hmn ↦ ⟨hmn, hmn ▸ hm⟩, And.left⟩
    · cases h
  · cases h

theorem readQuantity_eq_ok_iff {q : Option Quantity} {n : U256}
    (h : (field.getD .null).nullable? Quantity.ofJson? = some q) :
    readQuantity q = .ok n ↔ Quantity.Denotes field n := by
  obtain ⟨habsent, rfl⟩ | ⟨v, quantity, rfl, hv, hread, rfl⟩ := nullable?_eq_some_iff.mp h
  · have hzero : readQuantity none = .ok n ↔ n = 0 := by
      rw [readQuantity, Except.ok.injEq]
      exact eq_comm
    rw [hzero, Quantity.Denotes]
    refine ⟨fun hn ↦ .inl ⟨habsent, hn⟩, fun hn ↦ hn.elim And.right ?_⟩
    rintro ⟨v, rfl, hv⟩
    obtain habsent | hnull := habsent
    · cases habsent
    · cases hnull
      simp [Json.Value.natural?, Json.Value.text?] at hv
  · rw [readQuantity, value_eq_ok_iff hread, Quantity.Denotes]
    simp [Json.Value.IsAbsent, hv]

theorem readOptionalCode_eq_ok_iff {a : Address} {text : Option String} {code : Bytes}
    (h : (field.getD .null).nullable? Json.Value.text? = some text) :
    readOptionalCode a text = .ok code ↔ Entry.CodeDenotes field code := by
  obtain ⟨habsent, rfl⟩ | ⟨v, s, rfl, hv, hread, rfl⟩ := nullable?_eq_some_iff.mp h
  · have hnil : readOptionalCode a none = .ok code ↔ code = [] := by
      rw [readOptionalCode, Except.ok.injEq]
      exact eq_comm
    rw [hnil, Entry.CodeDenotes]
    refine ⟨fun hn ↦ .inl ⟨habsent, hn⟩, fun hn ↦ hn.elim And.right ?_⟩
    rintro ⟨v, s, rfl, hs, -⟩
    obtain habsent | hnull := habsent
    · cases habsent
    · cases hnull
      cases hs
  · rw [readOptionalCode, readCode_eq_ok_iff, Entry.CodeDenotes]
    simp [Json.Value.IsAbsent, hv, hread]

/-! ### Entries -/

variable {x : Json.Value} {e : Entry} {k : String} {r : Reading}

theorem getElem?_storage_eq_some_iff (hx : Entry.ofJson? x = some e) {name s : String} :
    e.storage[name]? = some s
      ↔ ∃ v y, Entry.field? .storage x = some v ∧ v.member? name = some y ∧ y.text? = some s := by
  have hpart := Entry.hasPart_field? hx .storage
  rw [Json.Value.getElem?_of_toMap? hpart name, Option.bind_eq_some_iff]
  cases Entry.field? .storage x with
  | none =>
    have hnone : (Entry.Part.storage.absent).member? name = none := rfl
    simp [hnone]
  | some v => simp

theorem mem_slots_iff (hx : Entry.ofJson? x = some e) (hr : Reads (k, e.filled) r) {key : Word}
    {value : Bytes} :
    (key, value) ∈ r.slots
      ↔ value ≠ [] ∧ Entry.SlotDenotes (Entry.field? .storage x) key value := by
  have hslots := hr.slots
  rw [Entry.filled, Std.ExtTreeMap.toList_filter] at hslots
  constructor
  · intro hmem
    obtain ⟨⟨name, s⟩, hslot, hread⟩ := exists_mem_of_forall₂ hslots.flip hmem
    obtain ⟨hkey, hvalue⟩ := readSlot_eq_ok_iff.mp hread
    obtain ⟨hlisted, hfilled⟩ := List.mem_filter.mp hslot
    obtain ⟨v, y, hv, hy, hs⟩ := (getElem?_storage_eq_some_iff hx).mp
      (Std.ExtTreeMap.mem_toList_iff_getElem?_eq_some.mp hlisted)
    have hdenotes := readSlotValue_eq_ok_iff.mp hvalue
    refine ⟨?_, v, name, y, s, hv, hy, hs, readSlotKey_eq_ok_iff.mp hkey, hdenotes⟩
    rintro rfl
    exact of_decide_eq_true hfilled (Hex.decode_eq_ok_iff.mpr hdenotes)
  · rintro ⟨hne, v, name, y, s, hv, hy, hs, hkey, hvalue⟩
    have hlisted : (name, s) ∈ e.storage.toList :=
      Std.ExtTreeMap.mem_toList_iff_getElem?_eq_some.mpr
        ((getElem?_storage_eq_some_iff hx).mpr ⟨v, y, hv, hy, hs⟩)
    have hfilled : Hex.decode s ≠ .ok [] := by
      rw [Hex.decode_eq_ok_iff.mpr hvalue]
      simpa using hne
    obtain ⟨slot, hslot, hread⟩ := exists_mem_of_forall₂ hslots
      (List.mem_filter.mpr ⟨hlisted, decide_eq_true hfilled⟩)
    have hread' : readSlot (name, s) = .ok (key, value) := readSlot_eq_ok_iff.mpr
      ⟨readSlotKey_eq_ok_iff.mpr hkey, readSlotValue_eq_ok_iff.mpr hvalue⟩
    rw [hread', Except.ok.injEq] at hread
    exact hread ▸ hslot

/-- Where no two entries of a row pass a test, it does not matter which of them is found. -/
theorem find?_reverse_eq_some_iff {α : Type} {p : α → Bool} {l : List α}
    (h : ∀ a ∈ l, ∀ b ∈ l, p a = true → p b = true → a = b) {a : α} :
    l.reverse.find? p = some a ↔ a ∈ l ∧ p a = true := by
  constructor
  · intro hfind
    exact ⟨List.mem_reverse.mp (List.mem_of_find?_eq_some hfind), List.find?_some hfind⟩
  · rintro ⟨ha, hpa⟩
    have hsome : (l.reverse.find? p).isSome :=
      List.find?_isSome.mpr ⟨a, List.mem_reverse.mpr ha, hpa⟩
    obtain ⟨b, hb⟩ := Option.isSome_iff_exists.mp hsome
    have hmem := List.mem_reverse.mp (List.mem_of_find?_eq_some hb)
    rw [hb, h b hmem a ha (List.find?_some hb) hpa]

theorem slot_eq_of_key_eq (hx : Entry.ofJson? x = some e) (hr : Reads (k, e.filled) r)
    (hapart : ∀ storage, Entry.field? .storage x = some storage → storage.NamesApart 32)
    {s t : Word × Bytes} (hs : s ∈ r.slots) (ht : t ∈ r.slots) (hkey : s.1 = t.1) : s = t := by
  obtain ⟨key, value⟩ := s
  obtain ⟨key', value'⟩ := t
  obtain rfl : key = key' := hkey
  obtain ⟨storage, n₁, y₁, s₁, hstorage, hy₁, hs₁, hn₁, hv₁⟩ := ((mem_slots_iff hx hr).mp hs).2
  obtain ⟨storage', n₂, y₂, s₂, hstorage', hy₂, hs₂, hn₂, hv₂⟩ := ((mem_slots_iff hx hr).mp ht).2
  rw [hstorage, Option.some_inj] at hstorage'
  subst hstorage'
  obtain rfl := (hapart storage hstorage).eq hy₁ hy₂ hn₁ hn₂
  rw [hy₁, Option.some_inj] at hy₂
  rw [← hy₂, hs₁, Option.some_inj] at hs₂
  subst hs₂
  have hvalue := Hex.decode_eq_ok_iff.mpr hv₁
  rw [Hex.decode_eq_ok_iff.mpr hv₂, Except.ok.injEq] at hvalue
  rw [hvalue]

/-- Where every slot is read once, a slot has the value that is read. -/
theorem value_eq_iff_mem (h : ∀ s ∈ r.slots, ∀ t ∈ r.slots, s.1 = t.1 → s = t) {key : Word}
    {value : Bytes} (hne : value ≠ []) : r.value key = value ↔ (key, value) ∈ r.slots := by
  have hlast : ∀ slot, r.slots.reverse.find? (·.1 = key) = some slot
      ↔ slot ∈ r.slots ∧ slot.1 = key := by
    intro slot
    rw [find?_reverse_eq_some_iff, decide_eq_true_iff]
    intro s hs t ht hs' ht'
    exact h s hs t ht ((of_decide_eq_true hs').trans (of_decide_eq_true ht').symm)
  rw [Reading.value]
  constructor
  · intro hvalue
    cases hfind : r.slots.reverse.find? (·.1 = key) with
    | none =>
      rw [hfind] at hvalue
      exact absurd hvalue.symm hne
    | some slot =>
      rw [hfind] at hvalue
      obtain ⟨hslot, rfl⟩ := (hlast slot).mp hfind
      obtain rfl : slot.2 = value := hvalue
      exact hslot
  · intro hslot
    rw [(hlast (key, value)).mpr ⟨hslot, rfl⟩]
    rfl

/-- A slot that is read has one value where no two names stand for it. -/
theorem value_eq_iff (hx : Entry.ofJson? x = some e) (hr : Reads (k, e.filled) r)
    (hapart : ∀ storage, Entry.field? .storage x = some storage → storage.NamesApart 32)
    {key : Word} {value : Bytes} (hne : value ≠ []) :
    r.value key = value ↔ Entry.SlotDenotes (Entry.field? .storage x) key value := by
  rw [value_eq_iff_mem (fun _ hs _ ht ↦ slot_eq_of_key_eq hx hr hapart hs ht) hne,
    mem_slots_iff hx hr]
  exact and_iff_right hne

theorem slot_eq_of_forall_ne_nil {f g : Word → Bytes}
    (h : ∀ key value, value ≠ [] → (f key = value ↔ g key = value)) : f = g := by
  funext key
  by_cases hnil : f key = []
  · by_contra hne
    have hfilled : g key ≠ [] := fun hempty ↦ hne (hnil.trans hempty.symm)
    exact hne ((h key _ hfilled).mpr rfl)
  · exact ((h key _ hnil).mp rfl).symm

theorem holdings_account (r : Reading) :
    r.account.holdings = ⟨r.balance, r.nonce, r.code, r.value⟩ := by
  have hslot : r.account.slot = r.value := funext r.slot_account
  rw [Account.holdings, hslot, Reading.account, Account.setSlots_eq]
  rfl

/-- **What is read of an entry is what it denotes.** -/
theorem denotes_entry_iff (hx : Entry.ofJson? x = some e) (hr : Reads (k, e.filled) r)
    (hapart : ∀ storage, Entry.field? .storage x = some storage → storage.NamesApart 32)
    {h : Holdings} : Entry.Denotes x h ↔ r.account.holdings = h := by
  have hbalance : ∀ n, readQuantity e.balance = .ok n
      ↔ Quantity.Denotes (Entry.field? .balance x) n :=
    fun _ ↦ readQuantity_eq_ok_iff (Entry.hasPart_field? hx .balance)
  have hnonce : ∀ n, readQuantity e.nonce = .ok n ↔ Quantity.Denotes (Entry.field? .nonce x) n :=
    fun _ ↦ readQuantity_eq_ok_iff (Entry.hasPart_field? hx .nonce)
  have hcode : ∀ code, readOptionalCode r.address e.code = .ok code
      ↔ Entry.CodeDenotes (Entry.field? .code x) code :=
    fun _ ↦ readOptionalCode_eq_ok_iff (Entry.hasPart_field? hx .code)
  have hvalue : ∀ {key : Word} {value : Bytes}, value ≠ [] →
      (r.value key = value ↔ Entry.SlotDenotes (Entry.field? .storage x) key value) :=
    value_eq_iff hx hr hapart
  rw [holdings_account]
  constructor
  · intro hdenotes
    have hbalance' : r.balance = h.balance :=
      Except.ok.inj (hr.balance.symm.trans ((hbalance _).mpr hdenotes.balance))
    have hnonce' : r.nonce = h.nonce :=
      Except.ok.inj (hr.nonce.symm.trans ((hnonce _).mpr hdenotes.nonce))
    have hcode' : r.code = h.code :=
      Except.ok.inj (hr.code.symm.trans ((hcode _).mpr hdenotes.code))
    have hslot : r.value = h.slot := slot_eq_of_forall_ne_nil fun key value hne ↦
      (hvalue hne).trans (hdenotes.slot key value hne).symm
    rw [hbalance', hnonce', hcode', hslot]
  · rintro rfl
    exact
      { balance := (hbalance _).mp hr.balance
        nonce := (hnonce _).mp hr.nonce
        code := (hcode _).mp hr.code
        slot := fun key value hne ↦ hvalue hne }

/-! ### Documents -/

variable {allocation : Allocation} {rows : List Reading} {v : Json.Value} {s : WorldState}
  {a : Address} {account : Account} {text : String}

theorem mem_rows_iff (h : read allocation.filled = .ok rows) :
    r ∈ rows ↔ ∃ k e, allocation[k]? = some e ∧ Reads (k, e.filled) r := by
  have hrows := mapM_eq_ok_iff.mp h
  rw [filled, Std.ExtTreeMap.toList_map, List.forall₂_map_left_iff] at hrows
  constructor
  · intro hr
    obtain ⟨⟨k, e⟩, hlisted, hread⟩ := exists_mem_of_forall₂ hrows.flip hr
    exact ⟨k, e, Std.ExtTreeMap.mem_toList_iff_getElem?_eq_some.mp hlisted,
      readEntry_eq_ok_iff.mp hread⟩
  · rintro ⟨k, e, he, hreads⟩
    obtain ⟨r', hr', hread⟩ := exists_mem_of_forall₂ hrows
      (Std.ExtTreeMap.mem_toList_iff_getElem?_eq_some.mpr he)
    exact hreads.eq (readEntry_eq_ok_iff.mp hread) ▸ hr'

theorem exists_rows_of_load (hload : WorldState.ofAllocationText text = .ok s) :
    ∃ v allocation rows, Json.read? text = some v ∧ ofJson? v = some allocation ∧
      read allocation.filled = .ok rows ∧
      s = WorldState.empty.insertAll (rows.map Reading.account) := by
  rw [WorldState.ofAllocationText, ofText?] at hload
  cases hv : Json.read? text with
  | none => rw [hv] at hload; cases hload
  | some v =>
    rw [hv, Option.bind_some] at hload
    cases hallocation : ofJson? v with
    | none => rw [hallocation] at hload; cases hload
    | some allocation =>
      rw [hallocation] at hload
      have hstate : allocation.toState = .ok s := hload
      rw [toState_eq] at hstate
      cases hrows : read allocation.filled with
      | error e => rw [hrows] at hstate; cases hstate
      | ok rows =>
        rw [hrows] at hstate
        exact ⟨v, allocation, rows, rfl, hallocation, hrows, (Except.ok.inj hstate).symm⟩

theorem mem_rows_iff_member (hv : ofJson? v = some allocation)
    (hrows : read allocation.filled = .ok rows) :
    r ∈ rows
      ↔ ∃ k x e, v.member? k = some x ∧ Entry.ofJson? x = some e ∧ Reads (k, e.filled) r := by
  simp only [mem_rows_iff hrows, Json.Value.getElem?_of_toMap? hv, Option.bind_eq_some_iff]
  constructor
  · rintro ⟨k, e, ⟨x, hx, he⟩, hr⟩
    exact ⟨k, x, e, hx, he, hr⟩
  · rintro ⟨k, x, e, hx, he, hr⟩
    exact ⟨k, e, ⟨x, hx, he⟩, hr⟩

theorem exists_row_of_member (hv : ofJson? v = some allocation)
    (hrows : read allocation.filled = .ok rows) (hx : v.member? k = some x) :
    ∃ e r, Entry.ofJson? x = some e ∧ Reads (k, e.filled) r := by
  obtain ⟨e, he, hlisted⟩ := Json.Value.exists_of_member? hv hx
  have hreads := mapM_eq_ok_iff.mp hrows
  rw [filled, Std.ExtTreeMap.toList_map, List.forall₂_map_left_iff] at hreads
  obtain ⟨r, -, hr⟩ := exists_mem_of_forall₂ hreads
    (Std.ExtTreeMap.mem_toList_iff_getElem?_eq_some.mpr hlisted)
  exact ⟨e, r, he, readEntry_eq_ok_iff.mp hr⟩

theorem row_eq_of_address_eq (hv : ofJson? v = some allocation)
    (hrows : read allocation.filled = .ok rows) (hapart : v.NamesApart 20) {r r' : Reading}
    (hr : r ∈ rows) (hr' : r' ∈ rows) (h : r.address = r'.address) : r = r' := by
  obtain ⟨k, x, e, hx, he, hreads⟩ := (mem_rows_iff_member hv hrows).mp hr
  obtain ⟨k', x', e', hx', he', hreads'⟩ := (mem_rows_iff_member hv hrows).mp hr'
  have hk := readAddress_eq_ok_iff.mp hreads.address
  have hk' := readAddress_eq_ok_iff.mp hreads'.address
  obtain rfl := hapart.eq hx hx' hk (h ▸ hk')
  rw [hx, Option.some_inj] at hx'
  rw [← hx', he, Option.some_inj] at he'
  rw [← he'] at hreads'
  exact hreads.eq hreads'

theorem holdings_insertAll_eq_some_iff
    (h : ∀ r ∈ rows, ∀ r' ∈ rows, r.address = r'.address → r = r') {held : Holdings} :
    ((WorldState.empty.insertAll (rows.map Reading.account)).account? a).map Account.holdings
        = some held
      ↔ ∃ r ∈ rows, r.address = a ∧ r.account.holdings = held := by
  have hlast : ∀ r, Reading.lastAt? a rows = some r ↔ r ∈ rows ∧ r.address = a := by
    intro r
    rw [Reading.lastAt?, find?_reverse_eq_some_iff, decide_eq_true_iff]
    intro r hr r' hr' ha ha'
    exact h r hr r' hr' ((of_decide_eq_true ha).trans (of_decide_eq_true ha').symm)
  rw [Reading.account?_insertAll_map Reading.account Reading.address_account, Option.map_map,
    Option.map_eq_some_iff]
  simp only [hlast, and_assoc, Function.comp_apply]

/-- **What is loaded is what the document denotes.** -/
theorem denotes_iff (hload : WorldState.ofAllocationText text = .ok s) (hu : Unambiguous text)
    {h : Holdings} : Denotes text a h ↔ (s.account? a).map Account.holdings = some h := by
  obtain ⟨v, allocation, rows, hv, hallocation, hrows, rfl⟩ := exists_rows_of_load hload
  rw [holdings_insertAll_eq_some_iff fun r hr r' hr' ↦
    row_eq_of_address_eq hallocation hrows (hu.addresses v hv) hr hr']
  constructor
  · rintro ⟨v', k, x, hv', hx, hk, hdenotes⟩
    rw [hv, Option.some_inj] at hv'
    subst hv'
    obtain ⟨e, r, he, hr⟩ := exists_row_of_member hallocation hrows hx
    have ha : readAddress k = .ok a := readAddress_eq_ok_iff.mpr hk
    have hrow := (mem_rows_iff_member hallocation hrows).mpr ⟨k, x, e, hx, he, hr⟩
    exact ⟨r, hrow, Except.ok.inj (hr.address.symm.trans ha),
      (denotes_entry_iff he hr fun storage ↦ hu.slots v k x storage hv hx).mp hdenotes⟩
  · rintro ⟨r, hrow, rfl, hholdings⟩
    obtain ⟨k, x, e, hx, he, hr⟩ := (mem_rows_iff_member hallocation hrows).mp hrow
    exact ⟨v, k, x, hv, hx, readAddress_eq_ok_iff.mp hr.address,
      (denotes_entry_iff he hr fun storage ↦ hu.slots v k x storage hv hx).mpr hholdings⟩

end Allocation

namespace Program

/-!
## The root of what is denoted

Two texts of allocations that denote the same accounts have one root, however different they look:
they may list the accounts in another order, so that these are created and committed in another
order, spell addresses, keys and numbers differently, leave fields out or set them to null, and name
slots without value or accounts without anything in them.

The argument goes through the two world states. What is loaded is what the text denotes, so the
same accounts take part in both commitments, and these determine the root.
-/

/-- Whether everyone who asks for the root of a text in a mode is told this digest, whatever the
machine, the settings and the number of workers, and whether the text is at hand or in a file. -/
structure IsRootOf (secure : Bool) (text : String) (root : Word) : Prop where
  ofText : ∀ schedule c asked threads, (asked || c.secureTrie) = secure →
    rootOfText schedule c asked threads text = .ok root
  ofFile : ∀ {m : Type → Type} [Monad m] [LawfulMonad m] (disk : Disk m) c (r : RootRequest),
    (r.secure || c.secureTrie) = secure → disk.read r.file = pure (.ok text) →
      stateRoot disk c r = pure (.ok root)

theorem isRootOf_of_yieldsRoot {secure : Bool} {text : String} {s : WorldState} {root : Word}
    (hload : WorldState.ofAllocationText text = .ok s) (h : Commit.YieldsRoot secure s root) :
    IsRootOf secure text root := by
  have htext : ∀ schedule c asked threads, (asked || c.secureTrie) = secure →
      rootOfText schedule c asked threads text = .ok root := by
    intro schedule c asked threads hmode
    rw [rootOfText, hload]
    dsimp only
    rw [hmode, h schedule _]
  refine ⟨htext, fun disk c r hmode hread ↦ ?_⟩
  rw [stateRoot, hread, pure_bind]
  exact congrArg pure (htext _ c r.secure r.threads hmode)

end Program

namespace Allocation

variable {text text₁ text₂ : String} {s s₁ s₂ : WorldState} {a : Address} {account : Account}

theorem destroyed_of_load (hload : WorldState.ofAllocationText text = .ok s)
    (haccount : s.account? a = some account) : account.destroyed = false := by
  obtain ⟨v, allocation, rows, -, -, -, rfl⟩ := exists_rows_of_load hload
  rw [Reading.account?_insertAll_map Reading.account Reading.address_account] at haccount
  obtain ⟨r, -, rfl⟩ := Option.map_eq_some_iff.mp haccount
  rw [Reading.account, Account.setSlots_eq]
  rfl

theorem isCommittable_iff (h : account.destroyed = false) :
    account.isCommittable = true ↔ account.holdings.IsUsed := by
  have hempty : account.isEmpty = true ↔ ¬account.holdings.IsUsed := by
    simp only [Account.isEmpty, Holdings.IsUsed, Account.holdings, Bool.and_eq_true,
      decide_eq_true_eq, List.isEmpty_iff]
    tauto
  rw [Account.isCommittable, h, Bool.or_false, Bool.not_eq_true', ← Bool.not_eq_true, hempty,
    not_not]

theorem contents_eq_of_load {b : Account} (h₁ : WorldState.ofAllocationText text₁ = .ok s₁)
    (h₂ : WorldState.ofAllocationText text₂ = .ok s₂) (ha : s₁.account? a = some account)
    (hb : s₂.account? a = some b) (h : account.holdings = b.holdings) :
    account.contents = b.contents := by
  obtain ⟨hbalance, hnonce, hcode, hslot⟩ := Holdings.mk.inj h
  have htidy : account.IsTidy :=
    fun key hblank ↦ WorldState.not_hasBlank_ofAllocationText h₁ a key ⟨account, ha, hblank⟩
  have htidy' : b.IsTidy :=
    fun key hblank ↦ WorldState.not_hasBlank_ofAllocationText h₂ a key ⟨b, hb, hblank⟩
  have hstorage := htidy.storage_eq_of_slot_eq htidy' fun key ↦ congrFun hslot key
  have haddress : account.address = b.address := by
    rw [(WorldState.reachable_ofAllocationText h₁).indexed.address_eq ha,
      (WorldState.reachable_ofAllocationText h₂).indexed.address_eq hb]
  rw [Account.contents, Account.contents, haddress, hnonce, hbalance, hcode, hstorage]

theorem mem_contents_of_denotes (h₁ : WorldState.ofAllocationText text₁ = .ok s₁)
    (h₂ : WorldState.ofAllocationText text₂ = .ok s₂) (hu₁ : Unambiguous text₁)
    (hu₂ : Unambiguous text₂) (hsame : ∀ a h, h.IsUsed → Denotes text₁ a h → Denotes text₂ a h)
    {c : Address × U256 × U256 × Bytes × Storage} (hc : c ∈ s₁.committable.map Account.contents) :
    c ∈ s₂.committable.map Account.contents := by
  obtain ⟨account, haccount, rfl⟩ := List.mem_map.mp hc
  obtain ⟨hget, hcommittable⟩ :=
    (WorldState.reachable_ofAllocationText h₁).mem_committable.mp haccount
  have hused := (isCommittable_iff (destroyed_of_load h₁ hget)).mp hcommittable
  have hdenotes : Denotes text₁ account.address account.holdings :=
    (denotes_iff h₁ hu₁).mpr (by rw [hget]; rfl)
  obtain ⟨b, hb, hholdings⟩ :=
    Option.map_eq_some_iff.mp ((denotes_iff h₂ hu₂).mp (hsame _ _ hused hdenotes))
  have haddress := (WorldState.reachable_ofAllocationText h₂).indexed.address_eq hb
  have hcommittable' : b.isCommittable = true :=
    (isCommittable_iff (destroyed_of_load h₂ hb)).mpr (hholdings ▸ hused)
  refine List.mem_map.mpr ⟨b, ?_, (contents_eq_of_load h₁ h₂ hget hb hholdings.symm).symm⟩
  exact (WorldState.reachable_ofAllocationText h₂).mem_committable.mpr
    ⟨haddress ▸ hb, hcommittable'⟩

/-- **One root for one denotation.** If two texts denote the same accounts, those that are not used
left aside, and no two names in either stand for the same, they have one root. Where keys are hashed
this takes that the digests tell the keys of what is loaded apart. -/
theorem exists_root_of_denotes_iff {secure : Bool} (h₁ : WorldState.ofAllocationText text₁ = .ok s₁)
    (h₂ : WorldState.ofAllocationText text₂ = .ok s₂) (hu₁ : Unambiguous text₁)
    (hu₂ : Unambiguous text₂) (hapart : secure = true → Commit.PathsApart true s₁)
    (hsame : ∀ a h, h.IsUsed → (Denotes text₁ a h ↔ Denotes text₂ a h)) :
    ∃ root, Program.IsRootOf secure text₁ root ∧ Program.IsRootOf secure text₂ root := by
  have hcommittable : s₁.SameCommittable s₂ := fun _ ↦
    ⟨mem_contents_of_denotes h₁ h₂ hu₁ hu₂ fun a h hused ↦ (hsame a h hused).mp,
      mem_contents_of_denotes h₂ h₁ hu₂ hu₁ fun a h hused ↦ (hsame a h hused).mpr⟩
  have hpaths : Commit.PathsApart secure s₁ := by
    cases secure with
    | false => exact Commit.pathsApart_of_plain s₁
    | true => exact hapart rfl
  obtain ⟨root, hroot₁, hroot₂⟩ := Commit.exists_yieldsRoot hpaths
    (WorldState.reachable_ofAllocationText h₁) hcommittable
  exact ⟨root, Program.isRootOf_of_yieldsRoot h₁ hroot₁, Program.isRootOf_of_yieldsRoot h₂ hroot₂⟩

/-- The text of two accounts that are used and of one that is not. -/
def prefixedText : String :=
  "\x7b\"0x01\":\x7b\"balance\":\"0x10\",\"code\":\"0x60\"," ++
    "\"storage\":\x7b\"0x00\":\"0x2a\",\"0x1\":\"0x\"\x7d\x7d," ++
    "\"0xbb\":\x7b\"nonce\":\"0x1\"\x7d,\"2\":\x7b\x7d\x7d"

/-- The same two accounts in another spelling, which are read in the other order. -/
def bareText : String :=
  "\x7b \"0xBB\": [null, 1], \"1\": \x7b\"storage\": \x7b\"0\": \"0X2A\"\x7d, \"nonce\": null," ++
    " \"code\": \" 60 \", \"balance\": 16\x7d \x7d"

/-- What the texts say of the accounts that are used. -/
def usedRows : List Reading :=
  [⟨WorldState.ending 1, 16, 0, [0x60], [(FixedBytes.zero, [0x2a])]⟩,
    ⟨WorldState.ending 0xbb, 0, 1, [], []⟩]

/-- What the first text says of the account that is not used. -/
def unusedRow : Reading := ⟨WorldState.ending 2, 0, 0, [], []⟩

/-- The world state that is loaded from the first text. -/
def prefixedState : WorldState :=
  WorldState.empty.insertAll ((usedRows ++ [unusedRow]).map Reading.account)

theorem pathsApart_prefixedState : Commit.PathsApart true prefixedState := by
  have hcommittable : prefixedState.committable = usedRows.map Reading.account := by decide +kernel
  have hdigests :
      ((usedRows.map Reading.account).map fun a ↦ Keccak.hash a.address.bytes).Nodup := by
    simp only [Keccak.Grid.hash_eq]
    decide +kernel
  have hkeys : ∀ a ∈ usedRows.map Reading.account, ∀ k ∈ a.storage.keys, k = FixedBytes.zero := by
    decide +kernel
  refine ⟨fun _ ↦ ?_, fun a ha _ ↦ ?_⟩
  · rw [hcommittable]
    rintro _ ⟨a, ha, rfl⟩ _ ⟨b, hb, rfl⟩ hdigest
    rw [List.inj_on_of_nodup_map hdigests ha hb hdigest]
  · rw [hcommittable] at ha
    rintro _ ⟨k, hk, rfl⟩ _ ⟨l, hl, rfl⟩ -
    rw [hkeys a ha k (Std.ExtTreeMap.mem_keys.mpr hk),
      hkeys a ha l (Std.ExtTreeMap.mem_keys.mpr hl)]

theorem exists_root_of_denotes_iff_respelled :
    WorldState.ofAllocationText prefixedText = .ok prefixedState ∧
      ∃ root, Program.IsRootOf true prefixedText root ∧ Program.IsRootOf true bareText root := by
  have h₁ : WorldState.ofAllocationText prefixedText = .ok prefixedState := by decide +kernel
  have h₂ : WorldState.ofAllocationText bareText
      = .ok (WorldState.empty.insertAll (usedRows.reverse.map Reading.account)) := by
    decide +kernel
  have hu₁ : Unambiguous prefixedText := by decide +kernel
  have hu₂ : Unambiguous bareText := by decide +kernel
  refine ⟨h₁, exists_root_of_denotes_iff h₁ h₂ hu₁ hu₂ (fun _ ↦ pathsApart_prefixedState)
    fun a h hused ↦ ?_⟩
  -- both texts denote what their rows say, and the row that only one of them has is not used
  have hunused : unusedRow.account.holdings ≠ h := by
    rintro rfl
    revert hused
    simp [Holdings.IsUsed, holdings_account, unusedRow]
  rw [denotes_iff h₁ hu₁, denotes_iff h₂ hu₂, prefixedState,
    holdings_insertAll_eq_some_iff (by decide +kernel),
    holdings_insertAll_eq_some_iff (by decide +kernel)]
  simp [hunused, or_and_right, exists_or]

end Allocation

end ExecState
