import ExecState.Proofs.Ledger.Order

/-!
# Reading first, storing afterwards

Loading an allocation goes through its texts and builds the world state on the way. Nothing that it
has built decides how a text is read, so the two can be told apart: all texts are read first, and
then every account is stored in one go (`Allocation.toState_eq`). What comes of a text that cannot
be read is the same either way, since both stop at the first one.

A slot whose value is empty is passed over with its key, readable or not. So what is read is the
allocation without such slots (`Allocation.filled`).
-/

namespace ExecState

/-! ## What the texts denote -/

/-- What the texts of an entry and the text of its address denote. -/
structure Reading where
  address : Address
  balance : U256
  nonce : U256
  code : Bytes
  /-- Keys and values, in the order of the texts of the keys. -/
  slots : List (Word × Bytes)
deriving DecidableEq

namespace Account

def bare (address : Address) (balance nonce : U256) (code : Bytes) : Account :=
  { address, code, nonce, balance, destroyed := false, storage := ∅ }

theorem address_bare (address : Address) (balance nonce : U256) (code : Bytes) :
    (bare address balance nonce code).address = address :=
  rfl

/-- The account after some storage keys took values, one after the other. -/
def setSlots (a : Account) (slots : List (Word × Bytes)) : Account :=
  slots.foldl (fun a slot ↦ a.setSlot slot.1 slot.2) a

theorem setSlots_concat (a : Account) (slots : List (Word × Bytes)) (slot : Word × Bytes) :
    a.setSlots (slots ++ [slot]) = (a.setSlots slots).setSlot slot.1 slot.2 :=
  List.foldl_append

theorem slot_setSlots (a : Account) (slots : List (Word × Bytes)) (key : Word) :
    (a.setSlots slots).slot key
      = (slots.reverse.find? (·.1 = key)).elim (a.slot key) Prod.snd := by
  induction slots using List.reverseRecOn with
  | nil => rfl
  | append_singleton slots slot ih =>
    rw [setSlots_concat, slot_setSlot, List.reverse_append, List.reverse_singleton,
      List.singleton_append, List.find?_cons]
    by_cases hkey : slot.1 = key
    · rw [if_pos hkey, decide_eq_true hkey]
      rfl
    · rw [if_neg hkey, decide_eq_false hkey]
      exact ih

theorem setSlots_eq (a : Account) (slots : List (Word × Bytes)) :
    a.setSlots slots = { a with storage := (a.setSlots slots).storage } := by
  induction slots generalizing a with
  | nil => rfl
  | cons slot slots ih => exact ih (a.setSlot slot.1 slot.2)

@[simp] theorem address_setSlots (a : Account) (slots : List (Word × Bytes)) :
    (a.setSlots slots).address = a.address := by
  rw [setSlots_eq]

end Account

def Reading.account (r : Reading) : Account :=
  (Account.bare r.address r.balance r.nonce r.code).setSlots r.slots

@[simp] theorem Reading.address_account (r : Reading) : r.account.address = r.address :=
  Account.address_setSlots _ _

/-- The value that the last text of a slot denotes; a slot without text has the empty one. -/
def Reading.value (r : Reading) (key : Word) : Bytes :=
  (r.slots.reverse.find? (·.1 = key)).elim [] Prod.snd

theorem Reading.slot_account (r : Reading) (key : Word) : r.account.slot key = r.value key :=
  Account.slot_setSlots _ r.slots key

/-- The entry without the slots whose value is empty. -/
def Entry.filled (e : Entry) : Entry :=
  { e with storage := e.storage.filter fun _ value ↦ decide (Hex.decode value ≠ .ok []) }

namespace Allocation

/-- The allocation without the slots whose value is empty. -/
def filled (allocation : Allocation) : Allocation := allocation.map fun _ e ↦ e.filled

/-- A balance or a nonce; an absent one is zero. -/
def readQuantity : Option Quantity → Except AllocationError U256
  | none => .ok 0
  | some q => q.value

/-- The code of an entry; an absent one is empty. -/
def readOptionalCode (a : Address) : Option String → Except AllocationError Bytes
  | none => .ok []
  | some text => readCode a text

/-- The storage key and the storage value that two texts denote. -/
def readSlot (slot : String × String) : Except AllocationError (Word × Bytes) := do
  let value ← readSlotValue slot.2
  return (← readSlotKey slot.1, value)

/-- What the texts of an entry denote. -/
def readEntry (entry : String × Entry) : Except AllocationError Reading := do
  let address ← readAddress entry.1
  let balance ← readQuantity entry.2.balance
  let nonce ← readQuantity entry.2.nonce
  let code ← readOptionalCode address entry.2.code
  let slots ← entry.2.storage.toList.mapM readSlot
  return { address, balance, nonce, code, slots }

/-- What the texts of an allocation denote, in the order of the texts of the addresses. -/
def read (allocation : Allocation) : Except AllocationError (List Reading) :=
  allocation.toList.mapM readEntry

end Allocation

theorem mapM_eq_ok_iff {ε α β : Type} {f : α → Except ε β} {xs : List α} {ys : List β} :
    xs.mapM f = .ok ys ↔ List.Forall₂ (fun x y ↦ f x = .ok y) xs ys := by
  induction xs generalizing ys with
  | nil =>
    rw [List.mapM_nil, List.forall₂_nil_left_iff]
    exact ⟨fun h ↦ (Except.ok.inj h).symm, fun h ↦ h ▸ rfl⟩
  | cons x xs ih =>
    rw [List.mapM_cons, bind_eq_ok_iff, List.forall₂_cons_left_iff]
    refine exists_congr fun y ↦ ?_
    rw [bind_eq_ok_iff]
    refine ⟨fun ⟨hy, rest, hrest, h⟩ ↦ ?_, fun ⟨rest, hy, hrest, h⟩ ↦ ?_⟩
    · exact ⟨rest, hy, ih.mp hrest, (Except.ok.inj h).symm⟩
    · exact ⟨hy, rest, ih.mpr hrest, h ▸ rfl⟩

theorem exists_mem_of_forall₂ {α β : Type} {R : α → β → Prop} {xs : List α} {ys : List β}
    (h : List.Forall₂ R xs ys) {x : α} (hx : x ∈ xs) : ∃ y ∈ ys, R x y := by
  induction h with
  | nil => cases hx
  | cons hxy _ ih =>
    obtain rfl | hx := List.mem_cons.mp hx
    · exact ⟨_, List.mem_cons_self, hxy⟩
    · obtain ⟨y, hy, hR⟩ := ih hx
      exact ⟨y, List.mem_cons_of_mem _ hy, hR⟩

namespace Allocation

theorem readSlot_eq_ok_iff {slot : String × String} {x : Word × Bytes} :
    readSlot slot = .ok x ↔ readSlotKey slot.1 = .ok x.1 ∧ readSlotValue slot.2 = .ok x.2 := by
  rw [readSlot, bind_eq_ok_iff]
  refine ⟨fun ⟨value, hvalue, h⟩ ↦ ?_, fun ⟨hkey, hvalue⟩ ↦ ⟨x.2, hvalue, ?_⟩⟩
  · obtain ⟨key, hkey, h⟩ := bind_eq_ok_iff.mp h
    cases h
    exact ⟨hkey, hvalue⟩
  · exact bind_eq_ok_iff.mpr ⟨x.1, hkey, rfl⟩

/-- What reading an entry says of its texts, one by one. -/
structure Reads (entry : String × Entry) (r : Reading) : Prop where
  address : readAddress entry.1 = .ok r.address
  balance : readQuantity entry.2.balance = .ok r.balance
  nonce : readQuantity entry.2.nonce = .ok r.nonce
  code : readOptionalCode r.address entry.2.code = .ok r.code
  slots : List.Forall₂ (fun slot x ↦ readSlot slot = .ok x) entry.2.storage.toList r.slots

theorem readEntry_eq_ok_iff {entry : String × Entry} {r : Reading} :
    readEntry entry = .ok r ↔ Reads entry r := by
  refine ⟨fun h ↦ ?_, fun h ↦ ?_⟩
  · obtain ⟨address, haddress, h⟩ := bind_eq_ok_iff.mp h
    obtain ⟨balance, hbalance, h⟩ := bind_eq_ok_iff.mp h
    obtain ⟨nonce, hnonce, h⟩ := bind_eq_ok_iff.mp h
    obtain ⟨code, hcode, h⟩ := bind_eq_ok_iff.mp h
    obtain ⟨slots, hslots, h⟩ := bind_eq_ok_iff.mp h
    cases h
    exact ⟨haddress, hbalance, hnonce, hcode, mapM_eq_ok_iff.mp hslots⟩
  · refine bind_eq_ok_iff.mpr ⟨r.address, h.address, ?_⟩
    refine bind_eq_ok_iff.mpr ⟨r.balance, h.balance, ?_⟩
    refine bind_eq_ok_iff.mpr ⟨r.nonce, h.nonce, ?_⟩
    refine bind_eq_ok_iff.mpr ⟨r.code, h.code, ?_⟩
    exact bind_eq_ok_iff.mpr ⟨r.slots, mapM_eq_ok_iff.mpr h.slots, rfl⟩

theorem Reads.eq {entry : String × Entry} {r r' : Reading} (h : Reads entry r)
    (h' : Reads entry r') : r = r' :=
  Except.ok.inj ((readEntry_eq_ok_iff.mpr h).symm.trans (readEntry_eq_ok_iff.mpr h'))

end Allocation

/-! ## Storing accounts -/

namespace Accounts

/-- An account that is replaced at once might as well not have been stored. -/
theorem put_put (s : Accounts) (a : Address) (x y : Account) :
    (s.put a x).put a y = s.put a y := by
  have hsome : ((s.put a x).get? a).isSome := by rw [get?_put, if_pos rfl]; rfl
  have horder : ((s.put a x).put a y).order = (s.put a y).order := by
    rw [order_put_of_isSome hsome, order_put, order_put]
  have hentries : ((s.put a x).put a y).entries = (s.put a y).entries := by
    refine Std.ExtTreeMap.ext_getElem? fun b ↦ ?_
    show ((s.put a x).put a y).get? b = (s.put a y).get? b
    rw [get?_put, get?_put, get?_put]
    split <;> rfl
  calc (s.put a x).put a y
      = ⟨((s.put a x).put a y).entries, ((s.put a x).put a y).order⟩ := rfl
    _ = s.put a y := by rw [hentries, horder]

end Accounts

namespace WorldState

variable {s : WorldState} {account : Account} {a : Address}

/-- Changing an account that was just stored is storing it changed. -/
theorem modify_insertAccount (f : Account → Account) (ha : account.address = a)
    (hf : (f account).address = a) :
    (s.insertAccount account).modify a f = s.insertAccount (f account) := by
  have hget : (s.accounts.insert account).get? a = some account := by
    rw [Accounts.insert, Accounts.get?_put, if_pos ha]
  have haccounts : (s.accounts.insert account).modify a f = s.accounts.insert (f account) := by
    rw [← put_eq_modify hget, Accounts.insert, Accounts.insert, ha, hf, Accounts.put_put]
  exact congrArg (fun accounts ↦ { s with accounts }) haccounts

/-- Adding to the balance of an account that was just stored without any is storing it with it. -/
theorem addBalance_insertAccount (ha : account.address = a) (hzero : account.balance = 0)
    (amount : U256) :
    (s.insertAccount account).addBalance a amount
      = .done () (s.insertAccount { account with balance := amount }) := by
  have hget : (s.accounts.insert account).get? a = some account := by
    rw [Accounts.insert, Accounts.get?_put, if_pos ha]
  have hcreate : (s.accounts.insert account).getOrCreate a
      = (account, s.accounts.insert account) := by
    rw [Accounts.getOrCreate, hget]
  have hadd : account.balance.add? amount = some amount := by
    rw [U256.add?_eq_some_iff, hzero]
    simp
  have hput : (s.accounts.insert account).put a { account with balance := amount }
      = s.accounts.insert { account with balance := amount } := by
    rw [Accounts.insert, Accounts.insert, ha, Accounts.put_put]
  rw [addBalance, insertAccount]
  dsimp only
  rw [hcreate]
  dsimp only
  rw [hadd]
  exact congrArg (fun accounts ↦ Outcome.done () { s with accounts }) hput

/-- The world state after some accounts were stored, one after the other. -/
def insertAll (s : WorldState) (accounts : List Account) : WorldState :=
  accounts.foldl insertAccount s

theorem insertAll_append (s : WorldState) (xs ys : List Account) :
    s.insertAll (xs ++ ys) = (s.insertAll xs).insertAll ys :=
  List.foldl_append

/-- Under an address stands the last account that was stored there. -/
theorem account?_insertAll (s : WorldState) (accounts : List Account) (a : Address) :
    (s.insertAll accounts).account? a
      = (accounts.reverse.find? (·.address = a)).or (s.account? a) := by
  induction accounts using List.reverseRecOn with
  | nil => rfl
  | append_singleton accounts account ih =>
    rw [insertAll_append, List.reverse_append, List.reverse_singleton, List.singleton_append,
      List.find?_cons]
    show ((s.insertAll accounts).accounts.put account.address account).get? a = _
    rw [Accounts.get?_put]
    by_cases ha : account.address = a
    · rw [if_pos ha, decide_eq_true ha]
      rfl
    · rw [if_neg ha, decide_eq_false ha]
      exact ih

end WorldState

namespace Reading

/-- The last reading of an address. -/
def lastAt? (a : Address) (rows : List Reading) : Option Reading :=
  rows.reverse.find? (·.address = a)

theorem account?_insertAll_map (f : Reading → Account) (hf : ∀ r, (f r).address = r.address)
    (rows : List Reading) (a : Address) :
    (WorldState.empty.insertAll (rows.map f)).account? a = (lastAt? a rows).map f := by
  have hempty : WorldState.empty.account? a = none := Accounts.get?_empty a
  rw [WorldState.account?_insertAll, ← List.map_reverse, List.find?_map, hempty, Option.or_none,
    lastAt?]
  simp only [Function.comp_def, hf]

end Reading

/-! ## Loading -/

namespace Allocation

variable {s : WorldState} {account : Account} {a : Address}

theorem loadBalance_createAccount (s : WorldState) (a : Address) (q : Option Quantity) :
    loadBalance a q (s.createAccount a)
      = (readQuantity q).map fun balance ↦ s.insertAccount (.bare a balance 0 []) := by
  cases q with
  | none => rfl
  | some q =>
    show (q.value.bind fun amount ↦ _) = q.value.map _
    cases q.value with
    | error e => rfl
    | ok amount =>
      have hadd : (s.createAccount a).addBalance a amount
          = .done () (s.insertAccount (.bare a amount 0 [])) :=
        WorldState.addBalance_insertAccount rfl rfl amount
      rw [Except.bind, hadd]
      rfl

theorem loadNonce_insertAccount (s : WorldState) (a : Address) (balance : U256)
    (q : Option Quantity) :
    loadNonce a q (s.insertAccount (.bare a balance 0 []))
      = (readQuantity q).map fun nonce ↦ s.insertAccount (.bare a balance nonce []) := by
  cases q with
  | none => rfl
  | some q =>
    show (q.value.bind fun nonce ↦ _) = q.value.map _
    cases q.value with
    | error e => rfl
    | ok nonce => exact congrArg Except.ok (WorldState.modify_insertAccount _ rfl rfl)

theorem loadCode_insertAccount (s : WorldState) (a : Address) (balance nonce : U256)
    (text : Option String) :
    loadCode a text (s.insertAccount (.bare a balance nonce []))
      = (readOptionalCode a text).map fun code ↦ s.insertAccount (.bare a balance nonce code) := by
  cases text with
  | none => rfl
  | some text =>
    show ((readCode a text).bind fun code ↦ _) = (readCode a text).map _
    cases readCode a text with
    | error e => rfl
    | ok code => exact congrArg Except.ok (WorldState.modify_insertAccount _ rfl rfl)

/-- A slot without value is passed over, whatever its key is. -/
theorem loadSlot_of_decode_eq {slot : String × String} (h : Hex.decode slot.2 = .ok [])
    (s : WorldState) : loadSlot a s slot = .ok s := by
  rw [loadSlot, readSlotValue, h]
  rfl

theorem loadSlot_insertAccount {slot : String × String} (h : Hex.decode slot.2 ≠ .ok [])
    (s : WorldState) (ha : account.address = a) :
    loadSlot a (s.insertAccount account) slot
      = (readSlot slot).map fun x ↦ s.insertAccount (account.setSlot x.1 x.2) := by
  rw [loadSlot, readSlot, readSlotValue]
  cases hvalue : Hex.decode slot.2 with
  | error e => rfl
  | ok value =>
    have hempty : value.isEmpty = false := by
      rw [hvalue] at h
      simpa using h
    show (if value.isEmpty then _ else (readSlotKey slot.1).bind fun key ↦ _) = _
    rw [hempty]
    cases readSlotKey slot.1 with
    | error e => rfl
    | ok key =>
      exact congrArg Except.ok (WorldState.modify_insertAccount (·.setSlot key value) ha ha)

theorem foldlM_loadSlot (ha : account.address = a) (slots : List (String × String)) :
    slots.foldlM (loadSlot a) (s.insertAccount account)
      = ((slots.filter fun slot ↦ decide (Hex.decode slot.2 ≠ .ok [])).mapM readSlot).map
          fun read ↦ s.insertAccount (account.setSlots read) := by
  induction slots generalizing account with
  | nil => rfl
  | cons slot slots ih =>
    rw [List.foldlM_cons]
    by_cases h : Hex.decode slot.2 = .ok []
    · rw [loadSlot_of_decode_eq h, List.filter_cons_of_neg (by simp [h]), ← ih ha]
      rfl
    · rw [loadSlot_insertAccount h s ha, List.filter_cons_of_pos (by simp [h]), List.mapM_cons]
      cases readSlot slot with
      | error e => rfl
      | ok x =>
        have hrest := @ih (account.setSlot x.1 x.2) ha
        show slots.foldlM (loadSlot a) (s.insertAccount (account.setSlot x.1 x.2))
          = (((slots.filter _).mapM readSlot).bind fun read ↦ _).map _
        rw [hrest]
        cases (slots.filter _).mapM readSlot <;> rfl

/-- An entry is read as a whole before its account is stored as a whole. -/
theorem loadEntry_eq (s : WorldState) (entry : String × Entry) :
    loadEntry s entry
      = (readEntry (entry.1, entry.2.filled)).map fun r ↦ s.insertAccount r.account := by
  rw [loadEntry, readEntry]
  cases readAddress entry.1 with
  | error e => rfl
  | ok a =>
    show (loadBalance a entry.2.balance (s.createAccount a)).bind _
      = ((readQuantity entry.2.balance).bind _).map _
    rw [loadBalance_createAccount]
    cases readQuantity entry.2.balance with
    | error e => rfl
    | ok balance =>
      show (loadNonce a entry.2.nonce (s.insertAccount (.bare a balance 0 []))).bind _
        = ((readQuantity entry.2.nonce).bind _).map _
      rw [loadNonce_insertAccount]
      cases readQuantity entry.2.nonce with
      | error e => rfl
      | ok nonce =>
        show (loadCode a entry.2.code (s.insertAccount (.bare a balance nonce []))).bind _
          = ((readOptionalCode a entry.2.code).bind _).map _
        rw [loadCode_insertAccount]
        cases readOptionalCode a entry.2.code with
        | error e => rfl
        | ok code =>
          show entry.2.storage.toList.foldlM (loadSlot a)
              (s.insertAccount (.bare a balance nonce code))
            = ((entry.2.filled.storage.toList.mapM readSlot).bind _).map _
          rw [foldlM_loadSlot (Account.address_bare a balance nonce code), Entry.filled,
            Std.ExtTreeMap.toList_filter]
          cases (entry.2.storage.toList.filter _).mapM readSlot <;> rfl

/-- **Loading is reading and storing.** All texts but those of slots without value are read, and
then the accounts are stored in the order of the texts of their addresses; a text that cannot be
read is reported by both. -/
theorem toState_eq (allocation : Allocation) :
    toState allocation
      = (read allocation.filled).map fun rows ↦
          WorldState.empty.insertAll (rows.map Reading.account) := by
  have hfold : ∀ (entries : List (String × Entry)) (s : WorldState),
      entries.foldlM loadEntry s
        = ((entries.map fun entry ↦ (entry.1, entry.2.filled)).mapM readEntry).map fun rows ↦
            s.insertAll (rows.map Reading.account) := by
    intro entries
    induction entries with
    | nil => intro s; rfl
    | cons entry entries ih =>
      intro s
      rw [List.foldlM_cons, loadEntry_eq, List.map_cons, List.mapM_cons]
      cases readEntry (entry.1, entry.2.filled) with
      | error e => rfl
      | ok r =>
        show entries.foldlM loadEntry (s.insertAccount r.account)
          = (((entries.map _).mapM readEntry).bind _).map _
        rw [ih]
        cases (entries.map _).mapM readEntry <;> rfl
  rw [toState, hfold, read, filled, Std.ExtTreeMap.toList_map]

end Allocation

end ExecState
