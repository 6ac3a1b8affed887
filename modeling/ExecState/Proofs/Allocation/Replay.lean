import ExecState.Proofs.Allocation.Loading
import ExecState.Proofs.Ledger.BlankSlots

/-!
# Replaying an allocation

An allocation whose texts can all be read could be loaded in the plain way: create each account,
give it its balance, nonce and code, and write every slot, the empty values included. Loading takes
a shortcut and passes over slots whose value is empty. Writing the empty value to an account that
was just created does nothing, so one would expect the two to agree.

They do unless several texts denote one slot. The plain way lets the last of them decide; the
shortcut lets the last one decide that is not empty, so that a value survives an empty one after it.
`Allocation.toState_replay` says of all allocations when the two agree, and what either makes of
texts that denote the same address or the same slot.
-/

namespace ExecState

/-! ## The plain way -/

/-- The calls that set up the account of a reading. -/
def Reading.calls (r : Reading) : List Command :=
  [.change (.createAccount r.address), .change (.addBalance r.address r.balance),
      .change (.setNonce r.address r.nonce), .change (.setCode r.address r.code)]
    ++ r.slots.map fun slot ↦ .change (.setSlot r.address slot.1 slot.2)

/-- The calls of some readings, on a new world state. -/
def Session.replay (rows : List Reading) : List (Except LedgerError Answer) × Session :=
  empty.run (rows.flatMap Reading.calls)

namespace Session

variable {s : Session} {account : Account} {a : Address}

theorem step_change_done {c : Change} {state : WorldState} (h : s.state.apply c = .done () state) :
    s.step (.change c) = .done .done { s with state } := by
  rw [step, h]
  rfl

theorem run_cons_change {c : Change} {state : WorldState} (h : s.state.apply c = .done () state)
    (rest : List Command) :
    s.run (.change c :: rest)
      = (.ok .done :: (run { s with state } rest).1, (run { s with state } rest).2) := by
  rw [run_cons, step_change_done h]
  rfl

theorem run_setSlots (state : WorldState) (snapshots : Std.ExtTreeMap String Snapshot)
    (ha : account.address = a) (slots : List (Word × Bytes)) :
    run ⟨state.insertAccount account, snapshots⟩
        (slots.map fun slot ↦ .change (.setSlot a slot.1 slot.2))
      = ((slots.map fun slot ↦ Command.change (.setSlot a slot.1 slot.2)).map fun _ ↦ .ok .done,
          ⟨state.insertAccount (account.setSlots slots), snapshots⟩) := by
  induction slots generalizing account with
  | nil => rfl
  | cons slot slots ih =>
    have hstored : (state.insertAccount account).apply (.setSlot a slot.1 slot.2)
        = .done () (state.insertAccount (account.setSlot slot.1 slot.2)) :=
      congrArg (Outcome.done ()) (WorldState.modify_insertAccount _ ha ha)
    have hrest := @ih (account.setSlot slot.1 slot.2) ha
    rw [List.map_cons, run_cons_change hstored, hrest]
    rfl

theorem run_calls (s : Session) (r : Reading) :
    s.run r.calls
      = (r.calls.map fun _ ↦ .ok .done, { s with state := s.state.insertAccount r.account }) := by
  have hcreated : s.state.apply (.createAccount r.address)
      = .done () (s.state.insertAccount (.bare r.address 0 0 [])) := rfl
  have hfunded : (s.state.insertAccount (.bare r.address 0 0 [])).apply
        (.addBalance r.address r.balance)
      = .done () (s.state.insertAccount (.bare r.address r.balance 0 [])) :=
    WorldState.addBalance_insertAccount rfl rfl r.balance
  have hcounted : (s.state.insertAccount (.bare r.address r.balance 0 [])).apply
        (.setNonce r.address r.nonce)
      = .done () (s.state.insertAccount (.bare r.address r.balance r.nonce [])) :=
    congrArg (Outcome.done ()) (WorldState.modify_insertAccount _ rfl rfl)
  have hcoded : (s.state.insertAccount (.bare r.address r.balance r.nonce [])).apply
        (.setCode r.address r.code)
      = .done () (s.state.insertAccount (.bare r.address r.balance r.nonce r.code)) :=
    congrArg (Outcome.done ()) (WorldState.modify_insertAccount _ rfl rfl)
  have hwritten := run_setSlots s.state s.snapshots
    (Account.address_bare r.address r.balance r.nonce r.code) r.slots
  rw [Reading.calls, List.cons_append, run_cons_change hcreated, List.cons_append,
    run_cons_change hfunded, List.cons_append, run_cons_change hcounted, List.cons_append,
    run_cons_change hcoded, List.nil_append, hwritten]
  rfl

/-- **The plain way stores the accounts one after the other,** and nothing of it is refused. -/
theorem run_flatMap_calls (s : Session) (rows : List Reading) :
    s.run (rows.flatMap Reading.calls)
      = ((rows.flatMap Reading.calls).map fun _ ↦ .ok .done,
          { s with state := s.state.insertAll (rows.map Reading.account) }) := by
  induction rows generalizing s with
  | nil => rfl
  | cons r rows ih =>
    rw [List.flatMap_cons, run_append, run_calls, ih, List.map_append]
    rfl

theorem state_replay (rows : List Reading) :
    (replay rows).2.state = WorldState.empty.insertAll (rows.map Reading.account) := by
  rw [replay, run_flatMap_calls]
  rfl

end Session

/-! ## Texts that denote the same -/

namespace Account

variable {a : Account} {slots : List (Word × Bytes)}

theorem IsTidy.setSlots (h : a.IsTidy) (slots : List (Word × Bytes)) :
    (a.setSlots slots).IsTidy := by
  induction slots generalizing a with
  | nil => exact h
  | cons slot slots ih => exact ih fun key hblank ↦ h key (isBlank_of_isBlank_setSlot hblank)

end Account

namespace WorldState

variable {s : WorldState} {xs ys : List Account}

theorem order_insertAll (h : s.accounts.Indexed) (xs : List Account) :
    (s.insertAll xs).accounts.order
      = (xs.map Account.address).foldl (fun order a ↦ if a ∈ order then order else order ++ [a])
          s.accounts.order := by
  induction xs generalizing s with
  | nil => rfl
  | cons account xs ih =>
    have horder : (s.insertAccount account).accounts.order
        = if account.address ∈ s.accounts.order then s.accounts.order
          else s.accounts.order ++ [account.address] := by
      show (if (s.accounts.get? account.address).isSome then _ else _) = _
      simp only [h.mem_order]
    show ((s.insertAccount account).insertAll xs).accounts.order = _
    rw [ih (h.insert account), horder]
    rfl

theorem records_insertAll (s : WorldState) (xs : List Account) :
    (s.insertAll xs).records = s.records := by
  induction xs generalizing s with
  | nil => rfl
  | cons account xs ih => exact ih (s.insertAccount account)

/-- Storing accounts at the same addresses leads to the same world state exactly if the last
account that is stored at each address is the same. -/
theorem insertAll_eq_iff (h : s.accounts.Indexed)
    (haddress : xs.map Account.address = ys.map Account.address) :
    s.insertAll xs = s.insertAll ys
      ↔ ∀ a, (s.insertAll xs).account? a = (s.insertAll ys).account? a := by
  refine ⟨fun heq a ↦ by rw [heq], fun heq ↦ ?_⟩
  have hentries : (s.insertAll xs).accounts.entries = (s.insertAll ys).accounts.entries :=
    Std.ExtTreeMap.ext_getElem? heq
  have horder : (s.insertAll xs).accounts.order = (s.insertAll ys).accounts.order := by
    rw [order_insertAll h, order_insertAll h, haddress]
  have haccounts : (s.insertAll xs).accounts = (s.insertAll ys).accounts := by
    calc (s.insertAll xs).accounts
        = ⟨(s.insertAll xs).accounts.entries, (s.insertAll xs).accounts.order⟩ := rfl
      _ = (s.insertAll ys).accounts := by rw [hentries, horder]
  have hrecords : (s.insertAll xs).records = (s.insertAll ys).records := by
    rw [records_insertAll, records_insertAll]
  exact eq_of_halves_eq haccounts hrecords

end WorldState

namespace Reading

variable {r : Reading} {key : Word}

/-- The reading without the slots whose value is empty. -/
def filled (r : Reading) : Reading :=
  { r with slots := r.slots.filter fun slot ↦ decide (slot.2 ≠ []) }

/-- Whether a slot whose last value is empty has no other value. -/
def IsSettled (r : Reading) : Prop := ∀ key, r.value key = [] → ∀ v, (key, v) ∈ r.slots → v = []

theorem isTidy_account (r : Reading) : r.account.IsTidy := by
  refine Account.IsTidy.setSlots (fun key ↦ ?_) r.slots
  simp [Account.IsBlank, Account.bare]

theorem mem_slots_filled {slot : Word × Bytes} :
    slot ∈ r.filled.slots ↔ slot ∈ r.slots ∧ slot.2 ≠ [] := by
  rw [filled, List.mem_filter, decide_eq_true_iff]

/-- A last value that is not empty stays the last one. -/
theorem value_filled_of_ne (h : r.value key ≠ []) : r.filled.value key = r.value key := by
  rw [value] at h
  cases hlast : r.slots.reverse.find? (·.1 = key) with
  | none =>
    rw [hlast] at h
    exact absurd rfl h
  | some slot =>
    rw [hlast] at h
    have hvalue : slot.2 ≠ [] := h
    obtain ⟨hkey, later, earlier, hslots, hlater⟩ := List.find?_eq_some_iff_append.mp hlast
    have hfilled : r.filled.slots.reverse.find? (·.1 = key) = some slot := by
      rw [filled, ← List.filter_reverse, List.find?_filter, List.find?_eq_some_iff_append]
      refine ⟨by simpa [hvalue] using hkey, later, earlier, hslots, fun x hx ↦ ?_⟩
      have hne : x.1 ≠ key := by simpa using hlater x hx
      simp [hne]
    rw [value, value, hfilled, hlast]

theorem value_filled_eq_nil_iff :
    r.filled.value key = [] ↔ ∀ v, (key, v) ∈ r.slots → v = [] := by
  rw [value]
  cases hlast : r.filled.slots.reverse.find? (·.1 = key) with
  | none =>
    refine ⟨fun _ v hv ↦ ?_, fun _ ↦ rfl⟩
    by_contra hne
    have hmem : (key, v) ∈ r.filled.slots.reverse :=
      List.mem_reverse.mpr (mem_slots_filled.mpr ⟨hv, hne⟩)
    exact List.find?_eq_none.mp hlast _ hmem (decide_eq_true rfl)
  | some slot =>
    have hslot := mem_slots_filled.mp (List.mem_reverse.mp (List.mem_of_find?_eq_some hlast))
    have hkey : slot.1 = key := by simpa using List.find?_some hlast
    refine ⟨fun hnil ↦ absurd hnil hslot.2, fun hall ↦ ?_⟩
    exact hall slot.2 (hkey ▸ hslot.1)

theorem isSettled_iff : r.IsSettled ↔ ∀ key, r.filled.value key = r.value key := by
  refine ⟨fun h key ↦ ?_, fun h key hnil ↦ ?_⟩
  · by_cases hnil : r.value key = []
    · rw [hnil]
      exact value_filled_eq_nil_iff.mpr (h key hnil)
    · exact value_filled_of_ne hnil
  · exact value_filled_eq_nil_iff.mp ((h key).trans hnil)

/-- Passing over empty values makes no difference to the account of a settled reading only. -/
theorem account_filled_eq_iff : r.filled.account = r.account ↔ r.IsSettled := by
  rw [isSettled_iff]
  refine ⟨fun h key ↦ by rw [← slot_account, h, slot_account], fun h ↦ ?_⟩
  have hstorage : r.filled.account.storage = r.account.storage := by
    refine r.filled.isTidy_account.storage_eq_of_slot_eq r.isTidy_account fun key ↦ ?_
    rw [slot_account, slot_account, h]
  calc r.filled.account
      = { Account.bare r.address r.balance r.nonce r.code with
          storage := r.filled.account.storage } := Account.setSlots_eq _ _
    _ = { Account.bare r.address r.balance r.nonce r.code with
          storage := r.account.storage } := by rw [hstorage]
    _ = r.account := (Account.setSlots_eq _ _).symm

end Reading

namespace Allocation

variable {allocation : Allocation} {rows : List Reading}

theorem Reads.filled {entry : String × Entry} {r : Reading} (h : Reads entry r) :
    Reads (entry.1, entry.2.filled) r.filled where
  address := h.address
  balance := h.balance
  nonce := h.nonce
  code := h.code
  slots := by
    rw [Entry.filled, Std.ExtTreeMap.toList_filter]
    refine List.rel_filter ?_ h.slots
    intro slot x hread
    have hvalue := (readSlot_eq_ok_iff.mp hread).2
    rw [readSlotValue] at hvalue
    cases hdecode : Hex.decode slot.2 with
    | error e => rw [hdecode] at hvalue; cases hvalue
    | ok value =>
      rw [hdecode] at hvalue
      simp [hdecode, Except.ok.inj hvalue]

theorem read_filled (h : read allocation = .ok rows) :
    read allocation.filled = .ok (rows.map Reading.filled) := by
  have hrows := mapM_eq_ok_iff.mp h
  refine mapM_eq_ok_iff.mpr ?_
  rw [filled, Std.ExtTreeMap.toList_map, List.forall₂_map_left_iff, List.forall₂_map_right_iff]
  exact hrows.imp fun _ _ hr ↦ readEntry_eq_ok_iff.mpr (readEntry_eq_ok_iff.mp hr).filled

/-- A loaded world state beside the texts it came from, in the order in which they are read. -/
structure IsLoadedFrom (rows : List Reading) (s : WorldState) : Prop where
  /-- The plain way refuses nothing. -/
  answers : (Session.replay rows).1 = (rows.flatMap Reading.calls).map fun _ ↦ .ok .done
  /-- What is loaded is what the plain way makes of the slots with a value. -/
  filled : s = (Session.replay (rows.map Reading.filled)).2.state
  /-- It is what the plain way makes of all slots exactly if no slot that counts has an empty value
  after another one. -/
  whole : s = (Session.replay rows).2.state
    ↔ ∀ a r, Reading.lastAt? a rows = some r → r.IsSettled
  /-- Of several texts for one address the last one replaces the others as a whole. -/
  account : ∀ a, s.account? a = (Reading.lastAt? a rows).map fun r ↦ r.filled.account
  /-- Of several texts for one slot the last one decides whose value is not empty. -/
  slot : ∀ a key, s.slot a key = (Reading.lastAt? a rows).elim [] fun r ↦ r.filled.value key
  /-- In the plain way the last one of all decides. -/
  slot_replay : ∀ a key, (Session.replay rows).2.state.slot a key
    = (Reading.lastAt? a rows).elim [] fun r ↦ r.value key

/-- **Loading beside replaying.** An allocation whose texts can all be read is loaded as if every
account was created, was given its balance, nonce and code, and had its slots written one by one,
those with an empty value left out. -/
theorem toState_replay (h : read allocation = .ok rows) :
    ∃ s, toState allocation = .ok s ∧ IsLoadedFrom rows s := by
  have hstate := Session.state_replay rows
  have haccount := Reading.account?_insertAll_map Reading.account Reading.address_account rows
  have haccount' := Reading.account?_insertAll_map (fun r ↦ r.filled.account)
    (fun r ↦ r.filled.address_account) rows
  have hslot : ∀ (f : Reading → Reading) {t : WorldState} {a : Address} (key : Word),
      t.account? a = (Reading.lastAt? a rows).map (fun r ↦ (f r).account) →
      t.slot a key = (Reading.lastAt? a rows).elim [] fun r ↦ (f r).value key := by
    intro f t a key ht
    rw [WorldState.slot, WorldState.view, ht]
    cases Reading.lastAt? a rows with
    | none => rfl
    | some r => exact (f r).slot_account key
  refine ⟨WorldState.empty.insertAll (rows.map fun r ↦ r.filled.account), ?_, ?_⟩
  · rw [toState_eq, read_filled h, Except.map, List.map_map]
    rfl
  · refine
      { answers := by rw [Session.replay, Session.run_flatMap_calls]
        filled := by rw [Session.state_replay, List.map_map]; rfl
        whole := ?_
        account := haccount'
        slot := fun a key ↦ hslot Reading.filled key (haccount' a)
        slot_replay := fun a key ↦ hslot id key (by rw [hstate]; exact haccount a) }
    have haddresses : (rows.map fun r ↦ r.filled.account).map Account.address
        = (rows.map Reading.account).map Account.address := by
      simp [Function.comp_def, Reading.filled]
    rw [hstate, WorldState.insertAll_eq_iff Accounts.indexed_empty haddresses]
    refine forall_congr' fun a ↦ ?_
    rw [haccount, haccount']
    cases Reading.lastAt? a rows with
    | none => simp
    | some r => simp [Reading.account_filled_eq_iff]

/-- The storage key that ends with a byte and is zero before it. -/
def slotKey (last : UInt8) : Word := ⟨List.replicate 31 0 ++ [last], by simp⟩

/-- Two texts of one address, of which the last has two texts of one slot. -/
def respelled : Allocation :=
  .ofList [("0x01", { Entry.empty with balance := some (.number 5) }),
    ("0x1", { Entry.empty with storage := .ofList [("0x02", "0x2a"), ("0x2", "0x07")] })]

def respelledRows : List Reading :=
  [⟨WorldState.ending 1, 5, 0, [], []⟩,
    ⟨WorldState.ending 1, 0, 0, [], [(slotKey 2, [0x2a]), (slotKey 2, [7])]⟩]

theorem toState_replay_respelled :
    read respelled = .ok respelledRows ∧
      ∃ s, toState respelled = .ok s ∧ IsLoadedFrom respelledRows s := by
  have hread : read respelled = .ok respelledRows := by decide +kernel
  exact ⟨hread, toState_replay hread⟩

/-- Two texts of one slot, of which the last has the empty value. -/
def emptied : Allocation :=
  .ofList [("0x01", { Entry.empty with
    nonce := some (.number 1), storage := .ofList [("0x01", "0x2a"), ("0x1", "0x")] })]

def emptiedRows : List Reading :=
  [⟨WorldState.ending 1, 0, 1, [], [(slotKey 1, [0x2a]), (slotKey 1, [])]⟩]

/-- An empty last value does not unset a slot, as it would in the plain way. -/
theorem not_forall_toState_replay :
    ¬ ∀ allocation rows, read allocation = .ok rows →
      toState allocation = .ok (Session.replay rows).2.state := by
  intro h
  have hread : read emptied = .ok emptiedRows := by decide +kernel
  have hslot : (toState emptied).map (·.slot (WorldState.ending 1) (slotKey 1)) = .ok [0x2a] := by
    decide +kernel
  have hplain :
      (Session.replay emptiedRows).2.state.slot (WorldState.ending 1) (slotKey 1) = [] := by
    decide +kernel
  rw [h emptied emptiedRows hread, Except.map, hplain] at hslot
  cases hslot

end Allocation

end ExecState
