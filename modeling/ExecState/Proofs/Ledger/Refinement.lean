import ExecState.Proofs.Ledger.Index
import Mathlib.Data.Finmap

/-!
# The ledger and its reference

What a ledger is meant to be is said without lists, maps and machine numbers, and the world state is
shown to be no more than that.
-/

namespace ExecState

/-!
## The ledger as a finite partial function

The reference is what a ledger is meant to be: a finite partial function from addresses to entries,
beside the logs and the refunds. An entry has whole numbers and a total function for its storage,
which is empty where nothing was stored. There is no order among the addresses, no storage with or
without a key, and no arithmetic but that of whole numbers; a change is refused where a number
would leave the range of 256 bits.

Two laws say what the operations have in common: which of them bring an address into existence
(`mem_apply_iff`), and that each of them leaves all addresses but one alone (`get?_apply_of_ne`).
-/

/-- Whether a query can be answered without an order among the addresses and without finite
storages: all but those for whole accounts. -/
def Query.isCovered : Query → Bool
  | .account _ | .accounts | .committable => false
  | _ => true

/-- Whether a step of a session can be answered by a reference. -/
def Command.isCovered : Command → Bool
  | .query q => q.isCovered
  | _ => true

namespace Reference

/-- What a ledger has under one address. -/
structure Entry where
  code : Bytes
  nonce : Nat
  balance : Nat
  destroyed : Bool
  slot : Word → Bytes

/-- The entry of an address that was never written to. -/
def Entry.blank : Entry where
  code := []
  nonce := 0
  balance := 0
  destroyed := false
  slot := fun _ ↦ []

/-- The entries of a ledger, by address. -/
abbrev Entries := Finmap fun _ : Address ↦ Entry

/-- The entries, the logs and the refunds. -/
structure Ledger where
  entries : Entries
  logs : List Log
  refund : Nat

namespace Ledger

def empty : Ledger := ⟨∅, [], 0⟩

def get? (l : Ledger) (a : Address) : Option Entry := l.entries.lookup a

/-- The entry of an address, blank where it does not exist. -/
def view (l : Ledger) (a : Address) : Entry := (l.get? a).getD Entry.blank

/-- Answers a query. An address that does not exist is answered for as if its entry was blank.
Whole accounts are not answered for: a reference has neither an order nor finite storages. -/
def answer (l : Ledger) : Query → Answer
  | .accountExists a => .flag (decide (a ∈ l.entries))
  | .accountIsEmpty a =>
    .flag ((l.view a).nonce = 0 && (l.view a).balance = 0 && (l.view a).code.isEmpty)
  | .isDestroyed a => .flag (l.view a).destroyed
  | .code a => .bytes (l.view a).code
  | .codeSize a => .count (l.view a).code.length
  | .balance a => .number (BitVec.ofNat 256 (l.view a).balance)
  | .nonce a => .number (BitVec.ofNat 256 (l.view a).nonce)
  | .slot a key => .bytes ((l.view a).slot key)
  | .size => .count l.entries.keys.card
  | .refund => .number (BitVec.ofNat 256 l.refund)
  | .logs => .logs l.logs
  | .account _ | .accounts | .committable => .done

/-- Puts an entry under an address and leaves everything else as it is. -/
def put (l : Ledger) (a : Address) (e : Entry) : Ledger :=
  { l with entries := l.entries.insert a e }

/-- Changes the entry of an address, which exists afterwards. -/
def update (l : Ledger) (a : Address) (f : Entry → Entry) : Ledger := l.put a (f (l.view a))

end Ledger

end Reference

def Account.entry (a : Account) : Reference.Entry where
  code := a.code
  nonce := a.nonce.toNat
  balance := a.balance.toNat
  destroyed := a.destroyed
  slot := a.slot

namespace Reference

namespace Ledger

/-- Carries out a change. Creating and inserting replace an entry as a whole. Adding to a balance
and the writes to a code, a nonce or a slot bring the address into existence; taking from a balance
and destroying do not. -/
def apply (l : Ledger) : Change → Outcome LedgerError Unit Ledger
  | .createAccount a => .done () (l.put a .blank)
  | .insertAccount account => .done () (l.put account.address account.entry)
  | .setCode a code => .done () (l.update a ({ · with code }))
  | .setNonce a nonce => .done () (l.update a ({ · with nonce := nonce.toNat }))
  | .setSlot a key value =>
    .done () (l.update a fun e ↦ { e with slot := Function.update e.slot key value })
  | .addBalance a amount =>
    let balance := (l.view a).balance
    if balance + amount.toNat < U256.size then
      .done () (l.update a ({ · with balance := balance + amount.toNat }))
    else .failed (.balanceOverflow a amount (BitVec.ofNat 256 balance)) l
  | .subBalance a amount =>
    match l.get? a with
    | none => .done () l
    | some e =>
      if amount.toNat ≤ e.balance then
        .done () (l.put a { e with balance := e.balance - amount.toNat })
      else .failed (.balanceUnderflow a amount (BitVec.ofNat 256 e.balance)) l
  | .destroy a =>
    match l.get? a with
    | none => .done () l
    | some e => .done () (l.put a { e with destroyed := true })
  | .addRefund amount =>
    .done () { l with refund := min (l.refund + amount.toNat) (U256.size - 1) }
  | .subRefund amount =>
    if amount.toNat ≤ l.refund then .done () { l with refund := l.refund - amount.toNat }
    else .failed (.refundUnderflow amount (BitVec.ofNat 256 l.refund)) l
  | .appendLog log => .done () { l with logs := l.logs ++ [log] }

end Ledger

/-- A ledger and the entries that were noted under names. -/
structure Session where
  ledger : Ledger
  snapshots : String → Option Entries

namespace Session

/-- The session in which nothing happened yet. -/
def empty : Session := ⟨Ledger.empty, fun _ ↦ none⟩

/-- Carries out one step. Returning to noted entries leaves logs and refunds as they are. -/
def step (s : Session) : Command → Outcome LedgerError Answer Session
  | .query q => .done (s.ledger.answer q) s
  | .change c =>
    match s.ledger.apply c with
    | (.ok (), ledger) => .done .done { s with ledger }
    | (.error e, ledger) => .failed e { s with ledger }
  | .snapshot name =>
    .done .done { s with snapshots := Function.update s.snapshots name (some s.ledger.entries) }
  | .revert name =>
    match s.snapshots name with
    | some entries => .done .done { s with ledger := { s.ledger with entries } }
    | none => .done .done s

/-- Carries out steps one after the other. A step that fails does not end the run. -/
def run (s : Session) : List Command → List (Except LedgerError Answer) × Session
  | [] => ([], s)
  | c :: rest =>
    let (result, s') := s.step c
    let (results, s'') := s'.run rest
    (result :: results, s'')

end Session

/-! ### Laws -/

end Reference

/-- The address that a change brings into existence. -/
def Change.created? : Change → Option Address
  | .createAccount a | .setCode a _ | .setNonce a _ | .setSlot a _ _ | .addBalance a _ => some a
  | .insertAccount account => some account.address
  | .subBalance _ _ | .destroy _ | .addRefund _ | .subRefund _ | .appendLog _ => none

def Change.target? : Change → Option Address
  | .subBalance a _ | .destroy a => some a
  | c => c.created?

namespace Reference.Ledger

variable (l : Ledger) (c : Change) {a b : Address}

theorem mem_put (e : Entry) : a ∈ (l.put b e).entries ↔ a ∈ l.entries ∨ some b = some a := by
  rw [put, Finmap.mem_insert, Option.some_inj, or_comm, eq_comm]

theorem get?_put_of_ne (e : Entry) (h : some b ≠ some a) : (l.put b e).get? a = l.get? a :=
  Finmap.lookup_insert_of_ne _ fun hab ↦ h (congrArg some hab.symm)

theorem mem_put_of_get?_eq_some {e : Entry} (h : l.get? b = some e) (e' : Entry) :
    a ∈ (l.put b e').entries ↔ a ∈ l.entries := by
  rw [mem_put, or_iff_left_of_imp]
  intro hab
  exact Option.some_inj.mp hab ▸ Finmap.mem_of_lookup_eq_some h

theorem mem_of_size_le {amount : U256} (h : U256.size ≤ (l.view b).balance + amount.toNat) :
    b ∈ l.entries := by
  by_contra hb
  have hlt := U256.toNat_lt_size amount
  have hblank : (l.view b).balance = 0 := by
    rw [view, get?, Finmap.lookup_eq_none.mpr hb]
    rfl
  omega

/-- **Who comes into existence.** No change takes an address away, and the address that a change
creates exists afterwards, also where the change is refused. -/
theorem mem_apply_iff : a ∈ (l.apply c).2.entries ↔ a ∈ l.entries ∨ c.created? = some a := by
  cases c with
  | createAccount b => exact l.mem_put _
  | insertAccount account => exact l.mem_put _
  | setCode b code => exact l.mem_put _
  | setNonce b nonce => exact l.mem_put _
  | setSlot b key value => exact l.mem_put _
  | addBalance b amount =>
    rw [apply]
    split
    · exact l.mem_put _
    · rename_i hsize
      rw [Change.created?, or_iff_left_of_imp]
      · rfl
      · intro hab
        exact Option.some_inj.mp hab ▸ l.mem_of_size_le (Nat.le_of_not_lt hsize)
  | subBalance b amount =>
    rw [apply, Change.created?]
    cases hb : l.get? b with
    | none => simp
    | some e =>
      dsimp only
      split
      · simpa using l.mem_put_of_get?_eq_some hb _
      · simp
  | destroy b =>
    rw [apply, Change.created?]
    cases hb : l.get? b with
    | none => simp
    | some e => simpa using l.mem_put_of_get?_eq_some hb _
  | addRefund amount => simp [apply, Change.created?]
  | subRefund amount =>
    rw [apply]
    split <;> simp [Change.created?]
  | appendLog log => simp [apply, Change.created?]

/-- **The frame of a change.** All addresses but the one it is about are left alone. -/
theorem get?_apply_of_ne (h : c.target? ≠ some a) : (l.apply c).2.get? a = l.get? a := by
  cases c with
  | createAccount b => exact l.get?_put_of_ne _ h
  | insertAccount account => exact l.get?_put_of_ne _ h
  | setCode b code => exact l.get?_put_of_ne _ h
  | setNonce b nonce => exact l.get?_put_of_ne _ h
  | setSlot b key value => exact l.get?_put_of_ne _ h
  | addBalance b amount =>
    rw [apply]
    split
    · exact l.get?_put_of_ne _ h
    · rfl
  | subBalance b amount =>
    rw [apply]
    cases l.get? b with
    | none => rfl
    | some e =>
      dsimp only
      split
      · exact l.get?_put_of_ne _ h
      · rfl
  | destroy b =>
    rw [apply]
    cases l.get? b with
    | none => rfl
    | some e => exact l.get?_put_of_ne _ h
  | addRefund amount => rfl
  | subRefund amount =>
    rw [apply]
    split <;> rfl
  | appendLog log => rfl

end Reference.Ledger

/-!
## World states refine the reference

A world state is read as a ledger of the reference (`WorldState.reference`): the order of the
accounts is forgotten, numbers are taken as whole numbers and storages as total functions. Reads and
changes commute with this reading, so a session answers like its reference step by step
(`Session.step_reference`) and over whole runs (`Session.run_eq_reference`). No invariant is needed:
it holds from every session on.
-/

theorem U256.ofNat_toNat (v : U256) : BitVec.ofNat 256 v.toNat = v := by
  rw [BitVec.ofNat_toNat, BitVec.setWidth_eq]

/-! ### Reading a world state as a reference -/

namespace Accounts

/-- The entries of accounts, one after the other. -/
def entryRow (s : Accounts) : List (Sigma fun _ : Address ↦ Reference.Entry) :=
  s.entries.toList.map fun e ↦ ⟨e.1, e.2.entry⟩

theorem keys_entryRow (s : Accounts) : s.entryRow.keys = s.entries.keys := by
  rw [entryRow, List.keys, List.map_map, ← Std.ExtTreeMap.map_fst_toList_eq_keys]
  rfl

theorem nodupKeys_entryRow (s : Accounts) : s.entryRow.NodupKeys := by
  rw [List.NodupKeys, keys_entryRow]
  exact Std.ExtTreeMap.nodup_keys

def entriesOf (s : Accounts) : Reference.Entries := s.entryRow.toFinmap

theorem lookup_entriesOf (s : Accounts) (a : Address) :
    s.entriesOf.lookup a = (s.get? a).map Account.entry := by
  refine Option.ext fun e ↦ ?_
  rw [entriesOf, Finmap.dlookup_list_toFinmap, ← Option.mem_def,
    List.mem_dlookup_iff s.nodupKeys_entryRow, entryRow, List.mem_map, Option.map_eq_some_iff]
  constructor
  · rintro ⟨x, hx, heq⟩
    obtain ⟨rfl, he⟩ := Sigma.mk.inj heq
    exact ⟨x.2, Std.ExtTreeMap.mem_toList_iff_getElem?_eq_some.mp hx, eq_of_heq he⟩
  · rintro ⟨account, haccount, rfl⟩
    exact ⟨(a, account), Std.ExtTreeMap.mem_toList_iff_getElem?_eq_some.mpr haccount, rfl⟩

theorem mem_entriesOf (s : Accounts) (a : Address) : a ∈ s.entriesOf ↔ (s.get? a).isSome := by
  rw [← Finmap.lookup_isSome, lookup_entriesOf, Option.isSome_map]

theorem card_keys_entriesOf (s : Accounts) : s.entriesOf.keys.card = s.size := by
  have hkeys : s.entriesOf.keys = s.entries.keys.toFinset := by
    ext a
    rw [Finmap.mem_keys, mem_entriesOf, List.mem_toFinset, Std.ExtTreeMap.mem_keys,
      Std.ExtTreeMap.mem_iff_isSome_getElem?]
    rfl
  rw [hkeys, List.toFinset_card_of_nodup Std.ExtTreeMap.nodup_keys, Std.ExtTreeMap.length_keys]
  rfl

theorem entriesOf_put (s : Accounts) (a : Address) (account : Account) :
    (s.put a account).entriesOf = s.entriesOf.insert a account.entry := by
  refine Finmap.ext_lookup fun b ↦ ?_
  rw [lookup_entriesOf, get?_put]
  by_cases hab : a = b
  · subst hab
    rw [if_pos rfl, Finmap.lookup_insert]
    rfl
  · rw [if_neg hab, Finmap.lookup_insert_of_ne _ (Ne.symm hab), lookup_entriesOf]

end Accounts

theorem Account.entry_fresh (a : Address) : (Account.fresh a).entry = Reference.Entry.blank := by
  have hslot : (Account.fresh a).slot = fun _ ↦ [] := by
    funext key
    simp [Account.slot, Account.fresh]
  rw [Account.entry, hslot]
  rfl

theorem Account.entry_setSlot (a : Account) (key : Word) (value : Bytes) :
    (a.setSlot key value).entry
      = { a.entry with slot := Function.update a.entry.slot key value } := by
  have hslot : (a.setSlot key value).slot = Function.update a.slot key value := by
    funext k
    rw [slot_setSlot, Function.update_apply]
    simp only [eq_comm]
  rw [Account.entry, hslot]
  rfl

namespace WorldState

/-- What a world state says, without the order of the accounts. -/
def reference (s : WorldState) : Reference.Ledger where
  entries := s.accounts.entriesOf
  logs := s.logs
  refund := s.refund.toNat

variable (s : WorldState)

theorem get?_reference (a : Address) :
    s.reference.get? a = (s.account? a).map Account.entry :=
  s.accounts.lookup_entriesOf a

theorem view_reference (a : Address) : s.reference.view a = (s.view a).entry := by
  rw [Reference.Ledger.view, get?_reference, view]
  cases s.account? a with
  | none => exact (Account.entry_fresh a).symm
  | some account => rfl

theorem accountIsEmpty_eq (a : Address) : s.accountIsEmpty a = (s.view a).isEmpty := by
  rw [accountIsEmpty, view]
  cases s.account? a with
  | none => exact (Account.isEmpty_fresh a).symm
  | some account => rfl

theorem isDestroyed_eq (a : Address) : s.isDestroyed a = (s.view a).destroyed := by
  rw [isDestroyed, view]
  cases s.account? a <;> rfl

theorem isEmpty_eq_entry (account : Account) :
    (account.entry.nonce = 0 && account.entry.balance = 0 && account.entry.code.isEmpty)
      = account.isEmpty := by
  have hzero : ∀ v : U256, decide (v.toNat = 0) = decide (v = 0) := fun v ↦ by
    rw [decide_eq_decide]
    exact ⟨fun h ↦ BitVec.eq_of_toNat_eq h, fun h ↦ h ▸ rfl⟩
  rw [Account.isEmpty, ← hzero, ← hzero]
  rfl

/-- **Reads agree.** -/
theorem answer_reference {q : Query} (h : q.isCovered = true) :
    s.reference.answer q = s.answer q := by
  cases q with
  | accountExists a =>
    refine congrArg Answer.flag ?_
    rw [Bool.eq_iff_iff, decide_eq_true_iff]
    exact s.accounts.mem_entriesOf a
  | accountIsEmpty a =>
    refine congrArg Answer.flag ?_
    rw [view_reference, isEmpty_eq_entry, accountIsEmpty_eq]
  | isDestroyed a =>
    refine congrArg Answer.flag ?_
    rw [view_reference, isDestroyed_eq]
    rfl
  | code a =>
    refine congrArg Answer.bytes ?_
    rw [view_reference]
    rfl
  | codeSize a =>
    refine congrArg Answer.count ?_
    rw [view_reference]
    rfl
  | balance a =>
    refine congrArg Answer.number ?_
    rw [view_reference]
    exact U256.ofNat_toNat _
  | nonce a =>
    refine congrArg Answer.number ?_
    rw [view_reference]
    exact U256.ofNat_toNat _
  | slot a key =>
    refine congrArg Answer.bytes ?_
    rw [view_reference]
    rfl
  | size => exact congrArg Answer.count s.accounts.card_keys_entriesOf
  | refund => exact congrArg Answer.number (U256.ofNat_toNat _)
  | logs => rfl
  | account a => simp [Query.isCovered] at h
  | accounts => simp [Query.isCovered] at h
  | committable => simp [Query.isCovered] at h

/-! #### Changes agree -/

theorem reference_put (a : Address) (account : Account) :
    WorldState.reference { s with accounts := s.accounts.put a account }
      = s.reference.put a account.entry := by
  rw [reference, Accounts.entriesOf_put]
  rfl

theorem reference_modify {f : Account → Account} {g : Reference.Entry → Reference.Entry}
    (h : ∀ x, (f x).entry = g x.entry) (a : Address) :
    (s.modify a f).reference = s.reference.update a g := by
  have hentries : (s.accounts.modify a f).entriesOf
      = s.accounts.entriesOf.insert a (g (s.view a).entry) := by
    refine Finmap.ext_lookup fun b ↦ ?_
    rw [Accounts.lookup_entriesOf, Accounts.get?_modify]
    by_cases hab : a = b
    · subst hab
      rw [if_pos rfl, Finmap.lookup_insert, ← h]
      rfl
    · rw [if_neg hab, Finmap.lookup_insert_of_ne _ (Ne.symm hab), Accounts.lookup_entriesOf]
  rw [Reference.Ledger.update, view_reference, reference, modify, hentries]
  rfl

theorem reference_addBalance (a : Address) (amount : U256) :
    s.reference.apply (.addBalance a amount)
      = ((s.addBalance a amount).1, (s.addBalance a amount).2.reference) := by
  have hbalance : (s.reference.view a).balance
      = (s.accounts.getOrCreate a).1.balance.toNat := by
    rw [view_reference, Accounts.fst_getOrCreate]
    rfl
  rw [Reference.Ledger.apply, addBalance, hbalance]
  dsimp only
  -- the sum fits on both sides or on neither
  cases hadd : (s.accounts.getOrCreate a).1.balance.add? amount with
  | some balance =>
    have hsum := U256.add?_eq_some_iff.mp hadd
    have hlt := U256.toNat_lt_size balance
    have hmodify := s.reference_modify (f := ({ · with balance }))
      (g := ({ · with balance := balance.toNat })) (fun _ ↦ rfl) a
    rw [if_pos (by omega), ← hsum, ← hmodify]
    rfl
  | none =>
    have hsize := U256.add?_eq_none_iff.mp hadd
    rw [if_neg (by omega), U256.ofNat_toNat, snd_getOrCreate_of_add?_eq_none hadd]
    rfl

theorem reference_subBalance (a : Address) (amount : U256) :
    s.reference.apply (.subBalance a amount)
      = ((s.subBalance a amount).1, (s.subBalance a amount).2.reference) := by
  rw [Reference.Ledger.apply, subBalance, get?_reference]
  cases s.account? a with
  | none => rfl
  | some account =>
    have hbalance : account.entry.balance = account.balance.toNat := rfl
    simp only [Option.map_some, hbalance]
    cases hsub : account.balance.sub? amount with
    | some balance =>
      obtain ⟨hle, hdiff⟩ := U256.sub?_eq_some_iff.mp hsub
      rw [if_pos hle, ← hdiff]
      refine Prod.ext rfl ?_
      exact (s.reference_put a { account with balance }).symm
    | none =>
      have hlt := U256.sub?_eq_none_iff.mp hsub
      rw [if_neg (by omega), U256.ofNat_toNat]
      rfl

theorem reference_subRefund (amount : U256) :
    s.reference.apply (.subRefund amount)
      = ((s.subRefund amount).1, (s.subRefund amount).2.reference) := by
  have hrefund : s.reference.refund = s.refund.toNat := rfl
  rw [Reference.Ledger.apply, subRefund, hrefund]
  cases hsub : s.refund.sub? amount with
  | some refund =>
    obtain ⟨hle, hdiff⟩ := U256.sub?_eq_some_iff.mp hsub
    rw [if_pos hle, ← hdiff]
    rfl
  | none =>
    have hlt := U256.sub?_eq_none_iff.mp hsub
    rw [if_neg (by omega), U256.ofNat_toNat]
    rfl

theorem reference_destroy (a : Address) :
    s.reference.apply (.destroy a) = .done () (s.destroy a).reference := by
  rw [Reference.Ledger.apply, destroy, get?_reference]
  cases s.account? a with
  | none => rfl
  | some account =>
    refine Prod.ext rfl ?_
    exact (s.reference_put a { account with destroyed := true }).symm

/-- **Changes agree**, in what they answer and in what they leave. -/
theorem apply_reference (c : Change) :
    s.reference.apply c = ((s.apply c).1, (s.apply c).2.reference) := by
  cases c with
  | createAccount a =>
    have hput := s.reference_put a (Account.fresh a)
    rw [Account.entry_fresh] at hput
    exact Prod.ext rfl hput.symm
  | insertAccount account => exact Prod.ext rfl (s.reference_put account.address account).symm
  | setCode a code =>
    have hmodify := s.reference_modify (f := ({ · with code })) (g := ({ · with code }))
      (fun _ ↦ rfl) a
    exact Prod.ext rfl hmodify.symm
  | setNonce a nonce =>
    have hmodify := s.reference_modify (f := ({ · with nonce }))
      (g := ({ · with nonce := nonce.toNat })) (fun _ ↦ rfl) a
    exact Prod.ext rfl hmodify.symm
  | setSlot a key value =>
    have hmodify := s.reference_modify (f := (·.setSlot key value))
      (g := fun e ↦ { e with slot := Function.update e.slot key value })
      (fun x ↦ x.entry_setSlot key value) a
    exact Prod.ext rfl hmodify.symm
  | addBalance a amount => exact s.reference_addBalance a amount
  | subBalance a amount => exact s.reference_subBalance a amount
  | destroy a => exact s.reference_destroy a
  | addRefund amount =>
    have hrefund := U256.toNat_addSaturating s.refund amount
    refine Prod.ext rfl ?_
    exact congrArg (Reference.Ledger.mk s.accounts.entriesOf s.logs) hrefund.symm
  | subRefund amount => exact s.reference_subRefund amount
  | appendLog log => rfl

/-- Which changes create an account, and that none removes one. -/
theorem accountExists_apply (c : Change) (a : Address) :
    (s.apply c).2.accountExists a = true ↔ s.accountExists a = true ∨ c.created? = some a := by
  have hmem : ∀ t : WorldState, a ∈ t.reference.entries ↔ t.accountExists a = true :=
    fun t ↦ t.accounts.mem_entriesOf a
  have hlaw := s.reference.mem_apply_iff c (a := a)
  rwa [apply_reference, hmem, hmem] at hlaw

end WorldState

/-! ### Runs -/

namespace Session

/-- What a session says: its world state and those of its snapshots as references. -/
def reference (s : Session) : Reference.Session where
  ledger := s.state.reference
  snapshots := fun name ↦ (s.snapshots[name]?).map fun snapshot ↦ snapshot.accounts.entriesOf

theorem reference_empty : Session.empty.reference = Reference.Session.empty := by
  have hentries : Accounts.empty.entriesOf = ∅ := by
    refine Finmap.ext_lookup fun a ↦ ?_
    rw [Accounts.lookup_entriesOf, Accounts.get?_empty, Finmap.lookup_empty]
    rfl
  have hsnapshots : (fun name ↦ (Session.empty.snapshots[name]?).map
      fun snapshot ↦ snapshot.accounts.entriesOf) = Reference.Session.empty.snapshots := by
    funext name
    simp [Session.empty, Reference.Session.empty]
  rw [reference, hsnapshots, WorldState.reference]
  show Reference.Session.mk ⟨Accounts.empty.entriesOf, _, _⟩ _ = _
  rw [hentries]
  rfl

/-- **One step.** A session and its reference answer alike and stay alike. -/
theorem step_reference (s : Session) {c : Command} (h : c.isCovered = true) :
    s.reference.step c = ((s.step c).1, (s.step c).2.reference) := by
  cases c with
  | query q =>
    have hanswer := s.state.answer_reference (q := q) h
    exact Prod.ext (congrArg Except.ok hanswer) rfl
  | change c =>
    have happly : s.reference.ledger.apply c
        = ((s.state.apply c).1, (s.state.apply c).2.reference) := s.state.apply_reference c
    rw [Reference.Session.step, step, happly]
    rcases s.state.apply c with ⟨_ | _, state⟩ <;> rfl
  | snapshot name =>
    have hnames : (fun name' ↦ ((s.snapshots.insert name s.state.snapshot)[name']?).map
        fun snapshot ↦ snapshot.accounts.entriesOf)
          = Function.update s.reference.snapshots name (some s.state.accounts.entriesOf) := by
      funext name'
      rw [Std.ExtTreeMap.getElem?_insert, Function.update_apply]
      by_cases hname : name' = name
      · rw [hname, if_pos Std.ReflCmp.compare_self, if_pos rfl]
        rfl
      · rw [if_neg fun h ↦ hname (Std.LawfulEqCmp.eq_of_compare h).symm, if_neg hname]
        rfl
    refine Prod.ext rfl ?_
    exact congrArg (Reference.Session.mk s.state.reference) hnames.symm
  | revert name =>
    have hname : s.reference.snapshots name
        = (s.snapshots[name]?).map fun snapshot ↦ snapshot.accounts.entriesOf := rfl
    rw [Reference.Session.step, step, hname]
    cases s.snapshots[name]? <;> rfl

/-- **Refinement.** Whatever is asked of a session and done to it, in runs of any length, every
answer and every error is that of the reference, and so is what is left in the end. -/
theorem run_eq_reference (s : Session) (commands : List Command)
    (h : ∀ c ∈ commands, c.isCovered = true) :
    (s.run commands).1 = (s.reference.run commands).1 ∧
      (s.run commands).2.reference = (s.reference.run commands).2 := by
  induction commands generalizing s with
  | nil => exact ⟨rfl, rfl⟩
  | cons c commands ih =>
    have hstep := s.step_reference (h c List.mem_cons_self)
    obtain ⟨hresults, hleft⟩ := ih (s.step c).2 fun d hd ↦ h d (List.mem_cons_of_mem c hd)
    rw [run, Reference.Session.run, hstep]
    exact ⟨congrArg ((s.step c).1 :: ·) hresults, hleft⟩

/-- A run with refused changes, an empty value for an absent account and a return. -/
def returning : List Command :=
  [.change (.subBalance FixedBytes.zero 5), .query .size,
    .change (.setSlot FixedBytes.zero FixedBytes.zero []), .query (.accountExists FixedBytes.zero),
    .snapshot "before", .change (.addBalance FixedBytes.zero 7),
    .change (.subBalance FixedBytes.zero 9), .change (.addRefund 3), .revert "before",
    .query (.balance FixedBytes.zero), .query .refund]

theorem run_eq_reference_returning :
    (∀ c ∈ returning, c.isCovered = true) ∧
      (Session.empty.run returning).1 = (Session.empty.reference.run returning).1 ∧
      (Session.empty.run returning).2.reference = (Session.empty.reference.run returning).2 := by
  have hcovered : ∀ c ∈ returning, c.isCovered = true := by decide
  exact ⟨hcovered, run_eq_reference Session.empty returning hcovered⟩

end Session

end ExecState
