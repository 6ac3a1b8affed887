import ExecState.Proofs.Commit.Writes
import ExecState.Proofs.Ledger.Order

/-!
# Slots with the empty value

Writing the empty value under a key takes the key away, so one would expect a storage to hold no
empty values: a slot that was emptied is then like one that was never written, and what is read
under all keys determines the storage and its root. A key that is there with the empty value is
*blank*. It is read like a key that is absent, yet it is a leaf of the trie of the storage.

Inserting a whole account is the one operation that lets blank keys in
(`WorldState.hasBlank_apply`), since it takes the storage as it is. All others leave no key blank
that was not blank before, going back to a snapshot included, and no loaded allocation has any. So
every blank key of a world state was inserted as such (`Session.exists_inserted_of_isBlank`). As
long as none is, what is read settles the rest (`Account.EmptyIsAbsent`).
-/

namespace ExecState

/-! ## Accounts -/

namespace Account

/-- Whether a key is in the storage with the empty value. -/
def IsBlank (a : Account) (key : Word) : Prop := a.storage[key]? = some []

/-- Whether no key of the storage is blank. -/
def IsTidy (a : Account) : Prop := ∀ key, ¬ a.IsBlank key

variable {a b : Account} {key k : Word} {value : Bytes}

theorem isTidy_fresh (address : Address) : (fresh address).IsTidy := by
  intro key
  simp [IsBlank, fresh]

theorem getElem?_storage_setSlot :
    (a.setSlot key value).storage[k]?
      = if key = k then (if value.isEmpty then none else some value) else a.storage[k]? := by
  rw [setSlot]
  by_cases hvalue : value.isEmpty <;>
    simp [hvalue, Std.ExtTreeMap.getElem?_erase, Std.ExtTreeMap.getElem?_insert]

/-- No key becomes blank by writing to it. -/
theorem isBlank_of_isBlank_setSlot (h : (a.setSlot key value).IsBlank k) : a.IsBlank k := by
  rw [IsBlank, getElem?_storage_setSlot] at h
  split at h
  · split at h
    · cases h
    · rename_i hvalue
      rw [Option.some_inj.mp h] at hvalue
      exact absurd rfl hvalue
  · exact h

theorem IsTidy.slot_eq_nil_iff (h : a.IsTidy) : a.slot key = [] ↔ key ∉ a.storage := by
  rw [slot, Std.ExtTreeMap.mem_iff_isSome_getElem?]
  cases hget : a.storage[key]? with
  | none => simp
  | some value =>
    have hne : value ≠ [] := fun hnil ↦ h key (by rw [IsBlank, hget, hnil])
    simpa using hne

theorem IsTidy.storage_eq_of_slot_eq (ha : a.IsTidy) (hb : b.IsTidy)
    (h : ∀ key, a.slot key = b.slot key) : a.storage = b.storage := by
  refine Std.ExtTreeMap.ext_getElem? fun key ↦ ?_
  have hkey := h key
  by_cases hnil : a.slot key = []
  · have hnone := ha.slot_eq_nil_iff.mp hnil
    have hnone' := hb.slot_eq_nil_iff.mp (hkey ▸ hnil)
    rw [Std.ExtTreeMap.getElem?_eq_none hnone, Std.ExtTreeMap.getElem?_eq_none hnone']
  · -- a value that is not empty stands in the storage
    have hget : ∀ {x : Account}, x.slot key ≠ [] → x.storage[key]? = some (x.slot key) := by
      intro x hx
      rw [slot] at hx ⊢
      cases hxkey : x.storage[key]? with
      | none => rw [hxkey] at hx; exact absurd rfl hx
      | some value => rfl
    rw [hget hnil, hget (hkey ▸ hnil), hkey]

/-- Without blank keys, emptying a slot again undoes what was written to an empty one. -/
theorem IsTidy.setSlot_setSlot_nil (h : a.IsTidy) (hnil : a.slot key = []) :
    (a.setSlot key value).setSlot key [] = a := by
  have hstorage : ((a.setSlot key value).setSlot key []).storage = a.storage := by
    refine Std.ExtTreeMap.ext_getElem? fun k ↦ ?_
    rw [getElem?_storage_setSlot, getElem?_storage_setSlot]
    split
    · rename_i hk
      have hnone := Std.ExtTreeMap.getElem?_eq_none (h.slot_eq_nil_iff.mp hnil)
      rw [if_pos List.isEmpty_nil, ← hk, hnone]
    · rfl
  calc (a.setSlot key value).setSlot key []
      = { a with storage := ((a.setSlot key value).setSlot key []).storage } := rfl
    _ = a := by rw [hstorage]

/-- A blank key is read like one that was taken away. -/
theorem IsBlank.slot_setSlot_nil (h : a.IsBlank key) (k : Word) :
    (a.setSlot key []).slot k = a.slot k := by
  rw [slot_setSlot]
  split
  · rename_i hk
    rw [← hk, slot, h]
    rfl
  · rfl

/-- A blank key is a leaf of the trie of the storage, which it would not be if it was absent. -/
theorem IsBlank.leaves_trie_ne {secure : Bool} (h : a.IsBlank key)
    (hkeys : Storage.KeysApart secure a.storage) :
    (Storage.trie secure (a.setSlot key []).storage).leaves
      ≠ (Storage.trie secure a.storage).leaves := by
  have hsub : ∀ {k : Word}, k ∈ (a.setSlot key []).storage → key ≠ k ∧ k ∈ a.storage := by
    intro k hk
    rw [Std.ExtTreeMap.mem_iff_isSome_getElem?, getElem?_storage_setSlot] at hk
    split at hk
    · simp at hk
    · rename_i hne
      exact ⟨hne, Std.ExtTreeMap.mem_iff_isSome_getElem?.mpr hk⟩
  have hkeys' : Storage.KeysApart secure (a.setSlot key []).storage := by
    refine fun hsec ↦ (hkeys hsec).mono ?_
    rintro b ⟨k, hk, rfl⟩
    exact ⟨k, (hsub hk).2, rfl⟩
  intro heq
  have hleaf := (Storage.getElem?_leaves_trie hkeys).mpr ⟨key, [], h, rfl, rfl⟩
  rw [← heq] at hleaf
  obtain ⟨k, w, hk, hpath, -⟩ := (Storage.getElem?_leaves_trie hkeys').mp hleaf
  obtain ⟨hne, hmem⟩ := hsub (Std.ExtTreeMap.getElem?_eq_some_iff.mp hk).fst
  have hkey : k.bytes = key.bytes := by
    refine Trie.eq_of_path_eq (fun hsec ↦ ?_) hpath
    exact hkeys hsec ⟨k, hmem, rfl⟩
      ⟨key, (Std.ExtTreeMap.getElem?_eq_some_iff.mp h).fst, rfl⟩
  exact hne (FixedBytes.bytes_injective hkey).symm

/-- What a key with the empty value is like where no key is blank. -/
structure EmptyIsAbsent (a : Account) : Prop where
  /-- What is read as empty has no entry. -/
  slot_eq_nil_iff : ∀ key, a.slot key = [] ↔ key ∉ a.storage
  /-- A key that was written and emptied again is one that was never written. -/
  setSlot_setSlot_nil : ∀ key value, a.slot key = [] → (a.setSlot key value).setSlot key [] = a
  /-- What is read determines the storage. -/
  storage_eq : ∀ b : Account, b.IsTidy → (∀ key, b.slot key = a.slot key) → b.storage = a.storage
  /-- What is read determines the root of the storage, in whatever order it is walked. -/
  storageRoot_eq : ∀ b : Account, b.IsTidy → (∀ key, b.slot key = a.slot key) →
    ∀ template slots slots', Storage.KeysApart template.secure a.storage →
      slots.Perm a.storage.toList → slots'.Perm b.storage.toList →
      Commit.storageRoot template slots' = Commit.storageRoot template slots

theorem IsTidy.emptyIsAbsent (h : a.IsTidy) : a.EmptyIsAbsent where
  slot_eq_nil_iff _ := h.slot_eq_nil_iff
  setSlot_setSlot_nil _ _ := h.setSlot_setSlot_nil
  storage_eq _ hb hread := hb.storage_eq_of_slot_eq h hread
  storageRoot_eq b hb hread template slots slots' hkeys hslots hslots' := by
    have hstorage := hb.storage_eq_of_slot_eq h hread
    rw [Commit.storageRoot_eq hkeys hslots, Commit.storageRoot_eq (hstorage ▸ hkeys) hslots',
      hstorage]

end Account

/-! ## Ledgers -/

namespace Accounts

/-- Whether the account at an address has a blank key. -/
def HasBlank (s : Accounts) (a : Address) (key : Word) : Prop :=
  ∃ account, s.get? a = some account ∧ account.IsBlank key

variable {s : Accounts} {a b : Address} {key : Word}

theorem not_hasBlank_empty : ¬ empty.HasBlank a key := by
  rintro ⟨account, hget, -⟩
  rw [get?_empty] at hget
  cases hget

theorem hasBlank_of_put {account : Account} (h : (s.put a account).HasBlank b key) :
    s.HasBlank b key ∨ a = b ∧ account.IsBlank key := by
  obtain ⟨x, hget, hblank⟩ := h
  rw [get?_put] at hget
  split at hget
  · rename_i hab
    exact Or.inr ⟨hab, Option.some_inj.mp hget ▸ hblank⟩
  · exact Or.inl ⟨x, hget, hblank⟩

/-- Putting back an account with the storage that it had. -/
theorem hasBlank_of_put_of_storage_eq {x account : Account} (hget : s.get? a = some account)
    (h : (s.put a x).HasBlank b key) (hstorage : x.storage = account.storage) :
    s.HasBlank b key := by
  rcases hasBlank_of_put h with hold | ⟨rfl, hblank⟩
  · exact hold
  · rw [Account.IsBlank, hstorage] at hblank
    exact ⟨account, hget, hblank⟩

/-- Changing an account in a way that makes no key blank. -/
theorem hasBlank_of_modify {f : Account → Account} (h : (s.modify a f).HasBlank b key)
    (hf : ∀ x, (f x).IsBlank key → x.IsBlank key) : s.HasBlank b key := by
  obtain ⟨x, hget, hblank⟩ := h
  rw [get?_modify] at hget
  split at hget
  · rename_i hab
    subst hab
    rw [← Option.some_inj.mp hget] at hblank
    have hblank' := hf _ hblank
    cases hold : s.get? a with
    | none =>
      rw [hold] at hblank'
      exact absurd hblank' (Account.isTidy_fresh a key)
    | some account =>
      rw [hold] at hblank'
      exact ⟨account, hold, hblank'⟩
  · exact ⟨x, hget, hblank⟩

end Accounts

namespace WorldState

/-- **Where blank keys come from.** A key that is blank after a change was blank before it, or it
is one of an account that was inserted as it is. -/
theorem hasBlank_apply (s : WorldState) (c : Change) {a : Address} {key : Word}
    (h : (s.apply c).2.accounts.HasBlank a key) :
    s.accounts.HasBlank a key ∨
      ∃ account, c = .insertAccount account ∧ account.address = a ∧ account.IsBlank key := by
  cases c with
  | createAccount b =>
    refine Or.inl ((Accounts.hasBlank_of_put h).resolve_right ?_)
    rintro ⟨-, hblank⟩
    exact Account.isTidy_fresh b key hblank
  | insertAccount account =>
    refine (Accounts.hasBlank_of_put h).imp_right ?_
    rintro ⟨haddress, hblank⟩
    exact ⟨account, rfl, haddress, hblank⟩
  | setCode b code => exact Or.inl (Accounts.hasBlank_of_modify h fun _ ↦ id)
  | setNonce b nonce => exact Or.inl (Accounts.hasBlank_of_modify h fun _ ↦ id)
  | setSlot b k value =>
    exact Or.inl (Accounts.hasBlank_of_modify h fun _ ↦ Account.isBlank_of_isBlank_setSlot)
  | addBalance b amount =>
    left
    rcases accounts_addBalance s b amount with hsame | ⟨balance, hmodify⟩
    · rwa [apply, hsame] at h
    · rw [apply, hmodify] at h
      exact Accounts.hasBlank_of_modify h fun _ ↦ id
  | subBalance b amount =>
    left
    rw [apply, subBalance] at h
    cases hb : s.account? b with
    | none => rwa [hb] at h
    | some account =>
      rw [hb] at h
      dsimp only at h
      split at h
      · exact Accounts.hasBlank_of_put_of_storage_eq hb h rfl
      · exact h
  | destroy b =>
    left
    rw [apply, destroy] at h
    cases hb : s.account? b with
    | none => rwa [hb] at h
    | some account =>
      rw [hb] at h
      exact Accounts.hasBlank_of_put_of_storage_eq hb h rfl
  | addRefund amount => exact Or.inl h
  | subRefund amount =>
    rw [accounts_apply_of_isLasting rfl] at h
    exact Or.inl h
  | appendLog log => exact Or.inl h

theorem not_hasBlank_ofAllocationText {text : String} {s : WorldState}
    (h : ofAllocationText text = .ok s) (a : Address) (key : Word) :
    ¬ s.accounts.HasBlank a key := by
  rw [ofAllocationText] at h
  split at h
  · refine Allocation.inv_toState (I := fun s ↦ ¬ s.accounts.HasBlank a key) ?_
      Accounts.not_hasBlank_empty h
    intro s c hc hs hblank
    rcases s.hasBlank_apply c hblank with hold | ⟨account, rfl, -⟩
    · exact hs hold
    · exact hc account rfl
  · cases h

end WorldState

/-! ## Runs -/

namespace Session

/-- Whether all blank keys, those of the snapshots included, are among the given ones. -/
structure BlankWithin (P : Address → Word → Prop) (s : Session) : Prop where
  state : ∀ a key, s.state.accounts.HasBlank a key → P a key
  snapshots : ∀ (name : String) (snapshot : Snapshot), s.snapshots[name]? = some snapshot →
    ∀ a key, snapshot.accounts.HasBlank a key → P a key

variable {P : Address → Word → Prop} {s : Session}

theorem BlankWithin.step (h : s.BlankWithin P) {c : Command}
    (hc : ∀ account, c = .change (.insertAccount account) →
      ∀ key, account.IsBlank key → P account.address key) : (s.step c).2.BlankWithin P := by
  cases c with
  | query q => exact h
  | change c =>
    constructor
    · intro a key hblank
      rw [state_step_change] at hblank
      rcases s.state.hasBlank_apply c hblank with hold | ⟨account, rfl, rfl, hnew⟩
      · exact h.state a key hold
      · exact hc account rfl key hnew
    · rw [snapshots_step_change]
      exact h.snapshots
  | snapshot name =>
    refine ⟨h.state, fun other snapshot hother ↦ ?_⟩
    have hinsert : (s.snapshots.insert name s.state.snapshot)[other]? = some snapshot := hother
    rw [Std.ExtTreeMap.getElem?_insert] at hinsert
    split at hinsert
    · rw [← Option.some_inj.mp hinsert]
      exact h.state
    · exact h.snapshots other snapshot hinsert
  | revert name =>
    refine ⟨?_, fun other snapshot hother ↦ ?_⟩
    · cases hname : s.snapshots[name]? with
      | none =>
        rw [Session.step, hname]
        exact h.state
      | some snapshot =>
        rw [state_step_revert hname]
        exact h.snapshots name snapshot hname
    · rw [snapshots_step_revert] at hother
      exact h.snapshots other snapshot hother

theorem BlankWithin.run (h : s.BlankWithin P) (commands : List Command)
    (hc : ∀ account, .change (.insertAccount account) ∈ commands →
      ∀ key, account.IsBlank key → P account.address key) : (s.run commands).2.BlankWithin P := by
  induction commands generalizing s with
  | nil => exact h
  | cons c rest ih =>
    rw [run_cons]
    refine ih (h.step fun account heq ↦ ?_) fun account hmem ↦ ?_
    · exact hc account (heq ▸ List.mem_cons_self)
    · exact hc account (List.mem_cons_of_mem c hmem)

/-- A session starts with nothing or with a loaded allocation, and without snapshots. -/
def IsStart (s : WorldState) : Prop :=
  s = WorldState.empty ∨ ∃ text, WorldState.ofAllocationText text = .ok s

theorem blankWithin_of_isStart {start : WorldState} (h : IsStart start)
    (P : Address → Word → Prop) : (Session.mk start ∅).BlankWithin P where
  state a key hblank := by
    rcases h with rfl | ⟨text, htext⟩
    · exact absurd hblank Accounts.not_hasBlank_empty
    · exact absurd hblank (WorldState.not_hasBlank_ofAllocationText htext a key)
  snapshots name snapshot hname := by simp at hname

theorem exists_inserted_of_isBlank {start : WorldState} (hstart : IsStart start)
    {commands : List Command} {a : Address} {account : Account} {key : Word}
    (hget : (run ⟨start, ∅⟩ commands).2.state.account? a = some account)
    (hblank : account.IsBlank key) :
    ∃ inserted, .change (.insertAccount inserted) ∈ commands ∧ inserted.address = a ∧
      inserted.IsBlank key := by
  have hwithin := (blankWithin_of_isStart hstart fun b k ↦
    ∃ inserted, .change (.insertAccount inserted) ∈ commands ∧ inserted.address = b ∧
      inserted.IsBlank k).run commands
    fun inserted hmem _ hkey ↦ ⟨inserted, hmem, rfl, hkey⟩
  exact hwithin.state a key ⟨account, hget, hblank⟩

/-- **Blank keys are inserted ones.** After any run, from nothing or from a loaded allocation, each
blank key belongs to an account that was inserted with it. It is read as if it was absent and is a
leaf of the trie of the storage all the same. Where no account is inserted with a blank key, an
empty value is an absent one in all accounts. -/
theorem blank_of_run {start : WorldState} (hstart : IsStart start) (commands : List Command) :
    (∀ a account key, (run ⟨start, ∅⟩ commands).2.state.account? a = some account →
      account.IsBlank key →
        (∃ inserted, .change (.insertAccount inserted) ∈ commands ∧ inserted.address = a ∧
          inserted.IsBlank key) ∧
        (∀ k, (account.setSlot key []).slot k = account.slot k) ∧
        ∀ secure, Storage.KeysApart secure account.storage →
          (Storage.trie secure (account.setSlot key []).storage).leaves
            ≠ (Storage.trie secure account.storage).leaves) ∧
      ((∀ inserted, .change (.insertAccount inserted) ∈ commands → inserted.IsTidy) →
        ∀ a account, (run ⟨start, ∅⟩ commands).2.state.account? a = some account →
          account.EmptyIsAbsent) := by
  refine ⟨fun a account key hget hblank ↦ ?_, fun htidy a account hget ↦ ?_⟩
  · exact ⟨exists_inserted_of_isBlank hstart hget hblank, hblank.slot_setSlot_nil,
      fun secure hkeys ↦ hblank.leaves_trie_ne hkeys⟩
  · refine Account.IsTidy.emptyIsAbsent fun key hblank ↦ ?_
    obtain ⟨inserted, hmem, -, hinserted⟩ := exists_inserted_of_isBlank hstart hget hblank
    exact htidy inserted hmem key hinserted

/-- A used account whose storage has a blank key. -/
def blanked : Account :=
  { Account.fresh (Commit.repeated 1) with
    nonce := 1, storage := (∅ : Storage).insert FixedBytes.zero [] }

/-- It is inserted, its blank key is emptied, and the ledger is taken back to before that. -/
def blankedAgain : List Command :=
  [.change (.insertAccount blanked), .snapshot "inserted",
    .change (.setSlot blanked.address FixedBytes.zero []), .revert "inserted"]

/-- A fresh account is inserted, and a key of its storage is written and emptied. -/
def emptied : List Command :=
  [.change (.insertAccount (Account.fresh (Commit.repeated 1))),
    .change (.setSlot (Commit.repeated 1) FixedBytes.zero [7]),
    .change (.setSlot (Commit.repeated 1) FixedBytes.zero [])]

theorem account?_blankedAgain :
    (run ⟨WorldState.empty, ∅⟩ blankedAgain).2.state.account? blanked.address = some blanked := by
  decide +kernel

theorem isBlank_blanked : blanked.IsBlank FixedBytes.zero := by
  rw [Account.IsBlank]
  decide +kernel

theorem account?_emptied :
    (run ⟨WorldState.empty, ∅⟩ emptied).2.state.account? (Commit.repeated 1)
      = some (Account.fresh (Commit.repeated 1)) := by
  decide +kernel

theorem isTidy_of_mem_emptied {inserted : Account}
    (h : .change (.insertAccount inserted) ∈ emptied) : inserted.IsTidy := by
  have hfresh : inserted = Account.fresh (Commit.repeated 1) := by simpa [emptied] using h
  rw [hfresh]
  exact Account.isTidy_fresh _

theorem blank_of_run_started :
    IsStart WorldState.empty ∧
      (∃ inserted, .change (.insertAccount inserted) ∈ blankedAgain ∧
        inserted.address = blanked.address ∧ inserted.IsBlank FixedBytes.zero) ∧
      (Storage.trie false (blanked.setSlot FixedBytes.zero []).storage).leaves
        ≠ (Storage.trie false blanked.storage).leaves ∧
      (Account.fresh (Commit.repeated 1)).EmptyIsAbsent := by
  have hblank := (blank_of_run (Or.inl rfl) blankedAgain).1 _ _ _ account?_blankedAgain
    isBlank_blanked
  have hempty := (blank_of_run (Or.inl rfl) emptied).2 (fun _ ↦ isTidy_of_mem_emptied) _ _
    account?_emptied
  exact ⟨Or.inl rfl, hblank.1, hblank.2.2 false (Storage.keysApart_of_plain _), hempty⟩

/-- So a storage can hold the empty value. -/
theorem not_forall_run_tidy :
    ¬ ∀ (start : WorldState) (commands : List Command) (a : Address) (account : Account)
        (key : Word), IsStart start →
      (run ⟨start, ∅⟩ commands).2.state.account? a = some account →
        account.storage[key]? ≠ some [] := by
  intro h
  exact h WorldState.empty blankedAgain blanked.address blanked FixedBytes.zero (Or.inl rfl)
    account?_blankedAgain isBlank_blanked

end Session

end ExecState
