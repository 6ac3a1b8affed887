import ExecState.Allocation.Document
import ExecState.Ledger.Session
import Mathlib.Data.List.Nodup
import Mathlib.Data.List.Perm.Lattice

/-!
# The index of accounts

The accounts of a ledger are kept twice: in a map by address, and in a list of addresses in the
order of their first appearance. They are *indexed* when the two agree: no address is listed twice,
exactly the addresses with an entry are listed, and an entry carries the address it is stored
under. Listing the accounts then yields each of them once.

Every world state that the operations can produce has indexed accounts. What an operation does to
the accounts is said once, in `WorldState.accounts_apply`: it leaves them alone, it inserts an
account, or it modifies one without changing its address.
-/

namespace ExecState

/-! ## Indexed accounts -/

namespace Accounts

/-- The order and the entries agree. -/
structure Indexed (s : Accounts) : Prop where
  /-- No address is listed twice. -/
  nodup : s.order.Nodup
  /-- The listed addresses are those with an entry. -/
  mem_order : ∀ a, a ∈ s.order ↔ (s.get? a).isSome
  /-- An entry carries the address it is stored under. -/
  address_eq : ∀ {a account}, s.get? a = some account → account.address = a

theorem indexed_empty : empty.Indexed where
  nodup := List.nodup_nil
  mem_order a := by rw [get?_empty]; simp [empty]
  address_eq h := by rw [get?_empty] at h; simp at h

variable {s : Accounts} {a : Address}

/-- The listed addresses after storing an account, whether or not its address is new. -/
theorem mem_order_put {b : Address} {account : Account} (h : s.Indexed) :
    b ∈ (s.put a account).order ↔ a = b ∨ b ∈ s.order := by
  rw [put]
  split
  · rename_i ha
    refine ⟨Or.inr, fun hb ↦ hb.elim (fun hab ↦ ?_) id⟩
    exact hab ▸ (h.mem_order a).mpr ha
  · rw [List.mem_append, List.mem_singleton, or_comm, eq_comm]

theorem Indexed.put {account : Account} (h : s.Indexed) (ha : account.address = a) :
    (s.put a account).Indexed where
  nodup := by
    rw [Accounts.put]
    split
    · exact h.nodup
    · rename_i hnone
      have hnot : a ∉ s.order := fun hmem ↦ hnone ((h.mem_order a).mp hmem)
      exact List.nodup_append.mpr ⟨h.nodup, List.nodup_singleton a, by
        intro x hx y hy hxy
        rw [List.mem_singleton] at hy
        exact hnot (hy ▸ hxy ▸ hx)⟩
  mem_order b := by
    rw [mem_order_put h, get?_put]
    split
    · rename_i hab
      simp [hab]
    · rename_i hab
      simp [hab, h.mem_order b]
  address_eq {b x} hx := by
    rw [get?_put] at hx
    split at hx
    · rename_i hab
      rw [← Option.some_inj.mp hx, ha, hab]
    · exact h.address_eq hx

theorem Indexed.insert (h : s.Indexed) (account : Account) : (s.insert account).Indexed :=
  h.put rfl

theorem fst_getOrCreate (s : Accounts) (a : Address) :
    (s.getOrCreate a).1 = (s.get? a).getD (Account.fresh a) := by
  rw [getOrCreate]
  cases s.get? a <;> rfl

theorem snd_getOrCreate_of_some {account : Account} (h : s.get? a = some account) :
    (s.getOrCreate a).2 = s := by
  rw [getOrCreate, h]

theorem Indexed.getOrCreate (h : s.Indexed) (a : Address) : (s.getOrCreate a).2.Indexed := by
  rw [Accounts.getOrCreate]
  cases s.get? a with
  | some account => exact h
  | none => exact h.insert _

theorem Indexed.address_getOrCreate (h : s.Indexed) (a : Address) :
    (s.getOrCreate a).1.address = a := by
  rw [fst_getOrCreate]
  cases ha : s.get? a with
  | some account => exact h.address_eq ha
  | none => rfl

theorem Indexed.modify (h : s.Indexed) {f : Account → Account}
    (hf : ∀ x, (f x).address = x.address) (a : Address) : (s.modify a f).Indexed :=
  (h.getOrCreate a).put ((hf _).trans (h.address_getOrCreate a))

/-! ### Listing the accounts -/

theorem Indexed.mem_toList {account : Account} (h : s.Indexed) :
    account ∈ s.toList ↔ s.get? account.address = some account := by
  rw [toList, List.mem_filterMap]
  constructor
  · rintro ⟨a, -, ha⟩
    rwa [h.address_eq ha]
  · intro hget
    exact ⟨account.address, (h.mem_order _).mpr (by rw [hget]; rfl), hget⟩

theorem Indexed.map_address_toList (h : s.Indexed) : s.toList.map Account.address = s.order := by
  have hstep : ∀ l : List Address, (∀ a ∈ l, a ∈ s.order) →
      (l.filterMap s.get?).map Account.address = l := by
    intro l
    induction l with
    | nil => intro _; rfl
    | cons a l ih =>
      intro hl
      obtain ⟨account, hget⟩ :=
        Option.isSome_iff_exists.mp ((h.mem_order a).mp (hl a List.mem_cons_self))
      rw [List.filterMap_cons_some hget, List.map_cons, h.address_eq hget,
        ih fun b hb ↦ hl b (List.mem_cons_of_mem a hb)]
  exact hstep s.order fun _ ha ↦ ha

theorem Indexed.nodup_toList (h : s.Indexed) : s.toList.Nodup := by
  refine List.Nodup.of_map Account.address ?_
  rw [h.map_address_toList]
  exact h.nodup

end Accounts

/-! ## What an operation does to the accounts -/

namespace WorldState

/-- An absent account has no balance that could overflow, so nothing is created by failing. -/
theorem snd_getOrCreate_of_add?_eq_none {s : Accounts} {a : Address} {amount : U256}
    (h : (s.getOrCreate a).1.balance.add? amount = none) : (s.getOrCreate a).2 = s := by
  rw [U256.add?_eq_none_iff, Accounts.fst_getOrCreate] at h
  cases ha : s.get? a with
  | some account => exact Accounts.snd_getOrCreate_of_some ha
  | none =>
    have hlt := U256.toNat_lt_size amount
    rw [ha] at h
    simp [Account.fresh] at h
    omega

/-- A balance that does not overflow is added to by modifying the account; where it does the
accounts are left alone. -/
theorem accounts_addBalance (s : WorldState) (a : Address) (amount : U256) :
    (s.addBalance a amount).2.accounts = s.accounts ∨
      ∃ balance, (s.addBalance a amount).2.accounts =
        s.accounts.modify a ({ · with balance }) := by
  rw [addBalance]
  dsimp only
  split
  · rename_i balance _
    exact Or.inr ⟨balance, rfl⟩
  · rename_i hnone
    exact Or.inl (snd_getOrCreate_of_add?_eq_none hnone)

/-- Putting back an account that is there is modifying it. -/
theorem put_eq_modify {s : Accounts} {a : Address} {account : Account} {f : Account → Account}
    (h : s.get? a = some account) : s.put a (f account) = s.modify a f := by
  show _ = (s.getOrCreate a).2.put a (f (s.getOrCreate a).1)
  rw [Accounts.fst_getOrCreate, Accounts.snd_getOrCreate_of_some h, h]
  rfl

/-- **The three things an operation can do to the accounts.** -/
theorem accounts_apply (s : WorldState) (c : Change) :
    (s.apply c).2.accounts = s.accounts ∨
      (∃ account, (s.apply c).2.accounts = s.accounts.insert account) ∨
      ∃ a f, (∀ x : Account, (f x).address = x.address) ∧
        (s.apply c).2.accounts = s.accounts.modify a f := by
  cases c with
  | createAccount a => exact Or.inr (Or.inl ⟨Account.fresh a, rfl⟩)
  | insertAccount account => exact Or.inr (Or.inl ⟨account, rfl⟩)
  | setCode a code => exact Or.inr (Or.inr ⟨a, ({ · with code }), fun _ ↦ rfl, rfl⟩)
  | setNonce a nonce => exact Or.inr (Or.inr ⟨a, ({ · with nonce }), fun _ ↦ rfl, rfl⟩)
  | setSlot a key value => exact Or.inr (Or.inr ⟨a, (·.setSlot key value), fun _ ↦ rfl, rfl⟩)
  | addBalance a amount =>
    rcases accounts_addBalance s a amount with h | ⟨balance, h⟩
    · exact Or.inl h
    · exact Or.inr (Or.inr ⟨a, ({ · with balance }), fun _ ↦ rfl, h⟩)
  | subBalance a amount =>
    cases ha : s.account? a with
    | none => left; simp [apply, subBalance, ha]
    | some account =>
      cases hb : account.balance.sub? amount with
      | none => left; simp [apply, subBalance, ha, hb]
      | some balance =>
        refine Or.inr (Or.inr ⟨a, ({ · with balance }), fun _ ↦ rfl, ?_⟩)
        rw [← put_eq_modify ha]
        simp [apply, subBalance, ha, hb]
  | destroy a =>
    cases ha : s.account? a with
    | none => left; simp [apply, destroy, ha]
    | some account =>
      refine Or.inr (Or.inr ⟨a, ({ · with destroyed := true }), fun _ ↦ rfl, ?_⟩)
      rw [← put_eq_modify ha]
      simp [apply, destroy, ha]
  | addRefund amount => exact Or.inl rfl
  | subRefund amount =>
    left
    cases hr : s.refund.sub? amount <;> simp [apply, subRefund, hr]
  | appendLog log => exact Or.inl rfl

/-! ## World states that can arise -/

/-- A world state that the operations produce from the empty one. Failing operations count, and so
does going back to a snapshot of any other world state that can arise. -/
inductive Reachable : WorldState → Prop
  | empty : Reachable empty
  | apply {s : WorldState} (h : Reachable s) (c : Change) : Reachable (s.apply c).2
  | revertTo {s t : WorldState} (hs : Reachable s) (ht : Reachable t) :
      Reachable (s.revertTo t.snapshot)

/-- The world state after a row of changes, failing ones included. -/
def after (s : WorldState) (changes : List Change) : WorldState :=
  changes.foldl (fun s c ↦ (s.apply c).2) s

theorem Reachable.after {s : WorldState} (h : s.Reachable) (changes : List Change) :
    (s.after changes).Reachable := by
  induction changes generalizing s with
  | nil => exact h
  | cons c changes ih => exact ih (h.apply c)

theorem Reachable.indexed {s : WorldState} (h : s.Reachable) : s.accounts.Indexed := by
  induction h with
  | empty => exact Accounts.indexed_empty
  | apply _ c ih =>
    rename_i s _
    rcases accounts_apply s c with h | ⟨account, h⟩ | ⟨a, f, hf, h⟩
    · rwa [h]
    · rw [h]; exact ih.insert account
    · rw [h]; exact ih.modify hf a
  | revertTo _ _ _ iht => exact iht

theorem Reachable.mem_committable {s : WorldState} (h : s.Reachable) {account : Account} :
    account ∈ s.committable ↔
      s.account? account.address = some account ∧ account.isCommittable := by
  rw [committable, List.mem_filter, h.indexed.mem_toList]
  rfl

theorem Reachable.eq_of_address_eq {s : WorldState} (h : s.Reachable) {x y : Account}
    (hx : x ∈ s.committable) (hy : y ∈ s.committable) (hxy : x.address = y.address) : x = y := by
  have hget := (h.mem_committable.mp hx).1
  rw [hxy, (h.mem_committable.mp hy).1] at hget
  exact (Option.some_inj.mp hget).symm

end WorldState

/-! ## Loaded world states -/

namespace Allocation

section Loading

-- what every change keeps that does not insert an account as it is, loading keeps as well
variable {I : WorldState → Prop} {s t : WorldState}
  (hI : ∀ {s : WorldState} {c : Change}, (∀ account, c ≠ .insertAccount account) → I s →
    I (s.apply c).2)
include hI

theorem inv_loadBalance {a : Address} {q : Option Quantity} (hs : I s)
    (h : loadBalance a q s = .ok t) : I t := by
  cases q with
  | none => rw [← Except.ok.inj h]; exact hs
  | some q =>
    cases hq : q.value with
    | error e => simp [loadBalance, hq, bind, Except.bind] at h
    | ok amount =>
      have hstep : I (s.addBalance a amount).2 := hI (c := .addBalance a amount) nofun hs
      simp only [loadBalance, hq, bind, Except.bind] at h
      split at h
      · rename_i t' heq
        rw [heq] at hstep
        rw [← Except.ok.inj h]
        exact hstep
      · simp at h

theorem inv_loadNonce {a : Address} {q : Option Quantity} (hs : I s)
    (h : loadNonce a q s = .ok t) : I t := by
  cases q with
  | none => rw [← Except.ok.inj h]; exact hs
  | some q =>
    cases hq : q.value with
    | error e => simp [loadNonce, hq, bind, Except.bind] at h
    | ok nonce =>
      simp only [loadNonce, hq, bind, Except.bind, pure, Except.pure, Except.ok.injEq] at h
      exact h ▸ hI (c := .setNonce a nonce) nofun hs

theorem inv_loadCode {a : Address} {text : Option String} (hs : I s)
    (h : loadCode a text s = .ok t) : I t := by
  cases text with
  | none => rw [← Except.ok.inj h]; exact hs
  | some text =>
    cases hc : readCode a text with
    | error e => simp [loadCode, hc, bind, Except.bind] at h
    | ok code =>
      simp only [loadCode, hc, bind, Except.bind, pure, Except.pure, Except.ok.injEq] at h
      exact h ▸ hI (c := .setCode a code) nofun hs

theorem inv_loadSlot {a : Address} {slot : String × String} (hs : I s)
    (h : loadSlot a s slot = .ok t) : I t := by
  cases hv : readSlotValue slot.2 with
  | error e => simp [loadSlot, hv, bind, Except.bind] at h
  | ok value =>
    cases hk : readSlotKey slot.1 with
    | error e =>
      simp only [loadSlot, hv, hk, bind, Except.bind, pure, Except.pure] at h
      split at h
      · exact Except.ok.inj h ▸ hs
      · simp at h
    | ok key =>
      simp only [loadSlot, hv, hk, bind, Except.bind, pure, Except.pure] at h
      split at h
      · exact Except.ok.inj h ▸ hs
      · exact Except.ok.inj h ▸ hI (c := .setSlot a key value) nofun hs

omit hI in
theorem inv_foldlM {α : Type} {step : WorldState → α → Except AllocationError WorldState}
    (hstep : ∀ {s t : WorldState} {x : α}, I s → step s x = .ok t → I t) :
    ∀ {l : List α} {s t : WorldState}, I s → l.foldlM step s = .ok t → I t
  | [], s, t, hs, h => Except.ok.inj h ▸ hs
  | x :: l, s, t, hs, h => by
    rw [List.foldlM_cons] at h
    cases hx : step s x with
    | error e => simp [hx, bind, Except.bind] at h
    | ok s' =>
      rw [hx] at h
      exact inv_foldlM hstep (hstep hs hx) h

theorem inv_loadEntry {entry : String × Entry} (hs : I s) (h : loadEntry s entry = .ok t) :
    I t := by
  cases ha : readAddress entry.1 with
  | error e => simp [loadEntry, ha, bind, Except.bind] at h
  | ok a =>
    have h₀ : I (s.createAccount a) := hI (c := .createAccount a) nofun hs
    cases hb : loadBalance a entry.2.balance (s.createAccount a) with
    | error e => simp [loadEntry, ha, hb, bind, Except.bind] at h
    | ok s₁ =>
      have h₁ := inv_loadBalance hI h₀ hb
      cases hn : loadNonce a entry.2.nonce s₁ with
      | error e => simp [loadEntry, ha, hb, hn, bind, Except.bind] at h
      | ok s₂ =>
        have h₂ := inv_loadNonce hI h₁ hn
        cases hc : loadCode a entry.2.code s₂ with
        | error e => simp [loadEntry, ha, hb, hn, hc, bind, Except.bind] at h
        | ok s₃ =>
          have h₃ := inv_loadCode hI h₂ hc
          simp only [loadEntry, ha, hb, hn, hc, bind, Except.bind] at h
          exact inv_foldlM (inv_loadSlot hI) h₃ h

/-- What holds before anything happened and is kept by every change that does not insert an account
as it is, holds of a loaded world state. -/
theorem inv_toState {allocation : Allocation} (hempty : I WorldState.empty)
    (h : allocation.toState = .ok t) : I t :=
  inv_foldlM (inv_loadEntry hI) hempty h

end Loading

/-- Loading an allocation leads to no world state that the operations do not lead to. -/
theorem reachable_toState {t : WorldState} {allocation : Allocation}
    (h : allocation.toState = .ok t) : t.Reachable :=
  inv_toState (fun _ hs ↦ hs.apply _) WorldState.Reachable.empty h

end Allocation

end ExecState
