import ExecState.Allocation.Document
import ExecState.Proofs.Ledger.Refinement
import ExecState.Proofs.Ledger.Revert

/-!
# The order of the accounts

The accounts of a world state are listed in the order in which their addresses first appeared. What
an operation does to that order is said once, in `WorldState.order_apply`: an address that the
operation creates is appended if it is new, and nothing else happens. So an account that is replaced
stays where it was, and only going back to a snapshot can take an address away.

Together with the agreement of order and entries (`Accounts.Indexed`) this settles what listing the
accounts yields in every world state that can arise (`WorldState.Reachable.listed`), loaded ones
included.
-/

namespace ExecState

namespace Accounts

variable {s : Accounts} {a : Address}

/-! ## Counting -/

theorem Indexed.order_perm_keys (h : s.Indexed) : s.order.Perm s.entries.keys := by
  refine (List.perm_ext_iff_of_nodup h.nodup Std.ExtTreeMap.nodup_keys).mpr fun a ↦ ?_
  rw [h.mem_order, Std.ExtTreeMap.mem_keys, Std.ExtTreeMap.mem_iff_isSome_getElem?]
  rfl

theorem Indexed.length_toList (h : s.Indexed) : s.toList.length = s.size := by
  calc s.toList.length = (s.toList.map Account.address).length := List.length_map _ |>.symm
    _ = s.order.length := by rw [h.map_address_toList]
    _ = s.entries.keys.length := h.order_perm_keys.length_eq
    _ = s.size := Std.ExtTreeMap.length_keys

/-! ## What is appended -/

/-- What storing an account under an address appends to the order. -/
def appended (s : Accounts) (a : Address) : List Address :=
  if (s.get? a).isSome then [] else [a]

theorem appended_of_isSome (h : (s.get? a).isSome) : s.appended a = [] := if_pos h

theorem length_appended_le (s : Accounts) (a : Address) : (s.appended a).length ≤ 1 := by
  rw [appended]
  split <;> simp

theorem order_put (s : Accounts) (a : Address) (account : Account) :
    (s.put a account).order = s.order ++ s.appended a := by
  rw [put, appended]
  split <;> simp

theorem order_put_of_isSome (h : (s.get? a).isSome) (account : Account) :
    (s.put a account).order = s.order := by
  rw [order_put, appended_of_isSome h, List.append_nil]

theorem isSome_get?_getOrCreate (s : Accounts) (a : Address) :
    ((s.getOrCreate a).2.get? a).isSome := by
  rw [get?_getOrCreate, if_pos rfl]
  rfl

theorem order_getOrCreate (s : Accounts) (a : Address) :
    (s.getOrCreate a).2.order = s.order ++ s.appended a := by
  rw [getOrCreate]
  cases h : s.get? a with
  | some account =>
    rw [appended_of_isSome (by rw [h]; rfl), List.append_nil]
  | none => exact s.order_put a (Account.fresh a)

theorem order_modify (s : Accounts) (a : Address) (f : Account → Account) :
    (s.modify a f).order = s.order ++ s.appended a := by
  show ((s.getOrCreate a).2.put a (f (s.getOrCreate a).1)).order = _
  rw [order_put_of_isSome (s.isSome_get?_getOrCreate a), order_getOrCreate]

end Accounts

namespace WorldState

/-- **What an operation does to the order.** The address that it creates is appended if it is new,
also where the operation is refused. -/
theorem order_apply (s : WorldState) (c : Change) :
    (s.apply c).2.accounts.order
      = s.accounts.order ++ c.created?.elim [] s.accounts.appended := by
  cases c with
  | createAccount a => exact s.accounts.order_put a (Account.fresh a)
  | insertAccount account => exact s.accounts.order_put account.address account
  | setCode a code => exact s.accounts.order_modify a ({ · with code })
  | setNonce a nonce => exact s.accounts.order_modify a ({ · with nonce })
  | setSlot a key value => exact s.accounts.order_modify a (·.setSlot key value)
  | addBalance a amount =>
    rw [apply, addBalance]
    dsimp only
    -- the account is there before its balance is found to be too great
    split
    · rename_i balance _
      exact s.accounts.order_modify a ({ · with balance })
    · exact s.accounts.order_getOrCreate a
  | subBalance a amount =>
    rw [apply, subBalance, Change.created?]
    cases ha : s.account? a with
    | none => exact (List.append_nil _).symm
    | some account =>
      have hsome : (s.accounts.get? a).isSome := Option.isSome_of_eq_some ha
      dsimp only
      split
      · exact (Accounts.order_put_of_isSome hsome _).trans (List.append_nil _).symm
      · exact (List.append_nil _).symm
  | destroy a =>
    rw [apply, destroy, Change.created?]
    cases ha : s.account? a with
    | none => exact (List.append_nil _).symm
    | some account =>
      have hsome : (s.accounts.get? a).isSome := Option.isSome_of_eq_some ha
      exact (Accounts.order_put_of_isSome hsome _).trans (List.append_nil _).symm
  | addRefund amount => exact (List.append_nil _).symm
  | subRefund amount =>
    rw [accounts_apply_of_isLasting rfl]
    exact (List.append_nil _).symm
  | appendLog log => exact (List.append_nil _).symm

theorem order_step (s : Session) {c : Command} (h : ∀ name, c ≠ .revert name) :
    ∃ new : List Address, (s.step c).2.state.accounts.order = s.state.accounts.order ++ new ∧
      new.length ≤ 1 := by
  cases c with
  | query q => exact ⟨[], (List.append_nil _).symm, Nat.zero_le 1⟩
  | snapshot name => exact ⟨[], (List.append_nil _).symm, Nat.zero_le 1⟩
  | revert name => exact absurd rfl (h name)
  | change c =>
    rw [Session.state_step_change, order_apply]
    refine ⟨_, rfl, ?_⟩
    cases c.created? with
    | none => exact Nat.zero_le 1
    | some a => exact s.state.accounts.length_appended_le a

/-- The text of an allocation leads to no world state that the operations do not lead to. -/
theorem reachable_ofAllocationText {text : String} {s : WorldState}
    (h : ofAllocationText text = .ok s) : s.Reachable := by
  rw [ofAllocationText] at h
  split at h
  · exact Allocation.reachable_toState h
  · cases h

/-- What listing the accounts of a world state yields, and what happens to the order. -/
structure Listed (s : WorldState) : Prop where
  /-- No address is listed twice. -/
  nodup_order : s.accounts.order.Nodup
  /-- The listed addresses are those with an entry. -/
  mem_order : ∀ a, a ∈ s.accounts.order ↔ (s.account? a).isSome
  /-- An entry carries the address it is stored under. -/
  address_eq : ∀ a account, s.account? a = some account → account.address = a
  /-- Each account is listed once, -/
  nodup : s.accounts.toList.Nodup
  /-- the listed accounts are those of the ledger, -/
  mem : ∀ account, account ∈ s.accounts.toList ↔ s.account? account.address = some account
  /-- and they come in the order of their addresses. -/
  map_address : s.accounts.toList.map Account.address = s.accounts.order
  /-- The number of accounts is the length of the list. -/
  size_eq : s.size = s.accounts.toList.length
  /-- Those that are committed are a part of the list, in its order. -/
  committable_eq : s.committable
    = s.accounts.toList.filter fun account ↦ !account.isEmpty && !account.destroyed
  /-- A step that does not go back to a snapshot appends one address at most. -/
  order_step : ∀ snapshots c, (∀ name, c ≠ .revert name) →
    ∃ new : List Address,
      (Session.step ⟨s, snapshots⟩ c).2.state.accounts.order = s.accounts.order ++ new ∧
        new.length ≤ 1
  /-- Creating an account anew leaves it where it was. -/
  order_createAccount : ∀ a, s.accountExists a →
    (s.createAccount a).accounts.order = s.accounts.order
  /-- Replacing an account leaves it where it was. -/
  order_insertAccount : ∀ account, s.accountExists account.address →
    (s.insertAccount account).accounts.order = s.accounts.order

theorem committable_eq (s : WorldState) :
    s.committable
      = s.accounts.toList.filter fun account ↦ !account.isEmpty && !account.destroyed := by
  have hcommittable : Account.isCommittable
      = fun account : Account ↦ !account.isEmpty && !account.destroyed := by
    funext account
    rw [Account.isCommittable, Bool.not_or]
  rw [committable, hcommittable]

/-- **Order and entries agree** in every world state that the operations lead to, from the empty
one or from a loaded one: order and entries hold the same addresses, each of them once, and no
operation but going back to a snapshot moves an account or takes one away. -/
theorem listed_of_reachable :
    (∀ text s, ofAllocationText text = .ok s → s.Reachable) ∧
      ∀ s : WorldState, s.Reachable → s.Listed := by
  refine ⟨fun _ _ ↦ reachable_ofAllocationText, fun s h ↦ ?_⟩
  have hindexed := h.indexed
  exact
    { nodup_order := hindexed.nodup
      mem_order := hindexed.mem_order
      address_eq := fun _ _ ↦ hindexed.address_eq
      nodup := hindexed.nodup_toList
      mem := fun _ ↦ hindexed.mem_toList
      map_address := hindexed.map_address_toList
      size_eq := hindexed.length_toList.symm
      committable_eq := committable_eq s
      order_step := fun snapshots _ ↦ order_step ⟨s, snapshots⟩
      order_createAccount := fun a ha ↦ Accounts.order_put_of_isSome ha (Account.fresh a)
      order_insertAccount := fun account ha ↦ Accounts.order_put_of_isSome ha account }

/-- The address that ends with a byte and is zero before it. -/
def ending (last : UInt8) : Address := ⟨List.replicate 19 0 ++ [last], by simp⟩

/-- A state in which the first of two accounts is replaced and the second destroyed, after a
snapshot was gone back to and a change was refused. -/
def replacedFirst : WorldState :=
  let before := empty.after [.addBalance (ending 1) 5, .setNonce (ending 2) 1]
  let between := before.after [.createAccount (ending 3), .setSlot (ending 1) FixedBytes.zero []]
  (between.revertTo before.snapshot).after
    [.subBalance (ending 2) 9, .createAccount (ending 1), .destroy (ending 2)]

/-- The text of an allocation with one account, which takes part in nothing. -/
def oneEmpty : String := "\x7b\"1\":\x7b\x7d\x7d"

theorem listed_of_reachable_replacedFirst :
    ofAllocationText oneEmpty = .ok (empty.createAccount (ending 1)) ∧
      (empty.createAccount (ending 1)).Reachable ∧
      replacedFirst.Reachable ∧ replacedFirst.Listed := by
  have hread : (ofAllocationText oneEmpty).toOption = some (empty.createAccount (ending 1)) := by
    decide +kernel
  have hloaded : ofAllocationText oneEmpty = .ok (empty.createAccount (ending 1)) := by
    cases h : ofAllocationText oneEmpty with
    | error e => rw [h] at hread; cases hread
    | ok s => rw [h] at hread; exact congrArg Except.ok (Option.some_inj.mp hread)
  have hbefore := Reachable.empty.after [.addBalance (ending 1) 5, .setNonce (ending 2) 1]
  have hreplaced : replacedFirst.Reachable := ((hbefore.after _).revertTo hbefore).after _
  exact ⟨hloaded, listed_of_reachable.1 _ _ hloaded, hreplaced, listed_of_reachable.2 _ hreplaced⟩

end WorldState

end ExecState
