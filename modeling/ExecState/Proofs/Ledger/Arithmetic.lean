import ExecState.Proofs.Ledger.Destruction
import Mathlib.Algebra.GroupWithZero.Nat

/-!
# Balances and refunds as sums

Over a run the balance of an address is what it was at first, plus what was added to it, minus what
was taken from it. The three operations with numbers treat what does not fit in three ways: adding
to a balance is refused and creates the account otherwise, taking from it is refused but succeeds
without effect where there is no account, and granting refunds stops at the largest number. So a sum
counts an addition if it succeeded, and a subtraction if it succeeded while there was an account to
take it from; `Session.moments` lists each step with the session that it finds, where both can be
seen.

A step on the address settles what becomes of its balance (`Change.balance_effect`), all others
leave it alone, and a run adds this up (`Session.balance_run`). Steps that replace the account or go
back are excluded: after them the balance is not that of any sum.

Refunds need no such care. No step but granting and taking back reaches them, going back included,
so the counter of any run is a fold over its steps.
-/

namespace ExecState

/-- What a step adds to the balance of an address if it succeeds. -/
def Command.credit (a : Address) : Command → Nat
  | .change (.addBalance b amount) => if b = a then amount.toNat else 0
  | _ => 0

/-- What a step takes from the balance of an address if it succeeds and there is an account. -/
def Command.debit (a : Address) : Command → Nat
  | .change (.subBalance b amount) => if b = a then amount.toNat else 0
  | _ => 0

/-- The refunds after a step, as whole numbers: what is granted stops at the largest number, and
what exceeds the counter is not taken back. -/
def Command.tally (refund : Nat) : Command → Nat
  | .change (.addRefund amount) => min (refund + amount.toNat) (2 ^ 256 - 1)
  | .change (.subRefund amount) =>
    if amount.toNat ≤ refund then refund - amount.toNat else refund
  | _ => refund

/-! ## One step -/

/-- The balance of an account, which is nothing where there is none. -/
def Account.holding (account : Option Account) : Nat :=
  (account.map fun x ↦ x.balance.toNat).getD 0

theorem Command.credit_eq_zero {a : Address} {c : Command} (h : c.target? ≠ some a) :
    c.credit a = 0 := by
  rcases c with q | c | name | name
  · rfl
  · cases c with
    | addBalance b amount => exact if_neg fun hb ↦ h (congrArg some hb)
    | _ => rfl
  · rfl
  · rfl

theorem Command.debit_eq_zero {a : Address} {c : Command} (h : c.target? ≠ some a) :
    c.debit a = 0 := by
  rcases c with q | c | name | name
  · rfl
  · cases c with
    | subBalance b amount => exact if_neg fun hb ↦ h (congrArg some hb)
    | _ => rfl
  · rfl
  · rfl

/-- What is added counts if the sum fits; a fresh account takes any amount. -/
theorem Change.holding_addBalance (a : Address) (amount : U256) (old : Option Account) :
    Account.holding ((addBalance a amount).effect old).2
      = Account.holding old
        + if ((addBalance a amount).effect old).1.isOk then amount.toNat else 0 := by
  have hold : Account.holding old = (old.getD (Account.fresh a)).balance.toNat := by
    cases old <;> rfl
  rw [effect, hold]
  cases hsum : (old.getD (Account.fresh a)).balance.add? amount with
  | some balance => exact U256.add?_eq_some_iff.mp hsum
  | none => rfl

theorem Change.holding_subBalance (a : Address) (amount : U256) (old : Option Account) :
    Account.holding ((subBalance a amount).effect old).2
        + (if ((subBalance a amount).effect old).1.isOk ∧ old.isSome then amount.toNat else 0)
      = Account.holding old := by
  rcases old with _ | account
  · rfl
  · rw [effect]
    cases hdifference : account.balance.sub? amount with
    | some balance =>
      obtain ⟨hle, hbalance⟩ := U256.sub?_eq_some_iff.mp hdifference
      have hback : balance.toNat + amount.toNat = account.balance.toNat := by omega
      exact hback
    | none => rfl

/-- **The balance after a change** of its account. -/
theorem Change.balance_effect {c : Change} {a : Address}
    (h : (Command.change c).restores a = false) (hon : c.target? = some a)
    (old : Option Account) :
    Account.holding (c.effect old).2
        + (if (c.effect old).1.isOk ∧ old.isSome then (Command.change c).debit a else 0)
      = Account.holding old
        + (if (c.effect old).1.isOk then (Command.change c).credit a else 0) := by
  cases c with
  | createAccount b => cases hon; simp [Command.restores] at h
  | insertAccount other => cases hon; simp [Command.restores] at h
  | setCode b code => cases old <;> rfl
  | setNonce b nonce => cases old <;> rfl
  | setSlot b key value => cases old <;> rfl
  | addBalance b amount =>
    cases hon
    have hcredit : (Command.change (addBalance a amount)).credit a = amount.toNat := if_pos rfl
    have hdebit : (Command.change (addBalance a amount)).debit a = 0 := rfl
    rw [hcredit, hdebit, ite_self, Nat.add_zero]
    exact holding_addBalance a amount old
  | subBalance b amount =>
    cases hon
    have hcredit : (Command.change (subBalance a amount)).credit a = 0 := rfl
    have hdebit : (Command.change (subBalance a amount)).debit a = amount.toNat := if_pos rfl
    rw [hcredit, hdebit, ite_self, Nat.add_zero]
    exact holding_subBalance a amount old
  | destroy b => cases old <;> rfl
  | addRefund amount => cases hon
  | subRefund amount => cases hon
  | appendLog log => cases hon

namespace WorldState

variable (s : WorldState) (a : Address) (amount : U256)

theorem toNat_balance : (s.balance a).toNat = Account.holding (s.account? a) := by
  rw [balance, view]
  cases s.account? a <;> rfl

theorem fst_addBalance :
    (s.addBalance a amount).1 = if (s.balance a).toNat + amount.toNat < 2 ^ 256 then .ok ()
      else .error (.balanceOverflow a amount (s.balance a)) := by
  have heffect : (s.addBalance a amount).1 = ((Change.addBalance a amount).effect _).1 :=
    (apply_eq_effect (s := s) (c := .addBalance a amount) rfl).1
  rw [heffect, Change.effect, ← view, ← balance]
  cases hsum : (s.balance a).add? amount with
  | some balance =>
    have hlt := balance.isLt
    rw [if_pos (U256.add?_eq_some_iff.mp hsum ▸ hlt)]
    rfl
  | none =>
    have hge : 2 ^ 256 ≤ (s.balance a).toNat + amount.toNat := U256.add?_eq_none_iff.mp hsum
    rw [if_neg (Nat.not_lt.mpr hge)]
    rfl

theorem fst_subBalance :
    (s.subBalance a amount).1
      = if s.accountExists a ∧ (s.balance a).toNat < amount.toNat
        then .error (.balanceUnderflow a amount (s.balance a)) else .ok () := by
  rw [subBalance, accountExists, balance, view]
  rcases s.account? a with _ | account
  · rfl
  · dsimp only
    cases hdifference : account.balance.sub? amount with
    | some balance =>
      have hle := (U256.sub?_eq_some_iff.mp hdifference).1
      rw [if_neg fun h ↦ Nat.not_lt.mpr hle h.2]
      rfl
    | none =>
      rw [if_pos ⟨rfl, U256.sub?_eq_none_iff.mp hdifference⟩]
      rfl

theorem fst_subRefund :
    (s.subRefund amount).1
      = if s.refund.toNat < amount.toNat then .error (.refundUnderflow amount s.refund)
        else .ok () := by
  rw [subRefund]
  cases hdifference : s.refund.sub? amount with
  | some refund =>
    rw [if_neg (Nat.not_lt.mpr (U256.sub?_eq_some_iff.mp hdifference).1)]
    rfl
  | none =>
    rw [if_pos (U256.sub?_eq_none_iff.mp hdifference)]
    rfl

theorem refund_apply (c : Change) :
    (s.apply c).2.refund.toNat = Command.tally s.refund.toNat (.change c) := by
  by_cases hlasting : c.isLasting = true
  · cases c with
    | addRefund amount => exact U256.toNat_addSaturating s.refund amount
    | subRefund amount =>
      rw [apply, subRefund, Command.tally]
      cases hdifference : s.refund.sub? amount with
      | some refund =>
        obtain ⟨hle, hrefund⟩ := U256.sub?_eq_some_iff.mp hdifference
        rw [if_pos hle]
        exact hrefund
      | none =>
        rw [if_neg (Nat.not_le.mpr (U256.sub?_eq_none_iff.mp hdifference))]
        rfl
    | appendLog log => rfl
    | _ => cases hlasting
  · have hrecords := records_apply_of_not_isLasting (s := s) (Bool.eq_false_iff.mpr hlasting)
    have hrefund : (s.apply c).2.refund = s.refund := congrArg Prod.snd hrecords
    rw [hrefund]
    cases c with
    | addRefund amount => exact absurd rfl hlasting
    | subRefund amount => exact absurd rfl hlasting
    | _ => rfl

end WorldState

/-! ## Runs -/

namespace Session

/-- The steps of a run, each with the session that it finds. -/
def moments (s : Session) : List Command → List (Session × Command)
  | [] => []
  | c :: rest => (s, c) :: (s.step c).2.moments rest

/-- What a step adds to the balance of an address in a session: its amount, if it succeeds. -/
def creditIn (a : Address) (s : Session) (c : Command) : Nat :=
  if (s.step c).1.isOk then c.credit a else 0

/-- What a step takes from the balance of an address in a session: its amount, if it succeeds while
there is an account. -/
def debitIn (a : Address) (s : Session) (c : Command) : Nat :=
  if (s.step c).1.isOk ∧ s.state.accountExists a then c.debit a else 0

/-- What the steps of a run add to the balance of an address. -/
def credited (s : Session) (a : Address) (commands : List Command) : Nat :=
  ((s.moments commands).map fun moment ↦ creditIn a moment.1 moment.2).sum

/-- What the steps of a run take from the balance of an address. -/
def debited (s : Session) (a : Address) (commands : List Command) : Nat :=
  ((s.moments commands).map fun moment ↦ debitIn a moment.1 moment.2).sum

variable {s : Session} {a : Address} {commands : List Command}

theorem isOk_step_change (s : Session) (c : Change) :
    (s.step (.change c)).1.isOk = (s.state.apply c).1.isOk := by
  rw [fst_step_change]
  cases (s.state.apply c).1 <;> rfl

theorem balance_step {c : Command} (h : c.restores a = false) :
    ((s.step c).2.state.balance a).toNat + debitIn a s c
      = (s.state.balance a).toNat + creditIn a s c := by
  rw [WorldState.toNat_balance, WorldState.toNat_balance]
  by_cases hon : c.target? = some a
  · rcases c with q | c | name | name
    · have hcredit : (Command.query q).credit a = 0 := rfl
      have hdebit : (Command.query q).debit a = 0 := rfl
      rw [creditIn, debitIn, hcredit, hdebit, ite_self, ite_self]
      rfl
    · obtain ⟨hresult, haccount⟩ := WorldState.apply_eq_effect (s := s.state) hon
      rw [creditIn, debitIn, isOk_step_change, state_step_change, hresult, haccount]
      exact Change.balance_effect h hon (s.state.account? a)
    · cases hon
    · cases hon
  · rw [creditIn, debitIn, Command.credit_eq_zero hon, Command.debit_eq_zero hon, ite_self,
      ite_self,
      account?_step_of_ne hon (Command.ne_revert_of_not_restores h)]

/-- **The balance after a run.** -/
theorem balance_run (h : ∀ c ∈ commands, c.restores a = false) :
    ((s.run commands).2.state.balance a).toNat + s.debited a commands
      = (s.state.balance a).toNat + s.credited a commands := by
  induction commands generalizing s with
  | nil => rfl
  | cons c rest ih =>
    rw [List.forall_mem_cons] at h
    have hstep := balance_step (s := s) h.1
    have hrest := ih (s := (s.step c).2) h.2
    calc (((s.step c).2.run rest).2.state.balance a).toNat
          + (debitIn a s c + (s.step c).2.debited a rest)
        = ((s.step c).2.state.balance a).toNat + debitIn a s c
            + (s.step c).2.credited a rest := by omega
      _ = (s.state.balance a).toNat + (creditIn a s c + (s.step c).2.credited a rest) := by
          rw [hstep, Nat.add_assoc]

theorem refund_step (s : Session) (c : Command) :
    (s.step c).2.state.refund.toNat = c.tally s.state.refund.toNat := by
  rcases c with q | c | name | name
  · rfl
  · rw [state_step_change, WorldState.refund_apply]
  · rfl
  · rw [step]
    cases s.snapshots[name]? <;> rfl

/-- **The refunds after a run.** -/
theorem refund_run (s : Session) (commands : List Command) :
    (s.run commands).2.state.refund.toNat
      = commands.foldl Command.tally s.state.refund.toNat := by
  induction commands generalizing s with
  | nil => rfl
  | cons c rest ih => rw [run_cons, ih, List.foldl_cons, refund_step]

/-- **The arithmetic of a ledger is exact.** Over a run in which nothing is put in place of the
account of an address and which does not go back, its balance is what it was, plus the amounts whose
addition succeeded, minus those whose subtraction succeeded while there was an account. After any
run, an addition is refused exactly if the sum is `2 ^ 256` or more, and a subtraction exactly if
there is an account that holds less. The refunds after any run are those of its steps one by one:
what is granted stops at the largest number, and what exceeds the counter, which is what is refused,
is not taken back. -/
theorem run_arithmetic (s : Session) (commands : List Command) :
    (∀ a, (∀ c ∈ commands, c.restores a = false) →
      (((s.run commands).2.state.balance a).toNat : Int)
        = (s.state.balance a).toNat + s.credited a commands - s.debited a commands) ∧
    (∀ a amount, ((s.run commands).2.state.addBalance a amount).1
      = if ((s.run commands).2.state.balance a).toNat + amount.toNat < 2 ^ 256 then .ok ()
        else .error (.balanceOverflow a amount ((s.run commands).2.state.balance a))) ∧
    (∀ a amount, ((s.run commands).2.state.subBalance a amount).1
      = if (s.run commands).2.state.accountExists a
          ∧ ((s.run commands).2.state.balance a).toNat < amount.toNat
        then .error (.balanceUnderflow a amount ((s.run commands).2.state.balance a))
        else .ok ()) ∧
    (s.run commands).2.state.refund.toNat
      = commands.foldl Command.tally s.state.refund.toNat ∧
    ∀ amount, ((s.run commands).2.state.subRefund amount).1
      = if (s.run commands).2.state.refund.toNat < amount.toNat
        then .error (.refundUnderflow amount (s.run commands).2.state.refund) else .ok () := by
  refine ⟨fun a h ↦ ?_, WorldState.fst_addBalance _, WorldState.fst_subBalance _,
    s.refund_run commands, WorldState.fst_subRefund _⟩
  have hbalance := balance_run (s := s) h
  omega

/-- A run in which the account appears on the way, one addition is refused because of the sum, and
subtractions are made before there is an account, within the balance and past it. -/
def ledgerRun : List Command :=
  [.change (.subBalance FixedBytes.zero 5), .change (.addBalance FixedBytes.zero 9),
    .snapshot "unused", .change (.addBalance FixedBytes.zero (BitVec.allOnes 256)),
    .change (.subBalance FixedBytes.zero 4), .change (.addRefund 3),
    .change (.subBalance FixedBytes.zero 6), .change (.destroy FixedBytes.zero)]

theorem run_arithmetic_ledgerRun :
    (∀ c ∈ ledgerRun, c.restores FixedBytes.zero = false) ∧
      Session.empty.credited FixedBytes.zero ledgerRun = 9 ∧
      Session.empty.debited FixedBytes.zero ledgerRun = 4 ∧
      (((Session.empty.run ledgerRun).2.state.balance FixedBytes.zero).toNat : Int)
        = (Session.empty.state.balance FixedBytes.zero).toNat
          + Session.empty.credited FixedBytes.zero ledgerRun
          - Session.empty.debited FixedBytes.zero ledgerRun := by
  have h : ∀ c ∈ ledgerRun, c.restores FixedBytes.zero = false := by decide
  have hcredited : Session.empty.credited FixedBytes.zero ledgerRun = 9 := by decide +kernel
  have hdebited : Session.empty.debited FixedBytes.zero ledgerRun = 4 := by decide +kernel
  exact ⟨h, hcredited, hdebited, (run_arithmetic Session.empty ledgerRun).1 FixedBytes.zero h⟩

end Session

end ExecState
