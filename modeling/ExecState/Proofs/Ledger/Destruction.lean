import ExecState.Proofs.Commit.Binding
import ExecState.Proofs.Ledger.Reordering

/-!
# Destroyed accounts stay destroyed

A destroyed account can still be written to: it is credited, it takes code, and its slots change.
Only creating or inserting an account at its address, or going back, makes it take part in a
commitment again.

That nothing of such writes shows is a statement on two runs, one with and one without the steps on
the address. Their world states are kept alike but for the account there (`WorldState.AlikeBut`),
which is destroyed in both. A step on the address keeps them so when one of them takes it, and any
other step when both do. It is essential that the account is there: were it absent, a write would
give its address a place in the order.
-/

namespace ExecState

/-- Whether a step may bring back a destroyed account. -/
def Command.restores (a : Address) : Command → Bool
  | .change (.createAccount b) => b = a
  | .change (.insertAccount account) => account.address = a
  | .revert _ => true
  | _ => false

theorem Command.ne_revert_of_not_restores {a : Address} {c : Command} (h : c.restores a = false)
    (name : String) : c ≠ .revert name := by
  rintro rfl
  cases h

theorem Change.destroyed_effect {c : Change} {a : Address} {account : Account}
    (h : (Command.change c).restores a = false) (hon : c.target? = some a)
    (hdestroyed : account.destroyed = true) :
    ∃ left, (c.effect (some account)).2 = some left ∧ left.destroyed = true := by
  cases c with
  | createAccount b => cases hon; simp [Command.restores] at h
  | insertAccount other => cases hon; simp [Command.restores] at h
  | setCode b code => exact ⟨_, rfl, hdestroyed⟩
  | setNonce b nonce => exact ⟨_, rfl, hdestroyed⟩
  | setSlot b key value => exact ⟨_, rfl, hdestroyed⟩
  | addBalance b amount =>
    rw [effect]
    split <;> exact ⟨_, rfl, hdestroyed⟩
  | subBalance b amount =>
    rw [effect]
    split <;> exact ⟨_, rfl, hdestroyed⟩
  | destroy b => exact ⟨_, rfl, rfl⟩
  | addRefund amount => cases hon
  | subRefund amount => cases hon
  | appendLog log => cases hon

namespace WorldState

variable {s t : WorldState} {a : Address}

theorem isDestroyed_iff :
    s.isDestroyed a = true ↔ ∃ account, s.account? a = some account ∧ account.destroyed = true := by
  rw [isDestroyed]
  cases s.account? a <;> simp

theorem isDestroyed_apply {c : Change} (h : (Command.change c).restores a = false)
    (hs : s.isDestroyed a = true) : (s.apply c).2.isDestroyed a = true := by
  obtain ⟨account, haccount, hdestroyed⟩ := isDestroyed_iff.mp hs
  rw [isDestroyed_iff]
  by_cases hon : c.target? = some a
  · rw [(apply_eq_effect hon).2, haccount]
    exact Change.destroyed_effect h hon hdestroyed
  · rw [account?_apply_of_ne hon]
    exact ⟨account, haccount, hdestroyed⟩

/-- A destroyed account does not take part in a commitment. -/
theorem address_ne_of_isDestroyed (hs : s.Reachable) (ha : s.isDestroyed a = true)
    {account : Account} (haccount : account ∈ s.committable) : account.address ≠ a := by
  rintro rfl
  obtain ⟨hget, hcommittable⟩ := hs.mem_committable.mp haccount
  obtain ⟨other, hother, hdestroyed⟩ := isDestroyed_iff.mp ha
  rw [hget, Option.some_inj] at hother
  rw [← hother, Account.destroyed_of_isCommittable hcommittable] at hdestroyed
  cases hdestroyed

/-! ## World states that differ in a destroyed account -/

/-- Whether two world states have the same accounts in the same order, but for one account that is
destroyed in both. -/
structure AlikeBut (a : Address) (s t : WorldState) : Prop where
  order_eq : s.accounts.order = t.accounts.order
  account?_eq : ∀ b, b ≠ a → s.account? b = t.account? b
  left : s.isDestroyed a = true
  right : t.isDestroyed a = true

theorem AlikeBut.committable_eq (h : AlikeBut a s t) : s.committable = t.committable := by
  have hnone : ∀ u : WorldState, u.isDestroyed a = true →
      (u.account? a).filter Account.isCommittable = none := by
    intro u hu
    obtain ⟨account, haccount, hdestroyed⟩ := isDestroyed_iff.mp hu
    rw [haccount, Option.filter_some, if_neg]
    intro hcommittable
    rw [Account.destroyed_of_isCommittable hcommittable] at hdestroyed
    cases hdestroyed
  rw [committable, committable, Accounts.toList, Accounts.toList, List.filter_filterMap,
    List.filter_filterMap, h.order_eq]
  refine List.filterMap_congr fun b _ ↦ ?_
  show (s.account? b).filter _ = (t.account? b).filter _
  by_cases hb : b = a
  · rw [hb, hnone s h.left, hnone t h.right]
  · rw [h.account?_eq b hb]

/-- A step on the destroyed account, taken on one side. -/
theorem AlikeBut.apply_left {c : Change} (h : AlikeBut a s t)
    (hc : (Command.change c).restores a = false) (hon : c.target? = some a) :
    AlikeBut a (s.apply c).2 t where
  order_eq := by
    have hsome : (s.accounts.get? a).isSome := by
      obtain ⟨account, haccount, -⟩ := isDestroyed_iff.mp h.left
      exact Option.isSome_of_eq_some haccount
    have hnew : c.created?.elim [] s.accounts.appended = [] := by
      cases hcreated : c.created? with
      | none => rfl
      | some b =>
        have hb : b = a := Option.some_inj.mp ((Change.target?_of_created? hcreated).symm.trans hon)
        exact Accounts.appended_of_isSome (hb ▸ hsome)
    rw [order_apply, hnew, List.append_nil]
    exact h.order_eq
  account?_eq b hb := by
    have hne : c.target? ≠ some b := fun htarget ↦ hb (Option.some_inj.mp (htarget.symm.trans hon))
    rw [account?_apply_of_ne hne]
    exact h.account?_eq b hb
  left := isDestroyed_apply hc h.left
  right := h.right

theorem AlikeBut.apply_both {c : Change} (h : AlikeBut a s t)
    (hc : (Command.change c).restores a = false) (hon : c.target? ≠ some a) :
    AlikeBut a (s.apply c).2 (t.apply c).2 where
  order_eq := by
    have hnew :
        c.created?.elim [] s.accounts.appended = c.created?.elim [] t.accounts.appended := by
      cases hcreated : c.created? with
      | none => rfl
      | some b =>
        have hb : b ≠ a := fun hb ↦ hon (hb ▸ Change.target?_of_created? hcreated)
        have hget : s.accounts.get? b = t.accounts.get? b := h.account?_eq b hb
        show s.accounts.appended b = t.accounts.appended b
        rw [Accounts.appended, Accounts.appended, hget]
    rw [order_apply, order_apply, h.order_eq, hnew]
  account?_eq b hb := by
    by_cases htarget : c.target? = some b
    · rw [(apply_eq_effect htarget).2, (apply_eq_effect htarget).2, h.account?_eq b hb]
    · rw [account?_apply_of_ne htarget, account?_apply_of_ne htarget]
      exact h.account?_eq b hb
  left := isDestroyed_apply hc h.left
  right := isDestroyed_apply hc h.right

end WorldState

namespace Session

variable {s t : Session} {a : Address} {c : Command} {commands : List Command}

theorem isDestroyed_step (h : c.restores a = false) (hs : s.state.isDestroyed a = true) :
    (s.step c).2.state.isDestroyed a = true := by
  cases c with
  | query q => exact hs
  | change c =>
    rw [state_step_change]
    exact WorldState.isDestroyed_apply h hs
  | snapshot name => exact hs
  | revert name => cases h

theorem isDestroyed_run (h : ∀ c ∈ commands, c.restores a = false)
    (hs : s.state.isDestroyed a = true) : (s.run commands).2.state.isDestroyed a = true := by
  induction commands generalizing s with
  | nil => exact hs
  | cons c rest ih =>
    rw [run_cons]
    exact ih (fun d hd ↦ h d (List.mem_cons_of_mem c hd))
      (isDestroyed_step (h c List.mem_cons_self) hs)

theorem alikeBut_step_left (h : WorldState.AlikeBut a s.state t.state) (hc : c.restores a = false)
    (hon : c.isOn a = true) : WorldState.AlikeBut a (s.step c).2.state t.state := by
  cases c with
  | query q => exact h
  | change c =>
    rw [state_step_change]
    exact h.apply_left hc (Command.isOn_iff.mp hon)
  | snapshot name => exact h
  | revert name => cases hc

theorem alikeBut_step_both (h : WorldState.AlikeBut a s.state t.state) (hc : c.restores a = false)
    (hon : ¬ c.isOn a = true) : WorldState.AlikeBut a (s.step c).2.state (t.step c).2.state := by
  cases c with
  | query q => exact h
  | change c =>
    rw [state_step_change, state_step_change]
    exact h.apply_both hc fun htarget ↦ hon (Command.isOn_iff.mpr htarget)
  | snapshot name => exact h
  | revert name => cases hc

/-- The steps of a run that are not on an address. -/
def without (a : Address) (commands : List Command) : List Command :=
  commands.filter fun c ↦ !c.isOn a

/-- **Two runs**, one with and one without the steps on a destroyed account, end alike. -/
theorem alikeBut_run (h : WorldState.AlikeBut a s.state t.state)
    (hc : ∀ c ∈ commands, c.restores a = false) :
    WorldState.AlikeBut a (s.run commands).2.state (t.run (without a commands)).2.state := by
  induction commands generalizing s t with
  | nil => exact h
  | cons c rest ih =>
    have hrest : ∀ d ∈ rest, d.restores a = false := fun d hd ↦ hc d (List.mem_cons_of_mem c hd)
    have hfirst := hc c List.mem_cons_self
    rw [run_cons]
    by_cases hon : c.isOn a = true
    · have hdropped : without a (c :: rest) = without a rest :=
        List.filter_cons_of_neg (by simp [hon])
      rw [hdropped]
      exact ih (alikeBut_step_left h hfirst hon) hrest
    · have hkept : without a (c :: rest) = c :: without a rest :=
        List.filter_cons_of_pos (by simp [hon])
      rw [hkept, run_cons]
      exact ih (alikeBut_step_both h hfirst hon) hrest

/-- **A destroyed account does not come back by being written to.** As long as no step creates or
inserts an account at its address or goes back, it stays destroyed after every step and takes part
in no commitment. In the end the same accounts take part, in the same order, as after the run
without the steps on the address. So on one machine the two world states are committed alike into
any target, and on whatever machines both yield one root. -/
theorem run_destroyed (s : Session) (hs : s.state.Reachable) (ha : s.state.isDestroyed a = true)
    (h : ∀ c ∈ commands, c.restores a = false) :
    (∀ k, (s.run (commands.take k)).2.state.isDestroyed a = true ∧
        ∀ account ∈ (s.run (commands.take k)).2.state.committable, account.address ≠ a) ∧
      (s.run commands).2.state.committable = (s.run (without a commands)).2.state.committable ∧
      (∀ schedule threads target,
        Commit.commit schedule threads (s.run commands).2.state target
          = Commit.commit schedule threads (s.run (without a commands)).2.state target) ∧
      ∀ secure, Commit.PathsApart secure (s.run (without a commands)).2.state →
        ∃ root, Commit.YieldsRoot secure (s.run commands).2.state root ∧
          Commit.YieldsRoot secure (s.run (without a commands)).2.state root := by
  have hback : ∀ {commands : List Command}, (∀ c ∈ commands, c.restores a = false) →
      ∀ c ∈ commands, ∀ name, c ≠ .revert name :=
    fun h c hc ↦ Command.ne_revert_of_not_restores (h c hc)
  have hwithout : ∀ c ∈ without a commands, c.restores a = false :=
    fun c hc ↦ h c (List.mem_filter.mp hc).1
  have heq := (alikeBut_run (s := s) (t := s) ⟨rfl, fun _ _ ↦ rfl, ha, ha⟩ h).committable_eq
  refine ⟨fun k ↦ ?_, heq, fun schedule threads target ↦ ?_, fun secure hapart ↦ ?_⟩
  · have htake : ∀ c ∈ commands.take k, c.restores a = false :=
      fun c hc ↦ h c (List.mem_of_mem_take hc)
    have hdestroyed := isDestroyed_run htake ha
    have hreachable := reachable_run hs (hback htake)
    exact ⟨hdestroyed, fun account haccount ↦
      WorldState.address_ne_of_isDestroyed hreachable hdestroyed haccount⟩
  · rw [Commit.commit, heq, ← Commit.commit]
  · obtain ⟨root, hroot, -⟩ := Commit.exists_yieldsRoot hapart (reachable_run hs (hback hwithout))
      fun _ ↦ Iff.rfl
    exact ⟨root, hroot.eq_of_committable_eq heq.symm, hroot⟩

/-- Three accounts, of which the first was used and then destroyed. -/
def withDestroyed : Session :=
  ⟨WorldState.empty.after
    [.addBalance (WorldState.ending 1) 5, .setNonce (WorldState.ending 2) 1,
      .createAccount (WorldState.ending 3), .destroy (WorldState.ending 1)], ∅⟩

/-- Writes to the first account between writes to others, one of which is new. -/
def writesToDestroyed : List Command :=
  [.change (.addBalance (WorldState.ending 1) 7), .snapshot "kept",
    .change (.setCode (WorldState.ending 1) [0x60]), .change (.addBalance (WorldState.ending 4) 2),
    .change (.setSlot (WorldState.ending 1) FixedBytes.zero [1]),
    .change (.insertAccount (Account.fresh (WorldState.ending 2))),
    .query (.balance (WorldState.ending 1)), .change (.subBalance (WorldState.ending 1) 99)]

theorem run_destroyed_written :
    withDestroyed.state.Reachable ∧ withDestroyed.state.isDestroyed (WorldState.ending 1) = true ∧
      (∀ c ∈ writesToDestroyed, c.restores (WorldState.ending 1) = false) ∧
      let full := (withDestroyed.run writesToDestroyed).2.state
      let rest := (withDestroyed.run (without (WorldState.ending 1) writesToDestroyed)).2.state
      Commit.PathsApart false rest ∧
      (∀ k, (withDestroyed.run (writesToDestroyed.take k)).2.state.isDestroyed
            (WorldState.ending 1) = true ∧
          ∀ account ∈ (withDestroyed.run (writesToDestroyed.take k)).2.state.committable,
            account.address ≠ WorldState.ending 1) ∧
        full.committable = rest.committable ∧
        (∀ schedule threads target,
          Commit.commit schedule threads full target = Commit.commit schedule threads rest target) ∧
        ∃ root, Commit.YieldsRoot false full root ∧ Commit.YieldsRoot false rest root := by
  have hs : withDestroyed.state.Reachable := WorldState.Reachable.empty.after _
  have ha : withDestroyed.state.isDestroyed (WorldState.ending 1) = true := by decide +kernel
  have hwrites : ∀ c ∈ writesToDestroyed, c.restores (WorldState.ending 1) = false := by decide
  have hapart := Commit.pathsApart_of_plain
    (withDestroyed.run (without (WorldState.ending 1) writesToDestroyed)).2.state
  obtain ⟨hstays, hcommittable, hcommit, hroot⟩ := run_destroyed withDestroyed hs ha hwrites
  exact ⟨hs, ha, hwrites, hapart, hstays, hcommittable, hcommit, hroot false hapart⟩

end Session

end ExecState
