import ExecState.Proofs.Commit.Binding
import ExecState.Proofs.Ledger.Order

/-!
# Steps on different addresses

Every address has a history of its own, and a run is no more than these histories.
-/

namespace ExecState

/-!
## Each address on its own

A step of a session that is about one address depends on the account at this address and on nothing
else of the world state, and it changes nothing else. What a change does to its account is said
once, by `Change.effect`; everything below is read off `WorldState.apply_eq_effect` and the frame
`WorldState.account?_apply_of_ne`.

So an address has a history of its own. Of a run that never goes back, the steps on an address, with
their answers, are those of the run of these steps alone, and so is the account that is there in the
end (`Session.history_run`).
-/

/-! ### What a step is about -/

def Query.target? : Query → Option Address
  | .accountExists a | .accountIsEmpty a | .isDestroyed a | .code a | .codeSize a | .balance a
  | .nonce a | .slot a _ | .account a => some a
  | .accounts | .committable | .size | .refund | .logs => none

/-- The address that a step of a session is about. -/
def Command.target? : Command → Option Address
  | .query q => q.target?
  | .change c => c.target?
  | .snapshot _ | .revert _ => none

/-- Whether a step of a session is about an address. -/
def Command.isOn (a : Address) (c : Command) : Bool := c.target? = some a

theorem Command.isOn_iff {a : Address} {c : Command} : c.isOn a = true ↔ c.target? = some a :=
  decide_eq_true_iff

theorem Change.target?_of_created? {c : Change} {b : Address} (h : c.created? = some b) :
    c.target? = some b := by
  cases c with
  | subBalance _ _ => cases h
  | destroy _ => cases h
  | _ => exact h

theorem Change.target?_eq_none_of_isLasting {c : Change} (h : c.isLasting = true) :
    c.target? = none := by
  cases c with
  | addRefund amount => rfl
  | subRefund amount => rfl
  | appendLog log => rfl
  | _ => cases h

/-- What a change makes of the account that it is about, and what it answers. -/
def Change.effect : Change → Option Account → Outcome LedgerError Unit (Option Account)
  | .createAccount a, _ => .done () (some (Account.fresh a))
  | .insertAccount account, _ => .done () (some account)
  | .setCode a code, old => .done () (some { old.getD (Account.fresh a) with code })
  | .setNonce a nonce, old => .done () (some { old.getD (Account.fresh a) with nonce })
  | .setSlot a key value, old =>
    .done () (some ((old.getD (Account.fresh a)).setSlot key value))
  | .addBalance a amount, old =>
    let account := old.getD (Account.fresh a)
    match account.balance.add? amount with
    | some balance => .done () (some { account with balance })
    | none => .failed (.balanceOverflow a amount account.balance) (some account)
  | .subBalance a amount, some account =>
    match account.balance.sub? amount with
    | some balance => .done () (some { account with balance })
    | none => .failed (.balanceUnderflow a amount account.balance) (some account)
  | .destroy _, some account => .done () (some { account with destroyed := true })
  | _, old => .done () old

namespace WorldState

variable {s t : WorldState} {c : Change} {a : Address}

/-! ### One step -/

theorem account?_modify (s : WorldState) (a : Address) (f : Account → Account) :
    (s.modify a f).account? a = some (f ((s.account? a).getD (Account.fresh a))) := by
  show (s.accounts.modify a f).get? a = _
  rw [Accounts.get?_modify, if_pos rfl]
  rfl

theorem account?_put (s : WorldState) (a : Address) (account : Account) :
    WorldState.account? { s with accounts := s.accounts.put a account } a = some account := by
  show (s.accounts.put a account).get? a = _
  rw [Accounts.get?_put, if_pos rfl]

/-- **A change is what it makes of its account.** -/
theorem apply_eq_effect (h : c.target? = some a) :
    (s.apply c).1 = (c.effect (s.account? a)).1 ∧
      (s.apply c).2.account? a = (c.effect (s.account? a)).2 := by
  cases c with
  | createAccount b => cases h; exact ⟨rfl, s.account?_put a (Account.fresh a)⟩
  | insertAccount account => cases h; exact ⟨rfl, s.account?_put account.address account⟩
  | setCode b code => cases h; exact ⟨rfl, s.account?_modify a ({ · with code })⟩
  | setNonce b nonce => cases h; exact ⟨rfl, s.account?_modify a ({ · with nonce })⟩
  | setSlot b key value => cases h; exact ⟨rfl, s.account?_modify a (·.setSlot key value)⟩
  | addBalance b amount =>
    cases h
    have hfst : (s.accounts.getOrCreate a).1 = (s.account? a).getD (Account.fresh a) :=
      Accounts.fst_getOrCreate s.accounts a
    rw [apply, addBalance, Change.effect]
    dsimp only
    rw [hfst]
    -- the account is there before its balance is found to be too great
    cases ((s.account? a).getD (Account.fresh a)).balance.add? amount with
    | some balance =>
      refine ⟨rfl, ?_⟩
      show ((s.accounts.getOrCreate a).2.put a _).get? a = _
      rw [Accounts.get?_put, if_pos rfl]
      rfl
    | none =>
      refine ⟨rfl, ?_⟩
      show (s.accounts.getOrCreate a).2.get? a = _
      rw [Accounts.get?_getOrCreate, if_pos rfl]
      rfl
  | subBalance b amount =>
    cases h
    rw [apply, subBalance]
    cases hb : s.account? a with
    | none => exact ⟨rfl, hb⟩
    | some account =>
      rw [Change.effect]
      dsimp only
      cases account.balance.sub? amount with
      | some balance => exact ⟨rfl, s.account?_put a _⟩
      | none => exact ⟨rfl, hb⟩
  | destroy b =>
    cases h
    rw [apply, destroy]
    cases hb : s.account? a with
    | none => exact ⟨rfl, hb⟩
    | some account => exact ⟨rfl, s.account?_put a _⟩
  | addRefund amount => cases h
  | subRefund amount => cases h
  | appendLog log => cases h

theorem account?_modify_of_ne {b : Address} (s : WorldState) (f : Account → Account)
    (h : some b ≠ some a) : (s.modify b f).account? a = s.account? a := by
  show (s.accounts.modify b f).get? a = _
  rw [Accounts.get?_modify, if_neg fun hba ↦ h (congrArg some hba)]
  rfl

theorem account?_put_of_ne {b : Address} (s : WorldState) (account : Account)
    (h : some b ≠ some a) :
    WorldState.account? { s with accounts := s.accounts.put b account } a = s.account? a := by
  show (s.accounts.put b account).get? a = _
  rw [Accounts.get?_put, if_neg fun hba ↦ h (congrArg some hba)]
  rfl

/-- **The frame of a change.** Every other account is left alone. -/
theorem account?_apply_of_ne (h : c.target? ≠ some a) :
    (s.apply c).2.account? a = s.account? a := by
  cases c with
  | createAccount b => exact s.account?_put_of_ne (Account.fresh b) h
  | insertAccount account => exact s.account?_put_of_ne account h
  | setCode b code => exact s.account?_modify_of_ne _ h
  | setNonce b nonce => exact s.account?_modify_of_ne _ h
  | setSlot b key value => exact s.account?_modify_of_ne _ h
  | addBalance b amount =>
    rcases accounts_addBalance s b amount with hsame | ⟨balance, hmodify⟩
    · exact congrArg (Accounts.get? · a) hsame
    · exact (congrArg (Accounts.get? · a) hmodify).trans (s.account?_modify_of_ne _ h)
  | subBalance b amount =>
    rw [apply, subBalance]
    cases s.account? b with
    | none => rfl
    | some account =>
      dsimp only
      split
      · exact s.account?_put_of_ne _ h
      · rfl
  | destroy b =>
    rw [apply, destroy]
    cases s.account? b with
    | none => rfl
    | some account => exact s.account?_put_of_ne _ h
  | addRefund amount => rfl
  | subRefund amount => exact congrArg (Accounts.get? · a) (accounts_apply_of_isLasting rfl)
  | appendLog log => rfl

/-- A query about an address is answered by the account there. -/
theorem answer_congr {q : Query} (h : q.target? = some a) (hst : s.account? a = t.account? a) :
    s.answer q = t.answer q := by
  have hview : s.view a = t.view a := by rw [view, view, hst]
  cases q with
  | accountExists b => cases h; exact congrArg (fun x ↦ Answer.flag x.isSome) hst
  | accountIsEmpty b => cases h; rw [answer, answer, accountIsEmpty, accountIsEmpty, hst]
  | isDestroyed b => cases h; rw [answer, answer, isDestroyed, isDestroyed, hst]
  | code b => cases h; exact congrArg (fun x ↦ Answer.bytes x.code) hview
  | codeSize b => cases h; exact congrArg (fun x ↦ Answer.count x.code.length) hview
  | balance b => cases h; exact congrArg (fun x ↦ Answer.number x.balance) hview
  | nonce b => cases h; exact congrArg (fun x ↦ Answer.number x.nonce) hview
  | slot b key => cases h; exact congrArg (fun x ↦ Answer.bytes (x.slot key)) hview
  | account b => cases h; exact congrArg Answer.account hst
  | accounts => cases h
  | committable => cases h
  | size => cases h
  | refund => cases h
  | logs => cases h

end WorldState

namespace Session

variable {s t : Session} {c : Command} {a : Address} {commands : List Command}

theorem fst_step_change (s : Session) (c : Change) :
    (s.step (.change c)).1 = (s.state.apply c).1.map fun _ ↦ .done := by
  rw [step]
  rcases s.state.apply c with ⟨_ | _, state⟩ <;> rfl

/-- A step about an address answers by the account there, and makes the same of it. -/
theorem step_congr (h : c.target? = some a) (hst : s.state.account? a = t.state.account? a) :
    (s.step c).1 = (t.step c).1 ∧
      (s.step c).2.state.account? a = (t.step c).2.state.account? a := by
  cases c with
  | query q => exact ⟨congrArg Except.ok (WorldState.answer_congr h hst), hst⟩
  | change c =>
    obtain ⟨hresult, haccount⟩ := WorldState.apply_eq_effect (s := s.state) h
    obtain ⟨hresult', haccount'⟩ := WorldState.apply_eq_effect (s := t.state) h
    refine ⟨?_, ?_⟩
    · have hsame : (s.state.apply c).1 = (t.state.apply c).1 := by rw [hresult, hresult', hst]
      rw [fst_step_change, fst_step_change, hsame]
    · rw [state_step_change, state_step_change, haccount, haccount', hst]
  | snapshot name => cases h
  | revert name => cases h

theorem account?_step_of_ne (h : c.target? ≠ some a) (hback : ∀ name, c ≠ .revert name) :
    (s.step c).2.state.account? a = s.state.account? a := by
  cases c with
  | query q => rfl
  | change c =>
    rw [state_step_change]
    exact WorldState.account?_apply_of_ne h
  | snapshot name => rfl
  | revert name => exact absurd rfl (hback name)

/-! ### Runs -/

/-- The steps of a run, each with what it answers. -/
def transcript (s : Session) (commands : List Command) :
    List (Command × Except LedgerError Answer) :=
  commands.zip (s.run commands).1

theorem transcript_cons (s : Session) (c : Command) (rest : List Command) :
    s.transcript (c :: rest) = (c, (s.step c).1) :: (s.step c).2.transcript rest :=
  rfl

/-- The steps on an address, each with what it answers. -/
def eventsOn (a : Address) (events : List (Command × Except LedgerError Answer)) :
    List (Command × Except LedgerError Answer) :=
  events.filter fun e ↦ e.1.isOn a

theorem eventsOn_cons_of_pos (h : c.isOn a = true) (result : Except LedgerError Answer)
    (events : List (Command × Except LedgerError Answer)) :
    eventsOn a ((c, result) :: events) = (c, result) :: eventsOn a events :=
  List.filter_cons_of_pos h

theorem eventsOn_cons_of_neg (h : ¬ c.isOn a = true) (result : Except LedgerError Answer)
    (events : List (Command × Except LedgerError Answer)) :
    eventsOn a ((c, result) :: events) = eventsOn a events :=
  List.filter_cons_of_neg h

/-- **The history of an address.** The steps on an address answer as they do when they are carried
out alone, and they leave the same account. -/
theorem history_run (hback : ∀ c ∈ commands, ∀ name, c ≠ .revert name)
    (hst : s.state.account? a = t.state.account? a) :
    eventsOn a (s.transcript commands) = t.transcript (commands.filter (Command.isOn a)) ∧
      (s.run commands).2.state.account? a
        = (t.run (commands.filter (Command.isOn a))).2.state.account? a := by
  -- the sessions differ in all other accounts on the way, so both are general
  induction commands generalizing s t with
  | nil => exact ⟨rfl, hst⟩
  | cons c rest ih =>
    have hrest : ∀ d ∈ rest, ∀ name, d ≠ .revert name :=
      fun d hd ↦ hback d (List.mem_cons_of_mem c hd)
    rw [transcript_cons, run_cons]
    by_cases hon : c.isOn a = true
    · obtain ⟨hanswer, haccount⟩ := step_congr (Command.isOn_iff.mp hon) hst
      obtain ⟨hanswers, hleft⟩ := ih hrest haccount
      rw [eventsOn_cons_of_pos hon, List.filter_cons_of_pos hon, transcript_cons, run_cons, hanswer,
        hanswers]
      exact ⟨rfl, hleft⟩
    · have hother : c.target? ≠ some a := fun h ↦ hon (Command.isOn_iff.mpr h)
      have haccount := account?_step_of_ne (s := s) hother (hback c List.mem_cons_self)
      rw [eventsOn_cons_of_neg hon, List.filter_cons_of_neg hon]
      exact ih hrest (haccount.trans hst)

theorem reachable_run (hs : s.state.Reachable) (hback : ∀ c ∈ commands, ∀ name, c ≠ .revert name) :
    (s.run commands).2.state.Reachable := by
  induction commands generalizing s with
  | nil => exact hs
  | cons c rest ih =>
    rw [run_cons]
    refine ih ?_ fun d hd ↦ hback d (List.mem_cons_of_mem c hd)
    cases c with
    | query q => exact hs
    | change c =>
      rw [state_step_change]
      exact hs.apply c
    | snapshot name => exact hs
    | revert name => exact absurd rfl (hback _ List.mem_cons_self name)

end Session

namespace WorldState

/-!
## Independent steps commute

Steps on different addresses do not see each other. So the steps of a run may be carried out in any
order that keeps the one on each address (`Session.Reordered`): each of them answers as before, and
the same accounts are there in the end. All that may differ is the order in which the addresses
appeared, and no commitment sees that.

Nothing is exchanged step by step. The histories of the addresses are the same in both runs, and
they settle everything that is said of the runs as wholes.
-/

variable {s₁ s₂ : WorldState}

theorem order_perm_of_account?_eq (h₁ : s₁.Reachable) (h₂ : s₂.Reachable)
    (h : ∀ a, s₁.account? a = s₂.account? a) : s₁.accounts.order.Perm s₂.accounts.order := by
  refine (List.perm_ext_iff_of_nodup h₁.indexed.nodup h₂.indexed.nodup).mpr fun a ↦ ?_
  have ha : s₁.accounts.get? a = s₂.accounts.get? a := h a
  rw [h₁.indexed.mem_order, h₂.indexed.mem_order, ha]

theorem sameCommittable_of_account?_eq (h₁ : s₁.Reachable) (h₂ : s₂.Reachable)
    (h : ∀ a, s₁.account? a = s₂.account? a) : s₁.SameCommittable s₂ := by
  have hmem : ∀ account, account ∈ s₁.committable ↔ account ∈ s₂.committable := fun account ↦ by
    rw [h₁.mem_committable, h₂.mem_committable, h]
  intro c
  simp only [List.mem_map, hmem]

end WorldState

namespace Session

/-- Whether the second row has the steps of the first one in an order that keeps the order of the
steps on each address. -/
structure Reordered (first second : List Command) : Prop where
  perm : second.Perm first
  keeps : ∀ a, second.filter (Command.isOn a) = first.filter (Command.isOn a)

variable {s : Session} {commands first second : List Command}

/-! ### From the histories to the runs -/

theorem perm_of_eventsOn_eq {xs ys : List (Command × Except LedgerError Answer)}
    (hxs : ∀ e ∈ xs, e.1.target?.isSome) (hys : ∀ e ∈ ys, e.1.target?.isSome)
    (h : ∀ a, eventsOn a xs = eventsOn a ys) : xs.Perm ys := by
  classical
  refine List.perm_iff_count.mpr fun e ↦ ?_
  cases htarget : e.1.target? with
  | none =>
    have hxs' : e ∉ xs := fun he ↦ by simpa [htarget] using hxs e he
    have hys' : e ∉ ys := fun he ↦ by simpa [htarget] using hys e he
    rw [List.count_eq_zero.mpr hxs', List.count_eq_zero.mpr hys']
  | some a =>
    -- every occurrence is in the history of one address
    have hcount : ∀ zs : List (Command × Except LedgerError Answer),
        (eventsOn a zs).count e = zs.count e :=
      fun zs ↦ List.count_filter (Command.isOn_iff.mpr htarget)
    rw [← hcount xs, ← hcount ys, h a]

theorem isSome_target?_of_mem_transcript (h : ∀ c ∈ commands, c.target?.isSome) :
    ∀ e ∈ s.transcript commands, e.1.target?.isSome :=
  fun e he ↦ h e.1 (List.of_mem_zip he).1

theorem ne_revert_of_isSome_target? {c : Command} (h : c.target?.isSome) (name : String) :
    c ≠ .revert name := by
  rintro rfl
  cases h

theorem records_run_of_isSome_target? (h : ∀ c ∈ commands, c.target?.isSome) :
    (s.run commands).2.state.records = s.state.records := by
  have hnone : commands.filter Command.isLasting = [] := by
    refine List.filter_eq_nil_iff.mpr fun c hc hlasting ↦ ?_
    have htarget := h c hc
    cases c with
    | change c =>
      rw [Command.target?, c.target?_eq_none_of_isLasting hlasting] at htarget
      cases htarget
    | query q => cases hlasting
    | snapshot name => cases hlasting
    | revert name => cases hlasting
  rw [records_run (t := s) rfl, hnone]
  rfl

/-- **Independent steps commute.** When the steps of a run on addresses are carried out in another
order that keeps the one on each address, every step answers as before. In the end there are the
same accounts with the same contents, the same logs and refunds, and the same addresses, which may
have appeared in a different order. Both world states yield one root. -/
theorem run_reordered (s : Session) (hs : s.state.Reachable)
    (hops : ∀ c ∈ first, c.target?.isSome) (h : Reordered first second) :
    (∀ a, eventsOn a (s.transcript second) = eventsOn a (s.transcript first)) ∧
      (s.transcript second).Perm (s.transcript first) ∧
      (s.run second).2.state.accounts.entries = (s.run first).2.state.accounts.entries ∧
      (s.run second).2.state.accounts.order.Perm (s.run first).2.state.accounts.order ∧
      (s.run second).2.state.records = (s.run first).2.state.records ∧
      ∀ secure, Commit.PathsApart secure (s.run first).2.state →
        ∃ root, Commit.YieldsRoot secure (s.run first).2.state root ∧
          Commit.YieldsRoot secure (s.run second).2.state root := by
  have hops' : ∀ c ∈ second, c.target?.isSome := fun c hc ↦ hops c (h.perm.mem_iff.mp hc)
  have hback : ∀ c ∈ first, ∀ name, c ≠ .revert name :=
    fun c hc ↦ ne_revert_of_isSome_target? (hops c hc)
  have hback' : ∀ c ∈ second, ∀ name, c ≠ .revert name :=
    fun c hc ↦ ne_revert_of_isSome_target? (hops' c hc)
  have hhistory : ∀ a, eventsOn a (s.transcript second) = eventsOn a (s.transcript first) ∧
      (s.run second).2.state.account? a = (s.run first).2.state.account? a := by
    intro a
    obtain ⟨hevents, haccount⟩ := history_run (s := s) (t := s) (a := a) hback rfl
    obtain ⟨hevents', haccount'⟩ := history_run (s := s) (t := s) (a := a) hback' rfl
    rw [hevents, hevents', haccount, haccount', h.keeps a]
    exact ⟨rfl, rfl⟩
  have hfirst := reachable_run hs hback
  have hsecond := reachable_run hs hback'
  refine ⟨fun a ↦ (hhistory a).1, ?_, ?_, ?_, ?_, fun secure hapart ↦ ?_⟩
  · exact perm_of_eventsOn_eq (isSome_target?_of_mem_transcript hops')
      (isSome_target?_of_mem_transcript hops) fun a ↦ (hhistory a).1
  · exact Std.ExtTreeMap.ext_getElem? fun a ↦ (hhistory a).2
  · exact WorldState.order_perm_of_account?_eq hsecond hfirst fun a ↦ (hhistory a).2
  · rw [records_run_of_isSome_target? hops, records_run_of_isSome_target? hops']
  · exact Commit.exists_yieldsRoot hapart hfirst
      (WorldState.sameCommittable_of_account?_eq hfirst hsecond fun a ↦ (hhistory a).2.symm)

/-- Steps on two addresses, with a refused change and with reads of what was written before. -/
def alternating (a b : Address) : List Command :=
  [.change (.addBalance a 5), .change (.setSlot b FixedBytes.zero [7]),
    .change (.subBalance a 9), .query (.slot b FixedBytes.zero), .query (.balance a),
    .change (.setNonce b 1)]

/-- The same steps, those on the second address first. -/
def separated (a b : Address) : List Command :=
  [.change (.setSlot b FixedBytes.zero [7]), .query (.slot b FixedBytes.zero),
    .change (.setNonce b 1), .change (.addBalance a 5), .change (.subBalance a 9),
    .query (.balance a)]

theorem reordered_separated {a b : Address} (hab : a ≠ b) :
    Reordered (alternating a b) (separated a b) where
  perm := by
    classical
    refine List.perm_iff_count.mpr fun c ↦ ?_
    simp only [alternating, separated, List.count_cons]
    omega
  keeps x := by
    by_cases hax : a = x
    · subst hax
      simp [alternating, separated, Command.isOn, Command.target?, Query.target?, Change.target?,
        Change.created?, Ne.symm hab]
    · by_cases hbx : b = x <;>
        simp [alternating, separated, Command.isOn, Command.target?, Query.target?,
          Change.target?, Change.created?, hax, hbx]

theorem run_reordered_separated :
    Session.empty.state.Reachable ∧
      (∀ c ∈ alternating (WorldState.ending 1) (WorldState.ending 2), c.target?.isSome) ∧
      Reordered (alternating (WorldState.ending 1) (WorldState.ending 2))
        (separated (WorldState.ending 1) (WorldState.ending 2)) ∧
      let first := alternating (WorldState.ending 1) (WorldState.ending 2)
      let second := separated (WorldState.ending 1) (WorldState.ending 2)
      Commit.PathsApart false (Session.empty.run first).2.state ∧
      (∀ a, eventsOn a (Session.empty.transcript second)
          = eventsOn a (Session.empty.transcript first)) ∧
        (Session.empty.transcript second).Perm (Session.empty.transcript first) ∧
        (Session.empty.run second).2.state.accounts.entries
          = (Session.empty.run first).2.state.accounts.entries ∧
        (Session.empty.run second).2.state.accounts.order.Perm
          (Session.empty.run first).2.state.accounts.order ∧
        (Session.empty.run second).2.state.records = (Session.empty.run first).2.state.records ∧
        ∃ root, Commit.YieldsRoot false (Session.empty.run first).2.state root ∧
          Commit.YieldsRoot false (Session.empty.run second).2.state root := by
  have hs : Session.empty.state.Reachable := WorldState.Reachable.empty
  have hne : WorldState.ending 1 ≠ WorldState.ending 2 := by decide
  have hops : ∀ c ∈ alternating (WorldState.ending 1) (WorldState.ending 2), c.target?.isSome := by
    simp [alternating, Command.target?, Query.target?, Change.target?, Change.created?]
  have hreordered := reordered_separated hne
  have hapart := Commit.pathsApart_of_plain
    (Session.empty.run (alternating (WorldState.ending 1) (WorldState.ending 2))).2.state
  obtain ⟨hevents, hperm, hentries, horder, hrecords, hroot⟩ :=
    run_reordered Session.empty hs hops hreordered
  exact ⟨hs, hops, hreordered, hapart, hevents, hperm, hentries, horder, hrecords,
    hroot false hapart⟩

end Session

end ExecState
