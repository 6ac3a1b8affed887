import ExecState.Commit.Basic
import ExecState.Ledger.Session

/-!
# Going back to a snapshot

A world state has two halves that never influence each other: its accounts, and its logs with its
refunds. A step of a session is *lasting* if it is about the second half, since what it does
outlasts going back to a snapshot.

## The two halves

Lasting steps leave the accounts alone and depend on the second half only; all other steps leave
the second half alone. So the logs and refunds after a run are those after its lasting steps
(`Session.records_run`), from whatever accounts the two runs start. The accounts after going back
are those of the snapshot, whatever happened in between.

## Two runs

Together these say that a run that goes back ends where the run of its lasting steps ends. What
comes later cannot tell the two apart, unless it goes back to a snapshot that only one of them has
taken (`Session.run_congr`); `awaited` lists the names to which a row of steps goes back without
having taken a snapshot under them itself.
-/

namespace ExecState

/-! ## The two halves of a world state -/

/-- Whether what a change does outlasts going back to a snapshot. -/
def Change.isLasting : Change → Bool
  | .addRefund _ | .subRefund _ | .appendLog _ => true
  | _ => false

/-- Whether what a step does outlasts going back to a snapshot. -/
def Command.isLasting : Command → Bool
  | .change c => c.isLasting
  | _ => false

namespace WorldState

/-- The half of a world state that no snapshot holds. -/
def records (s : WorldState) : List Log × U256 := (s.logs, s.refund)

variable {s t : WorldState} {c : Change}

theorem accounts_apply_of_isLasting (h : c.isLasting = true) :
    (s.apply c).2.accounts = s.accounts := by
  cases c with
  | addRefund amount => rfl
  | subRefund amount =>
    rw [apply, subRefund]
    split <;> rfl
  | appendLog log => rfl
  | _ => cases h

theorem records_apply_of_not_isLasting (h : c.isLasting = false) :
    (s.apply c).2.records = s.records := by
  cases c with
  | addBalance a amount =>
    rw [apply, addBalance]
    dsimp only
    split <;> rfl
  | subBalance a amount =>
    rw [apply, subBalance]
    split
    · rfl
    · split <;> rfl
  | destroy a =>
    rw [apply, destroy]
    split <;> rfl
  | addRefund amount => cases h
  | subRefund amount => cases h
  | appendLog log => cases h
  | _ => rfl

/-- A lasting change does not see the accounts. -/
theorem records_apply_congr (h : c.isLasting = true) (hst : s.records = t.records) :
    (s.apply c).2.records = (t.apply c).2.records := by
  obtain ⟨hlogs, hrefund⟩ := Prod.mk.inj hst
  cases c with
  | addRefund amount =>
    show (s.logs, s.refund.addSaturating amount) = (t.logs, t.refund.addSaturating amount)
    rw [hlogs, hrefund]
  | subRefund amount =>
    rw [apply, apply, subRefund, subRefund, hrefund]
    split
    · rw [records, records]
      simp [hlogs]
    · exact hst
  | appendLog log =>
    show (s.logs ++ [log], s.refund) = (t.logs ++ [log], t.refund)
    rw [hlogs, hrefund]
  | _ => cases h

theorem eq_of_halves_eq (haccounts : s.accounts = t.accounts) (hrecords : s.records = t.records) :
    s = t := by
  obtain ⟨hlogs, hrefund⟩ := Prod.mk.inj hrecords
  cases s
  cases t
  simp_all

end WorldState

namespace Session

/-! ## Steps and runs -/

variable {s t : Session} {c : Command}

theorem state_step_change (s : Session) (c : Change) :
    (s.step (.change c)).2.state = (s.state.apply c).2 := by
  rw [step]
  rcases s.state.apply c with ⟨_ | _, state⟩ <;> rfl

theorem step_change_congr (hstate : s.state = t.state) (c : Change) :
    (s.step (.change c)).1 = (t.step (.change c)).1 := by
  rw [step, step, hstate]
  rcases t.state.apply c with ⟨_ | _, state⟩ <;> rfl

theorem snapshots_step_change (s : Session) (c : Change) :
    (s.step (.change c)).2.snapshots = s.snapshots := by
  rw [step]
  rcases s.state.apply c with ⟨_ | _, state⟩ <;> rfl

theorem state_step_revert {name : String} {snapshot : Snapshot}
    (h : s.snapshots[name]? = some snapshot) :
    (s.step (.revert name)).2.state = s.state.revertTo snapshot := by
  rw [step, h]
  rfl

theorem snapshots_step_revert (s : Session) (name : String) :
    (s.step (.revert name)).2.snapshots = s.snapshots := by
  rw [step]
  split <;> rfl

theorem run_cons (s : Session) (c : Command) (rest : List Command) :
    s.run (c :: rest) = ((s.step c).1 :: ((s.step c).2.run rest).1, ((s.step c).2.run rest).2) :=
  rfl

theorem run_append (s : Session) (first rest : List Command) :
    s.run (first ++ rest) =
      ((s.run first).1 ++ ((s.run first).2.run rest).1, ((s.run first).2.run rest).2) := by
  induction first generalizing s with
  | nil => rfl
  | cons c first ih => rw [List.cons_append, run_cons, ih, run_cons, List.cons_append]

/-! ## Logs and refunds -/

theorem records_step_of_not_isLasting (h : c.isLasting = false) :
    (s.step c).2.state.records = s.state.records := by
  cases c with
  | query q => rfl
  | change c =>
    rw [state_step_change]
    exact WorldState.records_apply_of_not_isLasting h
  | snapshot name => rfl
  | revert name =>
    rw [step]
    split <;> rfl

theorem records_step_congr (h : c.isLasting = true) (hst : s.state.records = t.state.records) :
    (s.step c).2.state.records = (t.step c).2.state.records := by
  cases c with
  | change c =>
    rw [state_step_change, state_step_change]
    exact WorldState.records_apply_congr h hst
  | query q => cases h
  | snapshot name => cases h
  | revert name => cases h

/-- **Logs and refunds** after a run are those after its lasting steps, whatever the accounts. -/
theorem records_run (hst : s.state.records = t.state.records) (commands : List Command) :
    (s.run commands).2.state.records
      = (t.run (commands.filter Command.isLasting)).2.state.records := by
  -- the accounts of the two sessions drift apart on the way, so both sessions are general
  induction commands generalizing s t with
  | nil => exact hst
  | cons c rest ih =>
    rw [run_cons]
    cases hc : c.isLasting with
    | true =>
      rw [List.filter_cons_of_pos hc, run_cons]
      exact ih (records_step_congr hc hst)
    | false =>
      rw [List.filter_cons_of_neg (by simp [hc])]
      exact ih ((records_step_of_not_isLasting hc).trans hst)

/-! ## Going back -/

theorem accounts_run_of_isLasting {commands : List Command} (h : ∀ c ∈ commands, c.isLasting) :
    (s.run commands).2.state.accounts = s.state.accounts := by
  induction commands generalizing s with
  | nil => rfl
  | cons c rest ih =>
    have hc := h c List.mem_cons_self
    rw [run_cons, ih fun d hd ↦ h d (List.mem_cons_of_mem c hd)]
    cases c with
    | change c =>
      rw [state_step_change]
      exact WorldState.accounts_apply_of_isLasting hc
    | query q => cases hc
    | snapshot name => cases hc
    | revert name => cases hc

/-- Going back to the snapshot of an earlier state leaves what the lasting steps did since. -/
theorem revertTo_snapshot_run (s : Session) (mid : List Command) :
    (s.run mid).2.state.revertTo s.state.snapshot
      = (s.run (mid.filter Command.isLasting)).2.state := by
  refine WorldState.eq_of_halves_eq ?_ (records_run rfl mid)
  exact (accounts_run_of_isLasting fun _ h ↦ (List.mem_filter.mp h).2).symm

/-! ## Snapshots by name -/

/-- A snapshot is kept as long as none is taken under its name. -/
theorem getElem?_snapshots_run {name : String} {commands : List Command}
    (h : .snapshot name ∉ commands) :
    (s.run commands).2.snapshots[name]? = s.snapshots[name]? := by
  induction commands generalizing s with
  | nil => rfl
  | cons c rest ih =>
    rw [List.mem_cons, not_or] at h
    rw [run_cons, ih h.2]
    cases c with
    | query q => rfl
    | change c => rw [snapshots_step_change]
    | revert other => rw [snapshots_step_revert]
    | snapshot other =>
      have hne : other ≠ name := fun heq ↦ h.1 (heq ▸ rfl)
      show (s.snapshots.insert other s.state.snapshot)[name]? = _
      rw [Std.ExtTreeMap.getElem?_insert,
        if_neg fun hcmp ↦ hne (Std.LawfulEqCmp.eq_of_compare hcmp)]

/-- However often a session goes back to a snapshot, it has the accounts of that snapshot. -/
theorem accounts_run_rounds {name : String} {snapshot : Snapshot} {rounds : List (List Command)}
    (hname : s.snapshots[name]? = some snapshot) (hs : s.state.accounts = snapshot.accounts)
    (h : ∀ mid ∈ rounds, .snapshot name ∉ mid) :
    (s.run (rounds.flatMap fun mid ↦ mid ++ [.revert name])).2.state.accounts
      = snapshot.accounts := by
  -- a round leaves a session that still holds the snapshot and has its accounts
  induction rounds generalizing s with
  | nil => exact hs
  | cons mid rounds ih =>
    have hmid : (s.run mid).2.snapshots[name]? = some snapshot :=
      (getElem?_snapshots_run (h mid List.mem_cons_self)).trans hname
    rw [List.flatMap_cons, run_append, run_append]
    refine ih ?_ ?_ fun other hother ↦ h other (List.mem_cons_of_mem mid hother)
    · show ((s.run mid).2.step (.revert name)).2.snapshots[name]? = _
      rw [snapshots_step_revert, hmid]
    · show ((s.run mid).2.step (.revert name)).2.state.accounts = _
      rw [state_step_revert hmid]
      rfl

/-! ## What comes later -/

/-- The names to which a row of steps goes back without having taken a snapshot under them. -/
def awaited : List Command → List String
  | [] => []
  | .revert name :: rest => name :: awaited rest
  | .snapshot name :: rest => (awaited rest).filter fun other ↦ other ≠ name
  | .query _ :: rest | .change _ :: rest => awaited rest

/-- Sessions in one state that hold the same snapshots, as far as a row of steps goes back to
them, answer it alike. -/
theorem run_congr {commands : List Command} (hstate : s.state = t.state)
    (h : ∀ name ∈ awaited commands, s.snapshots[name]? = t.snapshots[name]?) :
    (s.run commands).1 = (t.run commands).1 ∧
      (s.run commands).2.state = (t.run commands).2.state := by
  induction commands generalizing s t with
  | nil => exact ⟨rfl, hstate⟩
  | cons c rest ih =>
    -- it is enough that the step answers alike and leaves such sessions again
    suffices hstep : (s.step c).1 = (t.step c).1 ∧ (s.step c).2.state = (t.step c).2.state ∧
        ∀ name ∈ awaited rest, (s.step c).2.snapshots[name]? = (t.step c).2.snapshots[name]? by
      obtain ⟨hanswer, hleft, hnames⟩ := hstep
      obtain ⟨hanswers, hend⟩ := ih hleft hnames
      rw [run_cons, run_cons, hanswer, hanswers]
      exact ⟨rfl, hend⟩
    cases c with
    | query q =>
      have hanswer : s.state.answer q = t.state.answer q := by rw [hstate]
      exact ⟨congrArg Except.ok hanswer, hstate, h⟩
    | change c =>
      refine ⟨step_change_congr hstate c, ?_, fun name hname ↦ ?_⟩
      · rw [state_step_change, state_step_change, hstate]
      · rw [snapshots_step_change, snapshots_step_change]
        exact h name hname
    | snapshot taken =>
      refine ⟨rfl, hstate, fun name hname ↦ ?_⟩
      show (s.snapshots.insert taken s.state.snapshot)[name]?
        = (t.snapshots.insert taken t.state.snapshot)[name]?
      rw [Std.ExtTreeMap.getElem?_insert, Std.ExtTreeMap.getElem?_insert, hstate]
      by_cases htaken : name = taken
      · rw [htaken, if_pos Std.ReflCmp.compare_self, if_pos Std.ReflCmp.compare_self]
      · have hcmp : compare taken name ≠ .eq :=
          fun hcmp ↦ htaken (Std.LawfulEqCmp.eq_of_compare hcmp).symm
        rw [if_neg hcmp, if_neg hcmp]
        exact h name (List.mem_filter.mpr ⟨hname, by simpa using htaken⟩)
    | revert back =>
      have hback := h back List.mem_cons_self
      have hrest : ∀ name ∈ awaited rest, s.snapshots[name]? = t.snapshots[name]? :=
        fun name hname ↦ h name (List.mem_cons_of_mem back hname)
      cases hsnapshot : t.snapshots[back]? with
      | none =>
        rw [step, step, hback, hsnapshot]
        exact ⟨rfl, hstate, hrest⟩
      | some snapshot =>
        rw [step, step, hback, hsnapshot]
        exact ⟨rfl, congrArg (WorldState.revertTo · snapshot) hstate, hrest⟩

/-! ## Erasure -/

section Rounds

variable (name : String) (rounds : List (List Command))

/-- Taking a snapshot, and going back to it after each of some rounds. -/
def goingBack : List Command :=
  .snapshot name :: rounds.flatMap fun mid ↦ mid ++ [.revert name]

/-- The lasting steps of some rounds. -/
def lasting : List Command := rounds.flatten.filter Command.isLasting

theorem filter_isLasting_goingBack :
    (goingBack name rounds).filter Command.isLasting = lasting rounds := by
  rw [goingBack, lasting, List.filter_cons_of_neg (by simp [Command.isLasting])]
  induction rounds with
  | nil => rfl
  | cons mid rounds ih =>
    have hrevert : [Command.revert name].filter Command.isLasting = [] := rfl
    rw [List.flatMap_cons, List.filter_append, List.filter_append, hrevert, List.append_nil, ih,
      List.flatten_cons, List.filter_append]

theorem isLasting_of_mem_lasting {c : Command} (h : c ∈ lasting rounds) : c.isLasting = true :=
  (List.mem_filter.mp h).2

theorem filter_isLasting_lasting : (lasting rounds).filter Command.isLasting = lasting rounds :=
  List.filter_eq_self.mpr fun _ h ↦ isLasting_of_mem_lasting rounds h

theorem accounts_run_goingBack (s : Session) (h : ∀ mid ∈ rounds, .snapshot name ∉ mid) :
    (s.run (goingBack name rounds)).2.state.accounts = s.state.accounts := by
  have htaken : (s.step (.snapshot name)).2.snapshots[name]? = some s.state.snapshot :=
    Std.ExtTreeMap.getElem?_insert_self
  rw [goingBack, run_cons]
  exact accounts_run_rounds htaken rfl h

/-- A run that goes back ends in the state in which the run of its lasting steps ends. -/
theorem state_run_goingBack (s : Session) (h : ∀ mid ∈ rounds, .snapshot name ∉ mid) :
    (s.run (goingBack name rounds)).2.state = (s.run (lasting rounds)).2.state := by
  refine WorldState.eq_of_halves_eq ?_ ?_
  · rw [accounts_run_goingBack name rounds s h,
      accounts_run_of_isLasting fun _ ↦ isLasting_of_mem_lasting rounds]
  · rw [records_run rfl, filter_isLasting_goingBack]

theorem state_run_snapshot_lasting (s : Session) :
    (s.run (.snapshot name :: lasting rounds)).2.state = (s.run (lasting rounds)).2.state := by
  have hlasting : ∀ c ∈ lasting rounds, c.isLasting = true :=
    fun _ ↦ isLasting_of_mem_lasting rounds
  rw [run_cons]
  refine WorldState.eq_of_halves_eq ?_ ?_
  · rw [accounts_run_of_isLasting hlasting, accounts_run_of_isLasting hlasting]
    rfl
  · have hrecords := records_run (s := (s.step (.snapshot name)).2) (t := s) rfl (lasting rounds)
    rwa [filter_isLasting_lasting] at hrecords

/-- Snapshots under names that no round takes are the same, whether or not the session went
through the rounds. -/
theorem snapshots_run_goingBack (s : Session) {other : String}
    (h : ∀ mid ∈ rounds, .snapshot other ∉ mid) :
    (s.run (goingBack name rounds)).2.snapshots[other]?
      = (s.run (.snapshot name :: lasting rounds)).2.snapshots[other]? := by
  have hrounds : .snapshot other ∉ rounds.flatMap fun mid ↦ mid ++ [.revert name] := by
    rw [List.mem_flatMap]
    rintro ⟨mid, hmid, hmem⟩
    rcases List.mem_append.mp hmem with hmem | hmem
    · exact h mid hmid hmem
    · cases List.mem_singleton.mp hmem
  have hlasting : .snapshot other ∉ lasting rounds :=
    fun hmem ↦ Bool.noConfusion (isLasting_of_mem_lasting rounds hmem)
  rw [goingBack, run_cons, run_cons]
  exact (getElem?_snapshots_run hrounds).trans (getElem?_snapshots_run hlasting).symm

end Rounds

/-- **Going back erases what happened to the accounts, and nothing else.** Whatever a session did
since, the snapshot of the state that it started from leaves of it what the lasting steps did. Under
a name, a session takes a snapshot and goes back to it as often as one likes, each time after a
round that may do anything but take another snapshot under the same name: be refused, take further
snapshots, go back to any of them or to this one. In the end the accounts and their order are what
they were, the logs and refunds are those of the lasting steps alone, and nothing that comes later,
a commitment included, tells the session from one in which only these were carried out. -/
theorem run_goingBack (s : Session) (name : String) (rounds : List (List Command))
    (later : List Command) (hname : ∀ mid ∈ rounds, .snapshot name ∉ mid)
    (hlater : ∀ other ∈ awaited later, ∀ mid ∈ rounds, .snapshot other ∉ mid) :
    let back := (s.run (goingBack name rounds)).2
    let bare := (s.run (.snapshot name :: lasting rounds)).2
    (∀ mid, (s.run mid).2.state.revertTo s.state.snapshot
        = (s.run (mid.filter Command.isLasting)).2.state) ∧
      back.state.accounts = s.state.accounts ∧
      back.state.logs = (s.run (lasting rounds)).2.state.logs ∧
      back.state.refund = (s.run (lasting rounds)).2.state.refund ∧
      (back.run later).1 = (bare.run later).1 ∧
      (back.run later).2.state = (bare.run later).2.state ∧
      ∀ schedule threads target,
        Commit.commit schedule threads (back.run later).2.state target
          = Commit.commit schedule threads (bare.run later).2.state target := by
  intro back bare
  have hstate : back.state = (s.run (lasting rounds)).2.state :=
    state_run_goingBack name rounds s hname
  have hbare : back.state = bare.state :=
    hstate.trans (state_run_snapshot_lasting name rounds s).symm
  obtain ⟨hanswers, hend⟩ := run_congr hbare fun other hother ↦
    snapshots_run_goingBack name rounds s (hlater other hother)
  refine ⟨revertTo_snapshot_run s, accounts_run_goingBack name rounds s hname, ?_, ?_, hanswers,
    hend, ?_⟩
  · rw [hstate]
  · rw [hstate]
  · intro schedule threads target
    rw [hend]

/-- Two rounds with a refused change, a further snapshot and going back out of turn. -/
def restless : List (List Command) :=
  [[.change (.addBalance FixedBytes.zero 7), .change (.addRefund 3), .snapshot "inner",
      .change (.subBalance FixedBytes.zero 9), .revert "outer", .change (.subRefund 1),
      .revert "inner"],
    [.change (.setNonce FixedBytes.zero 4), .revert "older",
      .change (.appendLog ⟨FixedBytes.zero, [], [1]⟩)]]

/-- Reads, writes and one more return. -/
def afterwards : List Command :=
  [.query .refund, .change (.addBalance FixedBytes.zero 2), .query (.balance FixedBytes.zero),
    .snapshot "inner", .revert "inner", .revert "outer", .query .accounts]

theorem run_goingBack_restless :
    (∀ mid ∈ restless, .snapshot "outer" ∉ mid) ∧
      (∀ other ∈ awaited afterwards, ∀ mid ∈ restless, .snapshot other ∉ mid) ∧
      let back := (Session.empty.run (goingBack "outer" restless)).2
      let bare := (Session.empty.run (.snapshot "outer" :: lasting restless)).2
      (∀ mid, (Session.empty.run mid).2.state.revertTo Session.empty.state.snapshot
          = (Session.empty.run (mid.filter Command.isLasting)).2.state) ∧
        back.state.accounts = Session.empty.state.accounts ∧
        back.state.logs = (Session.empty.run (lasting restless)).2.state.logs ∧
        back.state.refund = (Session.empty.run (lasting restless)).2.state.refund ∧
        (back.run afterwards).1 = (bare.run afterwards).1 ∧
        (back.run afterwards).2.state = (bare.run afterwards).2.state ∧
        ∀ schedule threads target,
          Commit.commit schedule threads (back.run afterwards).2.state target
            = Commit.commit schedule threads (bare.run afterwards).2.state target := by
  have hname : ∀ mid ∈ restless, .snapshot "outer" ∉ mid := by simp [restless]
  have hlater : ∀ other ∈ awaited afterwards, ∀ mid ∈ restless, .snapshot other ∉ mid := by
    simp [awaited, afterwards, restless]
  exact ⟨hname, hlater, run_goingBack Session.empty "outer" restless afterwards hname hlater⟩

end Session

end ExecState
