import ExecState.Proofs.Commit.Writes

/-!
# The root does not depend on the order

Two world states in which the same accounts take part are committed to the same effect into one
target: whatever order the accounts were created in, however the work is shared, in whatever order
the workers finish and the storages are walked. Accounts that do not take part, logs and refunds
have no effect either.

An account is compared by its contents only. That it takes part settles the one thing that the
contents leave open, whether it is destroyed.
-/

namespace ExecState

/-- What a commitment makes of an account. -/
def Account.contents (a : Account) : Address × U256 × U256 × Bytes × Storage :=
  (a.address, a.nonce, a.balance, a.code, a.storage)

theorem Account.destroyed_of_isCommittable {a : Account} (h : a.isCommittable = true) :
    a.destroyed = false := by
  simp only [isCommittable, Bool.not_eq_true', Bool.or_eq_false_iff] at h
  exact h.2

theorem Account.eq_of_contents_eq {a b : Account} (ha : a.isCommittable = true)
    (hb : b.isCommittable = true) (h : a.contents = b.contents) : a = b := by
  have hda := destroyed_of_isCommittable ha
  have hdb := destroyed_of_isCommittable hb
  cases a
  cases b
  simp_all [contents]

/-- Whether the same accounts take part in the commitments of two world states. -/
def WorldState.SameCommittable (s₁ s₂ : WorldState) : Prop :=
  ∀ c, c ∈ s₁.committable.map Account.contents ↔ c ∈ s₂.committable.map Account.contents

namespace WorldState

variable {s₁ s₂ : WorldState}

theorem isCommittable_of_mem {s : WorldState} {a : Account} (h : a ∈ s.committable) :
    a.isCommittable = true :=
  (List.mem_filter.mp h).2

theorem SameCommittable.mem_of_mem (h : s₁.SameCommittable s₂) {a : Account}
    (ha : a ∈ s₁.committable) : a ∈ s₂.committable := by
  obtain ⟨b, hb, hab⟩ := List.mem_map.mp ((h a.contents).mp (List.mem_map.mpr ⟨a, ha, rfl⟩))
  rwa [← Account.eq_of_contents_eq (isCommittable_of_mem hb) (isCommittable_of_mem ha) hab]

theorem SameCommittable.symm (h : s₁.SameCommittable s₂) : s₂.SameCommittable s₁ :=
  fun c ↦ (h c).symm

theorem SameCommittable.mem_iff (h : s₁.SameCommittable s₂) (a : Account) :
    a ∈ s₂.committable ↔ a ∈ s₁.committable :=
  ⟨h.symm.mem_of_mem, h.mem_of_mem⟩

theorem SameCommittable.eq_nil_iff (h : s₁.SameCommittable s₂) :
    s₁.committable = [] ↔ s₂.committable = [] := by
  simp only [List.eq_nil_iff_forall_not_mem, h.mem_iff]

end WorldState

namespace Commit

/-- **Order independence.** Commitments of two world states in which the same accounts take part
either fail in both runs, for one reason, or yield one root and leave one target. -/
theorem commit_of_sameCommittable (σ₁ σ₂ : Schedule) (n₁ n₂ : Nat) {s₁ s₂ : WorldState} (t : Trie)
    (h₁ : s₁.Reachable) (hsame : s₁.SameCommittable s₂) (h : HashesApart t.secure s₁) :
    (∃ e u₁ u₂, commit σ₁ n₁ s₁ t = .failed e u₁ ∧ commit σ₂ n₂ s₂ t = .failed e u₂) ∨
      ∃ root u, commit σ₁ n₁ s₁ t = .done root u ∧ commit σ₂ n₂ s₂ t = .done root u := by
  have hkeys : ∀ a ∈ s₂.committable, Storage.KeysApart t.secure a.storage :=
    fun a ha ↦ h.keys a ((hsame.mem_iff a).mp ha)
  by_cases hacc : s₁.committable ≠ [] → t.Accepts (addressLength t)
  · right
    have hmem₁ : ∀ a, a ∈ arrived σ₁ n₁ s₁ ↔ a ∈ s₁.committable :=
      fun a ↦ (perm_arrived σ₁ n₁ s₁).mem_iff
    have hmem₂ : ∀ a, a ∈ arrived σ₂ n₂ s₂ ↔ a ∈ s₁.committable :=
      fun a ↦ (perm_arrived σ₂ n₂ s₂).mem_iff.trans (hsame.mem_iff a)
    have hacc₂ : s₂.committable ≠ [] → t.Accepts (addressLength t) :=
      fun hne ↦ hacc fun hnil ↦ hne (hsame.eq_nil_iff.mp hnil)
    refine ⟨_, _, commit_of_accepts σ₁ n₁ h.keys hacc, ?_⟩
    rw [commit_of_accepts σ₂ n₂ hkeys hacc₂, written_congr h h₁ hmem₁ hmem₂]
  · left
    obtain ⟨hne, hrefused⟩ := Classical.not_imp.mp hacc
    simp only [Trie.Accepts, not_forall] at hrefused
    obtain ⟨m, hm, hlen⟩ := hrefused
    have hne₂ : s₂.committable ≠ [] := fun hnil ↦ hne (hsame.eq_nil_iff.mpr hnil)
    obtain ⟨a₁, -, hcommit₁⟩ := commit_of_pathLength_ne σ₁ n₁ hne hm hlen
    obtain ⟨a₂, -, hcommit₂⟩ := commit_of_pathLength_ne σ₂ n₂ hne₂ hm hlen
    exact ⟨_, _, _, hcommit₁, hcommit₂⟩

/-- The accounts of `twoUsed` the other way round, with a destroyed account between them. -/
def twoUsedSwapped : WorldState :=
  WorldState.empty.after
    [.addBalance (repeated 2) 5, .setNonce (repeated 3) 1, .destroy (repeated 3),
      .setNonce (repeated 1) 1, .addRefund 8]

/-- A schedule in which everything happens the other way round. -/
def backwards : Schedule :=
  ⟨Arrival.reversed, fun account ↦ account.storage.toList.reverse, fun _ ↦ List.reverse_perm _⟩

theorem commit_of_sameCommittable_swapped :
    twoUsed.Reachable ∧ twoUsed.SameCommittable twoUsedSwapped ∧
      HashesApart (Trie.empty false).secure twoUsed ∧
      ((∃ e u₁ u₂, commit Schedule.sequential 0 twoUsed (Trie.empty false) = .failed e u₁ ∧
          commit backwards 2 twoUsedSwapped (Trie.empty false) = .failed e u₂) ∨
        ∃ root u, commit Schedule.sequential 0 twoUsed (Trie.empty false) = .done root u ∧
          commit backwards 2 twoUsedSwapped (Trie.empty false) = .done root u) := by
  have hs : twoUsed.Reachable := WorldState.Reachable.empty.after _
  have hswap : twoUsedSwapped.committable = twoUsed.committable.reverse := by decide +kernel
  have hsame : twoUsed.SameCommittable twoUsedSwapped := by
    intro c
    rw [hswap, List.map_reverse, List.mem_reverse]
  have hapart : HashesApart (Trie.empty false).secure twoUsed :=
    hashesApart_of_code_eq (c := []) (by decide +kernel)
  exact ⟨hs, hsame, hapart, commit_of_sameCommittable _ _ _ _ _ hs hsame hapart⟩

end Commit

end ExecState
