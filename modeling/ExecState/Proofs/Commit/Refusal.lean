import ExecState.Proofs.Commit.Writes

/-!
# Refused commitments

A commitment fails where accounts take part and the target holds leaves whose paths are not as long
as those of addresses, and nowhere else: preparing never fails, and once the first record went in
all others fit as well. This needs no assumption on the digests or on how the target came about.

The account that arrives first is refused before any leaf changes. Its code, though, is stored
before its record is put, so that the store of the target keeps it. A refused commitment therefore
leaves the leaves and the root as they were, but the target as a whole only if that code was in
the store already.
-/

namespace ExecState

theorem Trie.ext_getRaw? {t u : Trie} (hleaves : u.leaves = t.leaves)
    (hsecure : u.secure = t.secure) (hstore : ∀ k, u.getRaw? k = t.getRaw? k) : u = t := by
  have hmap : u.store = t.store := Std.ExtTreeMap.ext_getElem? fun {k} ↦ hstore k
  obtain ⟨leaves, store, secure⟩ := t
  obtain rfl : u.leaves = leaves := hleaves
  obtain rfl : u.store = store := hmap
  obtain rfl : u.secure = secure := hsecure
  rfl

namespace Commit

variable {t u : Trie} {s : WorldState} {a : Account}

/-- What is left of a target that refused an account: the code of the account is in the store, and
nothing else changed. -/
structure LeftBy (a : Account) (t u : Trie) : Prop where
  leaves : u.leaves = t.leaves
  secure : u.secure = t.secure
  code : u.getRaw? (Keccak.hash a.code) = some a.code
  getRaw? : ∀ k, k ≠ Keccak.hash a.code → u.getRaw? k = t.getRaw? k

theorem leftBy_putRaw (a : Account) (t : Trie) :
    LeftBy a t (t.putRaw (Keccak.hash a.code) a.code) where
  leaves := rfl
  secure := rfl
  code := Std.ExtTreeMap.getElem?_insert_self
  getRaw? k hk := by
    rw [Trie.getRaw?, Trie.putRaw, Std.ExtTreeMap.getElem?_insert, if_neg]
    · rfl
    · exact fun heq ↦ hk (Std.LawfulEqCmp.eq_of_compare heq).symm

theorem LeftBy.eq_putRaw (h : LeftBy a t u) : u = t.putRaw (Keccak.hash a.code) a.code := by
  have hput := leftBy_putRaw a t
  refine Trie.ext_getRaw? (h.leaves.trans hput.leaves.symm) (h.secure.trans hput.secure.symm)
    fun k ↦ ?_
  by_cases hk : k = Keccak.hash a.code
  · rw [hk, h.code, hput.code]
  · rw [h.getRaw? k hk, hput.getRaw? k hk]

theorem LeftBy.root?_eq (h : LeftBy a t u) : u.root? = t.root? := by
  rw [h.eq_putRaw]
  rfl

theorem LeftBy.get?_eq (h : LeftBy a t u) (key : Bytes) : u.get? key = t.get? key := by
  rw [Trie.get?, Trie.get?, h.leaves, Trie.path_congr h.secure]

theorem LeftBy.eq_iff (h : LeftBy a t u) :
    u = t ↔ t.getRaw? (Keccak.hash a.code) = some a.code := by
  constructor
  · rintro rfl
    exact h.code
  · intro hcode
    refine Trie.ext_getRaw? h.leaves h.secure fun k ↦ ?_
    by_cases hk : k = Keccak.hash a.code
    · rw [hk, h.code, hcode]
    · exact h.getRaw? k hk

/-- **Refusals.** When a commitment fails, and what it leaves of the target. -/
theorem commit_failed_iff (schedule : Schedule) (threads : Nat) (s : WorldState) (t : Trie)
    (e : TrieError) (u : Trie) :
    commit schedule threads s t = .failed e u ↔
      ∃ a m, (arrived schedule threads s).head? = some a ∧ t.pathLength? = some m ∧
        addressLength t ≠ m ∧ e = .keyLength (addressLength t) m ∧ LeftBy a t u := by
  constructor
  · intro h
    by_cases hacc : s.committable ≠ [] → t.Accepts (addressLength t)
    · rw [commit_eq_written schedule threads hacc] at h
      simp [Outcome.done, Outcome.failed] at h
    · obtain ⟨hne, hrefused⟩ := Classical.not_imp.mp hacc
      simp only [Trie.Accepts, not_forall] at hrefused
      obtain ⟨m, hm, hlen⟩ := hrefused
      obtain ⟨a, -, ha⟩ := exists_head?_arrived schedule threads hne
      rw [commit_eq_failed schedule threads ha hm hlen] at h
      obtain ⟨he, rfl⟩ := Prod.mk.inj h
      exact ⟨a, m, ha, hm, hlen, (Except.error.inj he).symm, leftBy_putRaw a t⟩
  · rintro ⟨a, m, ha, hm, hlen, rfl, hleft⟩
    rw [commit_eq_failed schedule threads ha hm hlen, hleft.eq_putRaw]

/-- **A refused commitment keeps the leaves and the root.** It was the account that arrived first
that was refused. Its code stays in the store, and nothing else changes, so that the target is what
it was exactly if it had that code before. -/
theorem commit_refused {schedule : Schedule} {threads : Nat} {s : WorldState} {t : Trie}
    {e : TrieError} {u : Trie} (h : commit schedule threads s t = .failed e u) :
    u.leaves = t.leaves ∧ u.root? = t.root? ∧ (∀ key, u.get? key = t.get? key) ∧
      ∃ a ∈ s.committable, (arrived schedule threads s).head? = some a ∧
        (∀ k, k ≠ Keccak.hash a.code → u.getRaw? k = t.getRaw? k) ∧
        u.getRaw? (Keccak.hash a.code) = some a.code ∧
        (u = t ↔ t.getRaw? (Keccak.hash a.code) = some a.code) := by
  obtain ⟨a, m, ha, -, -, -, hleft⟩ := (commit_failed_iff schedule threads s t e u).mp h
  have hmem : a ∈ s.committable :=
    (mem_arrived schedule threads s a).mp (List.mem_of_head? ha)
  exact ⟨hleft.leaves, hleft.root?_eq, hleft.get?_eq, a, hmem, ha, hleft.getRaw?, hleft.code,
    hleft.eq_iff⟩

def codedAccount : Account := { Account.fresh (repeated 1) with code := [0x60] }

def coded : WorldState := WorldState.empty.after [.setCode codedAccount.address codedAccount.code]

/-- A trie with a leaf under a key of one byte. -/
def shortKeyed : Trie := ((Trie.empty false).put [1] [1]).2

theorem reachable_shortKeyed : shortKeyed.Reachable := (Trie.Reachable.empty false).put _ _

theorem shortKeyed_eq : shortKeyed = (Trie.empty false).setLeaf [1] [1] := by
  have hacc : (Trie.empty false).Accepts 1 := Trie.accepts_clear (Trie.empty false) 1
  exact congrArg Prod.snd (Trie.put_of_accepts hacc [1])

theorem commit_coded :
    commit Schedule.sequential 1 coded shortKeyed = .failed (.keyLength 20 1)
      (shortKeyed.putRaw (Keccak.hash codedAccount.code) codedAccount.code) := by
  have harrived : (arrived Schedule.sequential 1 coded).head? = some codedAccount := by
    decide +kernel
  have hmem : [1] ∈ shortKeyed.leaves := by
    rw [shortKeyed_eq]
    decide +kernel
  have hlength : shortKeyed.pathLength? = some 1 :=
    reachable_shortKeyed.wellFormed.pathLength?_eq hmem
  have haddress : addressLength shortKeyed = 20 := by
    rw [shortKeyed_eq]
    rfl
  rw [commit_eq_failed Schedule.sequential 1 harrived hlength (by omega), haddress]

theorem commit_refused_coded :
    ∃ e u, commit Schedule.sequential 1 coded shortKeyed = .failed e u ∧
      u.leaves = shortKeyed.leaves ∧ u.root? = shortKeyed.root? ∧
      (∀ key, u.get? key = shortKeyed.get? key) ∧
      ∃ a ∈ coded.committable, (arrived Schedule.sequential 1 coded).head? = some a ∧
        (∀ k, k ≠ Keccak.hash a.code → u.getRaw? k = shortKeyed.getRaw? k) ∧
        u.getRaw? (Keccak.hash a.code) = some a.code ∧
        (u = shortKeyed ↔ shortKeyed.getRaw? (Keccak.hash a.code) = some a.code) :=
  ⟨_, _, commit_coded, commit_refused commit_coded⟩

/-- So a refused commitment can change what the store answers. -/
theorem not_forall_refused_unchanged :
    ¬ ∀ (schedule : Schedule) (threads : Nat) (s : WorldState) (t : Trie) (e : TrieError)
        (u : Trie), s.Reachable → t.Reachable → commit schedule threads s t = .failed e u →
      u.leaves = t.leaves ∧ u.root? = t.root? ∧ ∀ k, u.getRaw? k = t.getRaw? k := by
  intro h
  have hs : coded.Reachable := WorldState.Reachable.empty.after _
  obtain ⟨-, -, hstore⟩ := h _ _ _ _ _ _ hs reachable_shortKeyed commit_coded
  have hcode := hstore (Keccak.hash codedAccount.code)
  rw [(leftBy_putRaw codedAccount shortKeyed).code, shortKeyed_eq] at hcode
  exact absurd hcode (by simp [Trie.getRaw?, Trie.setLeaf, Trie.empty])

end Commit

end ExecState
