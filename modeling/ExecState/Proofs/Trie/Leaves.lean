import ExecState.Trie.Basic
import Mathlib.Data.List.Basic

/-!
# The leaves of a trie

A trie accepts a path when it has no leaf yet or when its first leaf has a path of that length.
Putting values under accepted paths of one length is inserting them into the map of leaves, and
what a row of insertions leaves in a map depends on the set of its entries only, as long as no two
of them disagree.

The length is compared with that of the first leaf alone. This is enough because of an invariant of
the tries that can arise: all paths have one length, which is that of a digest where keys are
hashed, and no leaf holds the empty value.
-/

namespace ExecState

/-! ## Rows of insertions -/

section InsertMany

variable {α β : Type} {cmp : α → α → Ordering} [Std.TransCmp cmp] [Std.LawfulEqCmp cmp]
  {m : Std.ExtTreeMap α β cmp} {l l' : List (α × β)} {k : α} {v : β}

theorem getElem?_insertMany_of_forall_ne (h : ∀ e ∈ l, e.1 ≠ k) :
    (m.insertMany l)[k]? = m[k]? := by
  induction l generalizing m with
  | nil => rw [Std.ExtTreeMap.insertMany_nil]
  | cons e l ih =>
    have hne : ¬ cmp e.1 k = .eq := fun heq ↦
      h e List.mem_cons_self (Std.LawfulEqCmp.eq_of_compare heq)
    rw [show e :: l = (e.1, e.2) :: l from rfl, Std.ExtTreeMap.insertMany_cons,
      ih fun e' he' ↦ h e' (List.mem_cons_of_mem e he'), Std.ExtTreeMap.getElem?_insert,
      if_neg hne]

/-- An entry of the row is found unless another entry contradicts it. -/
theorem getElem?_insertMany_of_mem (hmem : (k, v) ∈ l) (h : ∀ e ∈ l, e.1 = k → e.2 = v) :
    (m.insertMany l)[k]? = some v := by
  induction l generalizing m with
  | nil => simp at hmem
  | cons e l ih =>
    rw [show e :: l = (e.1, e.2) :: l from rfl, Std.ExtTreeMap.insertMany_cons]
    -- a later entry under the key counts, and has the same value
    by_cases hlater : ∃ e' ∈ l, e'.1 = k
    · obtain ⟨e', he', hk⟩ := hlater
      have hv : e'.2 = v := h e' (List.mem_cons_of_mem e he') hk
      exact ih (hk ▸ hv ▸ he') fun x hx ↦ h x (List.mem_cons_of_mem e hx)
    · have hnone : ∀ e' ∈ l, e'.1 ≠ k := fun e' he' hk ↦ hlater ⟨e', he', hk⟩
      have he : (k, v) = e := by
        refine (List.mem_cons.mp hmem).resolve_right fun hl ↦ hnone _ hl rfl
      rw [getElem?_insertMany_of_forall_ne hnone, ← he, Std.ExtTreeMap.getElem?_insert_self]

/-- **The order of a row is forgotten.** Rows with the same entries, none of which contradicts
another, leave the same map. -/
theorem insertMany_congr (hmem : ∀ e, e ∈ l ↔ e ∈ l')
    (h : ∀ e ∈ l, ∀ e' ∈ l, e.1 = e'.1 → e.2 = e'.2) : m.insertMany l = m.insertMany l' := by
  refine Std.ExtTreeMap.ext_getElem? fun k ↦ ?_
  by_cases hk : ∃ e ∈ l, e.1 = k
  · obtain ⟨e, he, rfl⟩ := hk
    rw [getElem?_insertMany_of_mem he fun e' he' hkey ↦ h e' he' e he hkey,
      getElem?_insertMany_of_mem ((hmem e).mp he) fun e' he' hkey ↦
        h e' ((hmem e').mpr he') e he hkey]
  · have hnone : ∀ e ∈ l, e.1 ≠ k := fun e he hkey ↦ hk ⟨e, he, hkey⟩
    rw [getElem?_insertMany_of_forall_ne hnone,
      getElem?_insertMany_of_forall_ne fun e he ↦ hnone e ((hmem e).mpr he)]

theorem getElem?_insertMany_empty_iff (h : ∀ e ∈ l, ∀ e' ∈ l, e.1 = e'.1 → e.2 = e'.2) :
    ((∅ : Std.ExtTreeMap α β cmp).insertMany l)[k]? = some v ↔ (k, v) ∈ l := by
  constructor
  · intro hget
    by_cases hk : ∃ e ∈ l, e.1 = k
    · obtain ⟨e, he, rfl⟩ := hk
      rw [getElem?_insertMany_of_mem he fun e' he' hkey ↦ h e' he' e he hkey,
        Option.some_inj] at hget
      exact hget ▸ he
    · rw [getElem?_insertMany_of_forall_ne fun e he hkey ↦ hk ⟨e, he, hkey⟩] at hget
      simp at hget
  · intro hmem
    exact getElem?_insertMany_of_mem hmem fun e he hkey ↦ h e he _ hmem hkey

end InsertMany

/-! ## Accepted paths -/

namespace Trie

variable {t : Trie} {n : Nat}

/-- Whether paths of a length are accepted: those in the trie, if there are any, are as long as the
first of them. -/
def Accepts (t : Trie) (n : Nat) : Prop := ∀ m, t.pathLength? = some m → n = m

theorem accepts_clear (t : Trie) (n : Nat) : t.clear.Accepts n := by
  intro m hm
  simp [pathLength?, clear] at hm

theorem length_path_of_secure (h : t.secure = true) (key : Bytes) : (t.path key).length = 32 := by
  rw [path, if_pos h]
  exact FixedBytes.length_eq _

theorem path_of_plain (h : t.secure = false) (key : Bytes) : t.path key = key := by
  rw [path, h]
  simp

theorem path_congr {u : Trie} (h : t.secure = u.secure) (key : Bytes) :
    t.path key = u.path key := by
  rw [path, path, h]

theorem eq_of_path_eq {k l : Bytes}
    (h : t.secure = true → Keccak.hash k = Keccak.hash l → k = l) (hpath : t.path k = t.path l) :
    k = l := by
  cases hs : t.secure with
  | true =>
    rw [path, path, if_pos hs, if_pos hs] at hpath
    exact h hs (FixedBytes.bytes_injective hpath)
  | false => rwa [path_of_plain hs, path_of_plain hs] at hpath

theorem digest_congr {u : Trie} (h : t.leaves = u.leaves) : t.digest = u.digest := by
  rw [digest, digest, tree?, tree?, h]

theorem root?_congr {u : Trie} (h : t.leaves = u.leaves) : t.root? = u.root? := by
  rw [root?, root?, digest_congr h, pathLength?, pathLength?, h]

theorem length_path_word (t : Trie) (key : Word) : (t.path key.bytes).length = 32 := by
  cases h : t.secure with
  | true => exact length_path_of_secure h _
  | false => rw [path_of_plain h]; exact key.length_eq

theorem put_of_accepts {key : Bytes} (h : t.Accepts (t.path key).length) (value : Bytes) :
    t.put key value = .done () (t.setLeaf (t.path key) value) := by
  rw [put]
  cases hm : t.pathLength? with
  | none => rfl
  | some m => simp [h m hm]

theorem put_of_pathLength_ne {m : Nat} {key : Bytes} (hm : t.pathLength? = some m)
    (h : (t.path key).length ≠ m) (value : Bytes) :
    t.put key value = .failed (.keyLength (t.path key).length m) t := by
  simp [put, hm, h]

theorem put_of_not_accepts {key : Bytes} (h : ¬ t.Accepts (t.path key).length) (value : Bytes) :
    ∃ e, t.put key value = .failed e t := by
  simp only [Accepts, not_forall] at h
  obtain ⟨m, hm, hne⟩ := h
  exact ⟨_, put_of_pathLength_ne hm hne value⟩

theorem accepts_setLeaf {path value : Bytes} (h : t.Accepts n) (hpath : path.length = n)
    (hvalue : value ≠ []) : (t.setLeaf path value).Accepts n := by
  intro m hm
  have hempty : value.isEmpty = false := by simpa using hvalue
  simp only [pathLength?, setLeaf, hempty, Bool.false_eq_true, if_false,
    Std.ExtTreeMap.minKey?_insert, Option.map_some, Option.some_inj] at hm
  rw [← hm]
  -- the first path afterwards is the new one or the one that was first before
  cases hk : t.leaves.minKey? with
  | none => exact hpath.symm
  | some k =>
    have hlen : n = k.length := h k.length (by rw [pathLength?, hk]; rfl)
    simp only [Option.elim_some]
    split
    · exact hpath.symm
    · exact hlen

/-- The trie with entries inserted among its leaves. -/
def fill (t : Trie) (entries : List (Bytes × Bytes)) : Trie :=
  { t with leaves := t.leaves.insertMany (entries.map fun e ↦ (t.path e.1, e.2)) }

theorem setLeaf_eq_fill {key value : Bytes} (h : value ≠ []) :
    t.setLeaf (t.path key) value = t.fill [(key, value)] := by
  have hempty : value.isEmpty = false := by simpa using h
  simp [setLeaf, fill, hempty]

theorem fill_cons (t : Trie) (e : Bytes × Bytes) (entries : List (Bytes × Bytes)) :
    (t.fill [e]).fill entries = t.fill (e :: entries) := by
  simp [fill, path, Std.ExtTreeMap.insertMany_cons]

theorem putAll_eq_fill {entries : List (Bytes × Bytes)} (hacc : t.Accepts n)
    (h : ∀ e ∈ entries, (t.path e.1).length = n ∧ e.2 ≠ []) :
    t.putAll entries = .done () (t.fill entries) := by
  induction entries generalizing t with
  | nil => simp [putAll, fill]
  | cons e entries ih =>
    obtain ⟨hlen, hvalue⟩ := h e List.mem_cons_self
    have hput : t.put e.1 e.2 = .done () (t.fill [e]) := by
      rw [put_of_accepts (hlen ▸ hacc), setLeaf_eq_fill hvalue]
    have hacc' : (t.fill [e]).Accepts n := by
      rw [← setLeaf_eq_fill hvalue]
      exact accepts_setLeaf hacc hlen hvalue
    rw [show e :: entries = (e.1, e.2) :: entries from rfl, putAll, hput]
    show (t.fill [e]).putAll entries = _
    rw [ih hacc' fun e' he' ↦ h e' (List.mem_cons_of_mem e he'), fill_cons]

/-! ## Tries that can arise -/

/-- A trie that the operations produce from one without leaves. A copy of a trie is the trie. -/
inductive Reachable : Trie → Prop
  | empty (secure : Bool) : Reachable (empty secure)
  | put {t : Trie} (h : Reachable t) (key value : Bytes) : Reachable (t.put key value).2
  | putRaw {t : Trie} (h : Reachable t) (key : Word) (value : Bytes) :
      Reachable (t.putRaw key value)
  | clear {t : Trie} (h : Reachable t) : Reachable t.clear

/-- What all operations keep. -/
structure WellFormed (t : Trie) : Prop where
  /-- All paths have one length. -/
  length_eq : ∀ {p q : Bytes}, p ∈ t.leaves → q ∈ t.leaves → p.length = q.length
  /-- Where keys are hashed, paths are digests. -/
  length_of_secure : t.secure = true → ∀ {p : Bytes}, p ∈ t.leaves → p.length = 32
  /-- No leaf holds the empty value. -/
  value_ne_nil : ∀ {p v : Bytes}, t.leaves[p]? = some v → v ≠ []

/-- In a well-formed trie the first path speaks for all. -/
theorem WellFormed.pathLength?_eq (h : t.WellFormed) {p : Bytes} (hp : p ∈ t.leaves) :
    t.pathLength? = some p.length := by
  obtain ⟨k, hk⟩ := Option.isSome_iff_exists.mp (Std.ExtTreeMap.isSome_minKey?_of_mem hp)
  rw [pathLength?, hk, Option.map_some, h.length_eq (Std.ExtTreeMap.minKey?_mem hk) hp]

theorem WellFormed.accepts_iff (h : t.WellFormed) :
    t.Accepts n ↔ ∀ p ∈ t.leaves, p.length = n := by
  constructor
  · intro hacc p hp
    exact (hacc p.length (h.pathLength?_eq hp)).symm
  · intro hall m hm
    obtain ⟨k, hk, rfl⟩ := Option.map_eq_some_iff.mp hm
    exact (hall k (Std.ExtTreeMap.minKey?_mem hk)).symm

theorem WellFormed.size_eq_one (h : t.WellFormed) (hnil : [] ∈ t.leaves) : t.size = 1 := by
  obtain ⟨v, hv⟩ := Option.isSome_iff_exists.mp (Std.ExtTreeMap.mem_iff_isSome_getElem?.mp hnil)
  have hleaves : t.leaves = (∅ : Std.ExtTreeMap Bytes Bytes).insert [] v := by
    refine Std.ExtTreeMap.ext_getElem? fun p ↦ ?_
    rw [Std.ExtTreeMap.getElem?_insert]
    split
    · rename_i hp
      rw [← Std.LawfulEqCmp.eq_of_compare hp, hv]
    · rename_i hp
      rw [Std.ExtTreeMap.getElem?_empty, Std.ExtTreeMap.getElem?_eq_none]
      intro hmem
      rw [List.eq_nil_of_length_eq_zero (h.length_eq hmem hnil)] at hp
      exact hp Std.ReflCmp.compare_self
  rw [size, hleaves, Std.ExtTreeMap.size_insert]
  simp

theorem WellFormed.setLeaf {path value : Bytes} (h : t.WellFormed) (hacc : t.Accepts path.length)
    (hsec : t.secure = true → path.length = 32) : (t.setLeaf path value).WellFormed := by
  -- every path afterwards is the new one or an old one, and the old ones are as long as it is
  have hmem : ∀ {p v}, (t.setLeaf path value).leaves[p]? = some v →
      (p = path ∧ v = value ∧ v ≠ []) ∨ t.leaves[p]? = some v := by
    intro p v hp
    rw [get?_setLeaf] at hp
    split at hp
    · rename_i heq
      split at hp
      · simp at hp
      · rename_i hne
        rw [Option.some_inj] at hp
        exact Or.inl ⟨heq.symm, hp.symm, hp ▸ by simpa using hne⟩
    · exact Or.inr hp
  have hlen : ∀ {p}, p ∈ (t.setLeaf path value).leaves → p.length = path.length := by
    intro p hp
    rcases hmem (Std.ExtTreeMap.getElem?_eq_some_getElem hp) with ⟨rfl, -⟩ | hold
    · rfl
    · exact h.accepts_iff.mp hacc p (Std.ExtTreeMap.getElem?_eq_some_iff.mp hold).fst
  exact
    { length_eq := fun hp hq ↦ (hlen hp).trans (hlen hq).symm
      length_of_secure := fun hs p hp ↦ (hlen hp).trans (hsec hs)
      value_ne_nil := fun hp ↦ (hmem hp).elim (fun hv ↦ hv.2.2) h.value_ne_nil }

theorem wellFormed_of_leaves_eq_empty (h : t.leaves = ∅) : t.WellFormed where
  length_eq hp := by rw [h] at hp; simp at hp
  length_of_secure _ _ hp := by rw [h] at hp; simp at hp
  value_ne_nil hp := by rw [h] at hp; simp at hp

theorem Reachable.wellFormed (h : t.Reachable) : t.WellFormed := by
  induction h with
  | empty secure => exact wellFormed_of_leaves_eq_empty rfl
  | putRaw _ key value ih => exact ⟨ih.length_eq, ih.length_of_secure, ih.value_ne_nil⟩
  | clear _ _ => exact wellFormed_of_leaves_eq_empty rfl
  | put _ key value ih =>
    rename_i t _
    by_cases hacc : t.Accepts (t.path key).length
    · rw [put_of_accepts hacc]
      exact ih.setLeaf hacc fun hs ↦ length_path_of_secure hs key
    · obtain ⟨e, hput⟩ := put_of_not_accepts hacc value
      rw [hput]
      exact ih

end Trie

end ExecState
