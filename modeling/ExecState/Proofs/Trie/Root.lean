import ExecState.Proofs.Trie.Binding
import ExecState.Proofs.Trie.Leaves
import ExecState.Proofs.Trie.Node

/-!
# The root of a trie

The tree of a trie is grown from leaves by ascending path. That they ascend is a matter of bytes,
and the paths are walked by nibbles; the order is the same because the higher half of a byte comes
first (`Nibble.unpack_lt_unpack`). The root is the digest of the node of the leaves, in whatever
order they are listed, and the one trie without a root is the one whose only key is empty:
`root?_eq_merkle`.

Tries into which values were put have equal roots exactly if they hold the same leaves, as far as
the digests tell apart what is hashed on the way to the roots: `root?_eq_iff_leaves_eq`.
-/

namespace ExecState

/-! ## Paths in ascending order -/

namespace Nibble

theorem unpack_cons (x : UInt8) (rest : Bytes) :
    unpack (x :: rest) = high x :: low x :: unpack rest := rfl

/-- The order of bytes is that of their nibbles, the higher one first. -/
theorem high_low_lt {x y : UInt8} (h : x < y) :
    high x < high y ∨ high x = high y ∧ low x < low y := by
  rw [UInt8.lt_iff_toNat_lt] at h
  simp only [high, low, Fin.lt_def, Fin.ext_iff]
  omega

/-- **Unpacking keeps the order.** -/
theorem unpack_lt_unpack {a b : Bytes} (h : compare a b = .lt) : unpack a < unpack b := by
  induction a generalizing b with
  | nil =>
    cases b with
    | nil => cases h
    | cons y b => exact List.nil_lt_cons _ _
  | cons x a ih =>
    cases b with
    | nil => cases h
    | cons y b =>
      have hthen : (compare x y).then (compare a b) = .lt :=
        (@List.compareLex_cons_cons _ compare ..).symm.trans h
      rw [Ordering.then_eq_lt] at hthen
      rw [unpack_cons, unpack_cons, List.cons_lt_cons_iff, List.cons_lt_cons_iff]
      obtain hlt | ⟨heq, hlt⟩ := hthen
      · rcases high_low_lt (Std.compare_eq_lt.mp hlt) with hhigh | ⟨hhigh, hlow⟩
        · exact Or.inl hhigh
        · exact Or.inr ⟨hhigh, Or.inl hlow⟩
      · obtain rfl := Std.LawfulEqCmp.eq_of_compare heq
        exact Or.inr ⟨rfl, Or.inr ⟨rfl, ih hlt⟩⟩

end Nibble

namespace Trie

open Patricia

variable {t : Trie}

/-- The leaves with their paths in nibbles, in the order in which the tree is grown from them. -/
def unpacked (t : Trie) : List (List Nibble × Bytes) :=
  t.leaves.toList.map fun leaf ↦ (Nibble.unpack leaf.1, leaf.2)

theorem mem_unpacked_iff {q : List Nibble} {v : Bytes} :
    (q, v) ∈ t.unpacked ↔ ∃ p, t.leaves[p]? = some v ∧ Nibble.unpack p = q := by
  rw [unpacked, List.mem_map]
  constructor
  · rintro ⟨⟨p, w⟩, hmem, heq⟩
    obtain ⟨rfl, rfl⟩ := Prod.mk.inj heq
    exact ⟨p, Std.ExtTreeMap.mem_toList_iff_getElem?_eq_some.mp hmem, rfl⟩
  · rintro ⟨p, hp, rfl⟩
    exact ⟨(p, v), Std.ExtTreeMap.mem_toList_iff_getElem?_eq_some.mpr hp, rfl⟩

theorem pairwise_unpacked_lt (t : Trie) : t.unpacked.Pairwise fun a b ↦ a.1 < b.1 := by
  rw [unpacked, List.pairwise_map]
  exact Std.ExtTreeMap.ordered_keys_toList.imp fun h ↦ Nibble.unpack_lt_unpack h

/-- What a tree may be grown from: paths that ascend and have one length, so that none begins
another, and that are not empty, with values that are not empty. -/
structure Orderly (leaves : List (List Nibble × Bytes)) : Prop where
  ascending : leaves.Pairwise fun a b ↦ a.1 < b.1
  length_eq : ∀ a ∈ leaves, ∀ b ∈ leaves, a.1.length = b.1.length
  not_prefix : leaves.Pairwise fun a b ↦ ¬ a.1 <+: b.1 ∧ ¬ b.1 <+: a.1
  path_ne_nil : ∀ a ∈ leaves, a.1 ≠ []
  value_ne_nil : ∀ a ∈ leaves, a.2 ≠ []

theorem WellFormed.length_eq_of_mem_unpacked (h : t.WellFormed) :
    ∀ a ∈ t.unpacked, ∀ b ∈ t.unpacked, a.1.length = b.1.length := by
  rintro ⟨q, v⟩ ha ⟨r, w⟩ hb
  obtain ⟨p, hp, rfl⟩ := mem_unpacked_iff.mp ha
  obtain ⟨p', hp', rfl⟩ := mem_unpacked_iff.mp hb
  rw [Nibble.length_unpack, Nibble.length_unpack,
    h.length_eq (Std.ExtTreeMap.getElem?_eq_some_iff.mp hp).fst
      (Std.ExtTreeMap.getElem?_eq_some_iff.mp hp').fst]

theorem WellFormed.orderly (h : t.WellFormed) (hnil : [] ∉ t.leaves) : Orderly t.unpacked where
  ascending := t.pairwise_unpacked_lt
  length_eq := h.length_eq_of_mem_unpacked
  not_prefix := by
    refine t.pairwise_unpacked_lt.imp_of_mem fun {a b} ha hb hlt ↦ ?_
    have hlen := h.length_eq_of_mem_unpacked a ha b hb
    refine ⟨fun hpre ↦ ?_, fun hpre ↦ ?_⟩
    · exact List.lt_irrefl _ (hpre.eq_of_length hlen ▸ hlt)
    · exact List.lt_irrefl _ (hpre.eq_of_length hlen.symm ▸ hlt)
  path_ne_nil := by
    rintro ⟨q, v⟩ ha rfl
    obtain ⟨p, hp, hq⟩ := mem_unpacked_iff.mp ha
    cases p with
    | nil => exact hnil (Std.ExtTreeMap.getElem?_eq_some_iff.mp hp).fst
    | cons x p => cases hq
  value_ne_nil := by
    rintro ⟨q, v⟩ ha
    obtain ⟨p, hp, -⟩ := mem_unpacked_iff.mp ha
    exact h.value_ne_nil hp

theorem WellFormed.lists_tree? (h : t.WellFormed) {leaves : List (List Nibble × Bytes)}
    (hperm : leaves.Perm t.unpacked) : Lists t.tree? leaves := by
  have hne : t.unpacked.Pairwise fun a b ↦ a.1 ≠ b.1 := by
    refine t.pairwise_unpacked_lt.imp fun {a b} hlt heq ↦ ?_
    rw [heq] at hlt
    exact List.lt_irrefl _ hlt
  obtain ⟨d, hd⟩ : ∃ d, ∀ leaf ∈ t.unpacked, leaf.1.length = d := by
    cases hleaves : t.unpacked with
    | nil => exact ⟨0, by simp⟩
    | cons first rest =>
      refine ⟨first.1.length, fun leaf hleaf ↦ ?_⟩
      rw [← hleaves] at hleaf
      exact h.length_eq_of_mem_unpacked _ hleaf _ (hleaves ▸ List.mem_cons_self)
  obtain ⟨-, hfind⟩ := ofLeaves?_spec hd (List.pairwise_map.mpr hne)
  exact ⟨(hperm.pairwise_iff fun hab ↦ Ne.symm hab).mpr hne,
    fun p v ↦ (hperm.mem_iff).trans (hfind p v).symm⟩

theorem WellFormed.digest_eq (h : t.WellFormed) {leaves : List (List Nibble × Bytes)}
    (hperm : leaves.Perm t.unpacked) : t.digest = Keccak.hash (merkleNode leaves).encode := by
  have hlists := h.lists_tree? hperm
  rw [digest]
  cases htree : t.tree? with
  | none =>
    rw [htree] at hlists
    rw [hlists.eq_nil, merkleNode]
    rfl
  | some tree =>
    rw [htree] at hlists
    rw [← node_eq_merkleNode (isCanonical_of_ofLeaves? htree) hlists]
    rfl

theorem Reachable.putAll (h : t.Reachable) (entries : List (Bytes × Bytes)) :
    (t.putAll entries).2.Reachable := by
  induction entries generalizing t with
  | nil => exact h
  | cons e entries ih =>
    have hput := h.put e.1 e.2
    rw [Trie.putAll]
    split
    · rename_i t' heq
      rw [heq] at hput
      exact ih hput
    · rename_i heq
      rw [heq] at hput
      exact hput

theorem WellFormed.nil_mem_iff (h : t.WellFormed) :
    [] ∈ t.leaves ↔ t.secure = false ∧ ∃ v, t.leaves.toList = [([], v)] := by
  constructor
  · intro hnil
    refine ⟨?_, ?_⟩
    · -- a digest is not empty
      by_contra hsec
      have hlen := h.length_of_secure (by simpa using hsec) hnil
      cases hlen
    · obtain ⟨v, hv⟩ := Option.isSome_iff_exists.mp (Std.ExtTreeMap.mem_iff_isSome_getElem?.mp hnil)
      have hmem := Std.ExtTreeMap.mem_toList_iff_getElem?_eq_some.mpr hv
      have hsize : t.leaves.toList.length = 1 := by
        rw [Std.ExtTreeMap.length_toList]
        exact h.size_eq_one hnil
      obtain ⟨leaf, hleaf⟩ := List.length_eq_one_iff.mp hsize
      rw [hleaf, List.mem_singleton] at hmem
      exact ⟨v, hmem ▸ hleaf⟩
  · rintro ⟨-, v, hv⟩
    have hmem : ([], v) ∈ t.leaves.toList := hv ▸ List.mem_cons_self
    exact (Std.ExtTreeMap.getElem?_eq_some_iff.mp
      (Std.ExtTreeMap.mem_toList_iff_getElem?_eq_some.mp hmem)).fst

theorem WellFormed.pathLength?_eq_zero_iff (h : t.WellFormed) :
    t.pathLength? = some 0 ↔ [] ∈ t.leaves := by
  constructor
  · intro hzero
    obtain ⟨k, hk, hlen⟩ := Option.map_eq_some_iff.mp hzero
    rw [← List.eq_nil_of_length_eq_zero hlen]
    exact Std.ExtTreeMap.minKey?_mem hk
  · exact h.pathLength?_eq

theorem root?_eq_none_iff : t.root? = none ↔ t.pathLength? = some 0 := by
  rw [root?]
  split_ifs with h <;> simp [h]

/-- **The root of a trie.** There is none exactly if the keys are taken as they are and the only one
is empty. Otherwise the tree is grown from leaves in ascending order, and the root is the digest of
the node of the leaves, however these are listed; without leaves that is the digest of the empty
string's encoding. -/
theorem root?_eq_merkle (h : t.Reachable) :
    (t.root? = none ↔ t.secure = false ∧ ∃ v, t.leaves.toList = [([], v)]) ∧
    (t.size = 0 → t.root? = some (Keccak.hash [0x80])) ∧
    (t.root? ≠ none → t.tree? = ofLeaves? t.unpacked ∧ Orderly t.unpacked ∧
      ∀ leaves, leaves.Perm t.unpacked →
        t.root? = some (Keccak.hash (merkleNode leaves).encode)) := by
  have hwf := h.wellFormed
  have hnone : t.root? = none ↔ [] ∈ t.leaves :=
    root?_eq_none_iff.trans hwf.pathLength?_eq_zero_iff
  have hroot : t.root? ≠ none → t.root? = some t.digest := by
    intro hsome
    rw [ne_eq, root?_eq_none_iff] at hsome
    rw [root?, if_neg hsome]
  refine ⟨hnone.trans hwf.nil_mem_iff, fun hsize ↦ ?_, fun hsome ↦ ⟨rfl, ?_, fun leaves hperm ↦ ?_⟩⟩
  · have hempty : t.unpacked = [] := by
      rw [unpacked, List.map_eq_nil_iff, ← List.length_eq_zero_iff, Std.ExtTreeMap.length_toList]
      exact hsize
    have hnil : [] ∉ t.leaves := fun hnil ↦ by
      rw [hwf.size_eq_one hnil] at hsize
      cases hsize
    rw [hroot (mt hnone.mp hnil), hwf.digest_eq (List.perm_nil.mpr hempty).symm, merkleNode]
    rfl
  · exact hwf.orderly (mt hnone.mpr hsome)
  · rw [hroot hsome, hwf.digest_eq hperm]

/-- Three leaves under two stretches and two branches, one of them too long to stand in a branch. -/
def partedEntries : List (Bytes × Bytes) :=
  [([0x12, 0x35], List.replicate 40 1), ([0x1f, 0x00], [9]), ([0x12, 0x34], [7])]

def parted : Trie := ((Trie.empty false).putAll partedEntries).2

theorem putAll_partedEntries :
    (Trie.empty false).putAll partedEntries = .done () ((Trie.empty false).fill partedEntries) :=
  putAll_eq_fill (accepts_clear (Trie.empty false) 2) (by decide)

theorem unpacked_parted :
    parted.unpacked = [([1, 2, 3, 4], [7]), ([1, 2, 3, 5], List.replicate 40 1),
      ([1, 15, 0, 0], [9])] := by
  rw [parted, putAll_partedEntries]
  decide +kernel

theorem root?_eq_merkle_parted :
    parted.Reachable ∧ parted.root? ≠ none ∧ Orderly parted.unpacked ∧
      parted.root? = some (Keccak.hash (merkleNode [([1, 15, 0, 0], [9]),
        ([1, 2, 3, 5], List.replicate 40 1), ([1, 2, 3, 4], [7])]).encode) := by
  have hreach : parted.Reachable := (Reachable.empty false).putAll _
  obtain ⟨hnone, -, hroot⟩ := root?_eq_merkle hreach
  have hsome : parted.root? ≠ none := by
    intro h
    obtain ⟨-, v, hv⟩ := hnone.mp h
    have hunpacked := unpacked_parted
    rw [unpacked, hv] at hunpacked
    simp at hunpacked
  obtain ⟨-, horderly, hmerkle⟩ := hroot hsome
  refine ⟨hreach, hsome, horderly, hmerkle _ ?_⟩
  rw [unpacked_parted]
  decide

/-! ## Tries of values that were put -/

section Puts

variable {d : Nat} {entries : List (Bytes × Bytes)}

theorem accepts_of_length_eq (h : ∀ p ∈ t.leaves, p.length = d) : t.Accepts d := by
  intro m hm
  obtain ⟨k, hk, rfl⟩ := Option.map_eq_some_iff.mp hm
  exact (h k (Std.ExtTreeMap.minKey?_mem hk)).symm

theorem length_eq_of_mem_setLeaf {path value : Bytes} (h : ∀ p ∈ t.leaves, p.length = d)
    (hpath : path.length = d) : ∀ p ∈ (t.setLeaf path value).leaves, p.length = d := by
  intro p hp
  rw [Std.ExtTreeMap.mem_iff_isSome_getElem?, get?_setLeaf] at hp
  split_ifs at hp with heq
  · cases hp
  · exact heq ▸ hpath
  · exact h p (Std.ExtTreeMap.mem_iff_isSome_getElem?.mpr hp)

theorem exists_putAll_eq_done (h : ∀ p ∈ t.leaves, p.length = d)
    (hentries : ∀ e ∈ entries, (t.path e.1).length = d) :
    ∃ u, t.putAll entries = .done () u ∧ ∀ p ∈ u.leaves, p.length = d := by
  induction entries generalizing t with
  | nil => exact ⟨t, rfl, h⟩
  | cons e entries ih =>
    rw [List.forall_mem_cons] at hentries
    have hput := put_of_accepts (hentries.1 ▸ accepts_of_length_eq h) e.2
    obtain ⟨u, hu, hlen⟩ := ih (t := t.setLeaf (t.path e.1) e.2)
      (length_eq_of_mem_setLeaf h hentries.1) hentries.2
    refine ⟨u, ?_, hlen⟩
    rw [putAll, hput]
    exact hu

theorem root?_of_length_eq (h : ∀ p ∈ t.leaves, p.length = d) (hd : 0 < d) :
    t.root? = some t.digest := by
  rw [root?, if_neg]
  intro hzero
  exact hd.ne' (accepts_of_length_eq h 0 hzero)

end Puts

/-- **The root binds the leaves.** Values that are put under keys of one length, whichever a byte
string can have, in a trie for each length, are never refused, and both tries have a root. The roots
are equal exactly if the tries hold the same leaves, as far as the digests tell apart what is hashed
on the way to the two roots. -/
theorem root?_eq_iff_leaves_eq (secure : Bool) {m n : Nat} (hm : 0 < m) (hn : 0 < n)
    (hm' : m ≤ Bytes.greatestSize) (hn' : n ≤ Bytes.greatestSize)
    {first second : List (Bytes × Bytes)} (hfirst : ∀ e ∈ first, e.1.length = m)
    (hsecond : ∀ e ∈ second, e.1.length = n) :
    ∃ t u r₁ r₂, (Trie.empty secure).putAll first = .done () t ∧
      (Trie.empty secure).putAll second = .done () u ∧
      t.root? = some r₁ ∧ u.root? = some r₂ ∧
      (Set.InjOn Keccak.hash {b | b ∈ t.hashed ∨ b ∈ u.hashed} →
        (r₁ = r₂ ↔ t.leaves = u.leaves)) := by
  -- the length of the paths of keys of length `n`, with the bounds that the encoding needs
  have hpath : ∀ {n : Nat}, 0 < n → n ≤ Bytes.greatestSize → ∃ d, 0 < d ∧ d < 2 ^ 63 ∧
      ∀ key : Bytes, key.length = n → ((Trie.empty secure).path key).length = d := by
    intro n hpos hle
    cases secure with
    | true => exact ⟨32, by decide, by decide, fun key _ ↦ length_path_of_secure rfl key⟩
    | false =>
      refine ⟨n, hpos, ?_, fun key hkey ↦ by rw [path_of_plain rfl, hkey]⟩
      exact Nat.lt_of_le_of_lt hle (by decide)
  obtain ⟨d, hd, hd', hlen⟩ := hpath hm hm'
  obtain ⟨d', he, he', hlen'⟩ := hpath hn hn'
  have hnone : ∀ {d : Nat}, ∀ p ∈ (Trie.empty secure).leaves, p.length = d := by
    intro _ p hp
    simp [Trie.empty] at hp
  obtain ⟨t, ht, htlen⟩ := exists_putAll_eq_done hnone fun e he ↦ hlen _ (hfirst e he)
  obtain ⟨u, hu, hulen⟩ := exists_putAll_eq_done hnone fun e he ↦ hlen' _ (hsecond e he)
  refine ⟨t, u, t.digest, u.digest, ht, hu, root?_of_length_eq htlen hd,
    root?_of_length_eq hulen he, fun hinj ↦ ⟨fun h ↦ ?_, fun h ↦ ?_⟩⟩
  · exact leaves_eq_of_digest_eq hinj htlen hulen hd' he' (fun b hb ↦ Or.inl hb)
      (fun b hb ↦ Or.inr hb) h
  · rw [digest, digest, tree?, tree?, h]

/-- Two values, put under keys of one byte. -/
def pairEntries : List (Bytes × Bytes) := [([1], [5]), ([0x12], [6])]

/-- The same, in another order and after another value. -/
def overwrittenEntries : List (Bytes × Bytes) := [([0x12], [6]), ([1], [7]), ([1], [5])]

def pairTrie (entries : List (Bytes × Bytes)) : Trie := ((Trie.empty false).putAll entries).2

theorem putAll_pair {entries : List (Bytes × Bytes)}
    (h : ∀ e ∈ entries, e.1.length = 1 ∧ e.2 ≠ []) :
    (Trie.empty false).putAll entries = .done () ((Trie.empty false).fill entries) :=
  putAll_eq_fill (accepts_clear (Trie.empty false) 1) h

/-- One string is hashed for both tries, since both leaves stand in the branch above them. -/
theorem exists_hashed_pair :
    ∃ b, (pairTrie pairEntries).hashed = [b] ∧ (pairTrie overwrittenEntries).hashed = [b] := by
  rw [pairTrie, pairTrie, putAll_pair (by decide), putAll_pair (by decide)]
  exact ⟨_, rfl, rfl⟩

theorem root?_eq_iff_leaves_eq_overwritten :
    (∀ e ∈ pairEntries, e.1.length = 1) ∧ (∀ e ∈ overwrittenEntries, e.1.length = 1) ∧
    Set.InjOn Keccak.hash
      {b | b ∈ (pairTrie pairEntries).hashed ∨ b ∈ (pairTrie overwrittenEntries).hashed} ∧
    ∃ r₁ r₂, (pairTrie pairEntries).root? = some r₁ ∧
      (pairTrie overwrittenEntries).root? = some r₂ ∧
      (r₁ = r₂ ↔ (pairTrie pairEntries).leaves = (pairTrie overwrittenEntries).leaves) := by
  have hfirst : ∀ e ∈ pairEntries, e.1.length = 1 := by decide
  have hsecond : ∀ e ∈ overwrittenEntries, e.1.length = 1 := by decide
  have hinj : Set.InjOn Keccak.hash
      {b | b ∈ (pairTrie pairEntries).hashed ∨ b ∈ (pairTrie overwrittenEntries).hashed} := by
    obtain ⟨b, hb, hb'⟩ := exists_hashed_pair
    rw [hb, hb']
    rintro x (hx | hx) y (hy | hy) - <;>
      rw [List.mem_singleton.mp hx, List.mem_singleton.mp hy]
  obtain ⟨t, u, r₁, r₂, ht, hu, hr₁, hr₂, hiff⟩ := root?_eq_iff_leaves_eq false Nat.one_pos
    Nat.one_pos (by decide) (by decide) hfirst hsecond
  obtain rfl : pairTrie pairEntries = t := congrArg Prod.snd ht
  obtain rfl : pairTrie overwrittenEntries = u := congrArg Prod.snd hu
  exact ⟨hfirst, hsecond, hinj, r₁, r₂, hr₁, hr₂, hiff hinj⟩

end Trie

end ExecState
