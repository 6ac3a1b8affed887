import ExecState.Trie.Basic
import Mathlib.Data.List.Induction
import Mathlib.Data.List.Nodup

/-!
# Paths and trees read again

A path is written down in the nodes of a tree and walked to find a value. Both can be undone.
-/

namespace ExecState.Nibble

/-!
## Paths written down

A path is written down with a header whose first nibble tells whether the path ends in a leaf and
whether it is odd. The header completes the path to whole bytes, so nothing is dropped when the
nibbles are packed, and a written path can be read again: `hexPrefix_inj`.
-/

theorem unpack_injective {a b : Bytes} (h : unpack a = unpack b) : a = b := by
  rw [← pack_unpack a, h, pack_unpack]

theorem high_join (h l : Nibble) : high (join h l) = h := by
  have hh := h.isLt
  have hl := l.isLt
  apply Fin.ext
  simp only [high, join, UInt8.toNat_ofNat']
  omega

theorem low_join (h l : Nibble) : low (join h l) = l := by
  have hh := h.isLt
  have hl := l.isLt
  apply Fin.ext
  simp only [low, join, UInt8.toNat_ofNat']
  omega

/-- Packing an even number of nibbles loses none of them. -/
theorem unpack_pack : ∀ {p : List Nibble}, p.length % 2 = 0 → unpack (pack p) = p
  | [], _ => rfl
  | [n], h => by simp at h
  | h :: l :: rest, heven => by
    have hrest : rest.length % 2 = 0 := by
      rw [List.length_cons, List.length_cons] at heven
      omega
    rw [pack, unpack, List.flatMap_cons, ← unpack, unpack_pack hrest, high_join, low_join]
    rfl

theorem two_mul_length_pack_le : ∀ p : List Nibble, 2 * (pack p).length ≤ p.length
  | [] => Nat.le_refl _
  | [_] => Nat.zero_le _
  | _ :: _ :: rest => by
    have := two_mul_length_pack_le rest
    simp only [pack, List.length_cons]
    omega

theorem two_mul_length_hexPrefix_le (isLeaf : Bool) (path : List Nibble) :
    2 * (hexPrefix isLeaf path).length ≤ path.length + 2 := by
  have hpack := two_mul_length_pack_le (pathHeader isLeaf path ++ path)
  rw [List.length_append] at hpack
  have hheader : (pathHeader isLeaf path).length ≤ 2 := by
    simp only [pathHeader]
    split <;> simp
  rw [hexPrefix]
  omega

theorem length_pathHeader_append (isLeaf : Bool) (path : List Nibble) :
    (pathHeader isLeaf path ++ path).length % 2 = 0 := by
  rw [List.length_append]
  simp only [pathHeader]
  split <;> simp only [List.length_cons, List.length_nil] <;> omega

theorem flag_inj {l l' : Bool} {m n : Nat}
    (h : Fin.ofNat 16 (2 * l.toNat + m % 2) = Fin.ofNat 16 (2 * l'.toNat + n % 2)) :
    l = l' ∧ m % 2 = n % 2 := by
  have hval : (2 * l.toNat + m % 2) % 16 = (2 * l'.toNat + n % 2) % 16 := congrArg Fin.val h
  have hl := l.toNat_le
  have hl' := l'.toNat_le
  refine ⟨Bool.eq_iff_iff.mpr ?_, by omega⟩
  rw [← Bool.toNat_eq_one, ← Bool.toNat_eq_one]
  omega

theorem pathHeader_eq (isLeaf : Bool) (path : List Nibble) :
    pathHeader isLeaf path = Fin.ofNat 16 (2 * isLeaf.toNat + path.length % 2)
      :: if path.length % 2 = 1 then [] else [0] := by
  obtain heven | hodd := Nat.mod_two_eq_zero_or_one path.length
  · rw [pathHeader, heven]
    cases isLeaf <;> rfl
  · rw [pathHeader, hodd]
    cases isLeaf <;> rfl

/-- **A written path can be read again**, with whether it ends in a leaf. -/
theorem hexPrefix_inj {l l' : Bool} {p q : List Nibble} (h : hexPrefix l p = hexPrefix l' q) :
    l = l' ∧ p = q := by
  have hcat : pathHeader l p ++ p = pathHeader l' q ++ q := by
    rw [← unpack_pack (length_pathHeader_append l p), ← unpack_pack (length_pathHeader_append l' q)]
    exact congrArg unpack h
  rw [pathHeader_eq, pathHeader_eq, List.cons_append, List.cons_append] at hcat
  obtain ⟨hflag, hrest⟩ := List.cons.inj hcat
  obtain ⟨hleaf, hparity⟩ := flag_inj hflag
  -- paths of one parity are filled up alike
  rw [hparity] at hrest
  exact ⟨hleaf, List.append_cancel_left hrest⟩

end ExecState.Nibble

namespace ExecState

/-!
## Looking up a path in a Patricia tree

A tree is grown leaf by leaf; `get?` walks it again. In a tree all of whose paths have one length,
its depth, no path is the beginning of another, and putting a value under a path of that length
changes what is found under that path and nothing else (`insert_spec`). A tree that is grown from
leaves with different paths therefore holds these leaves (`ofLeaves?_spec`), and the tree of a trie
holds what the trie does (`tree?_spec`).
-/

namespace Patricia

/-! ### Lookup and depth -/

mutual
def Tree.get? (t : Tree) (q : List Nibble) : Option Bytes :=
  match t with
  | .leaf p v => if q = p then some v else none
  | .extension p t => if p <+: q then t.get? (q.drop p.length) else none
  | .branch children =>
    match q with
    | [] => none
    | n :: q => find? (children n) q
termination_by structural t

/-- The value under a path in a tree that may not be there. -/
def find? (t : Option Tree) (q : List Nibble) : Option Bytes :=
  match t with
  | none => none
  | some t => t.get? q
termination_by structural t
end

@[simp] theorem find?_none (q : List Nibble) : find? none q = none := rfl

@[simp] theorem find?_some (t : Tree) (q : List Nibble) : find? (some t) q = t.get? q := rfl

theorem get?_leaf (p : List Nibble) (v : Bytes) (q : List Nibble) :
    (Tree.leaf p v).get? q = if q = p then some v else none := rfl

theorem get?_extension (p : List Nibble) (t : Tree) (q : List Nibble) :
    (Tree.extension p t).get? q = if p <+: q then t.get? (q.drop p.length) else none := rfl

theorem get?_branch_cons (children : Nibble → Option Tree) (n : Nibble) (q : List Nibble) :
    (Tree.branch children).get? (n :: q) = find? (children n) q := rfl

/-- All paths of a tree have one length. -/
inductive Tree.HasDepth : Nat → Tree → Prop
  | leaf (p : List Nibble) (v : Bytes) : HasDepth p.length (.leaf p v)
  | extension {n : Nat} {t : Tree} (p : List Nibble) (h : HasDepth n t) :
      HasDepth (p.length + n) (.extension p t)
  | branch {n : Nat} {children : Nibble → Option Tree}
      (h : ∀ i t, children i = some t → HasDepth n t) : HasDepth (n + 1) (.branch children)

/-! ### The parts of growing -/

theorem get?_below (p : List Nibble) (t : Tree) (q : List Nibble) :
    (below p t).get? q = if p <+: q then t.get? (q.drop p.length) else none := by
  cases p with
  | nil => simp [below]
  | cons n p => rfl

theorem hasDepth_below {n : Nat} {t : Tree} (p : List Nibble) (h : t.HasDepth n) :
    (below p t).HasDepth (p.length + n) := by
  cases p with
  | nil => simpa [below] using h
  | cons m p => exact .extension (m :: p) h

theorem get?_fork {m n : Nibble} (s t : Tree) (i : Nibble) (q : List Nibble) :
    (fork m s n t).get? (i :: q)
      = if i = n then t.get? q else if i = m then s.get? q else none := by
  rw [fork, branchOf_eq, get?_branch_cons, withChild, withChild]
  split
  · rfl
  · split <;> rfl

theorem hasDepth_fork {k : Nat} {m n : Nibble} {s t : Tree} (hs : s.HasDepth k)
    (ht : t.HasDepth k) : (fork m s n t).HasDepth (k + 1) := by
  rw [fork, branchOf_eq]
  refine .branch fun i u hu ↦ ?_
  rw [withChild, withChild] at hu
  split at hu
  · exact Option.some_inj.mp hu ▸ ht
  · split at hu
    · exact Option.some_inj.mp hu ▸ hs
    · simp at hu

/-- What `split` does: it takes off the longest common beginning. -/
theorem split_spec (p q : List Nibble) :
    p = (split p q).1 ++ (split p q).2.1 ∧ q = (split p q).1 ++ (split p q).2.2 ∧
      ∀ m p' n q', (split p q).2 = (m :: p', n :: q') → m ≠ n := by
  fun_induction split p q with
  | case1 p n q common p' q' heq ih =>
    rw [heq] at ih
    obtain ⟨hp, hq, hne⟩ := ih
    exact ⟨congrArg (n :: ·) hp, congrArg (n :: ·) hq, hne⟩
  | case2 m p n q hmn =>
    refine ⟨rfl, rfl, fun m' p' n' q' heq ↦ ?_⟩
    simp only [Prod.mk.injEq, List.cons.injEq] at heq
    rw [← heq.1.1, ← heq.2.1]
    exact hmn
  | case3 p q hnot =>
    refine ⟨rfl, rfl, fun m p' n q' heq ↦ ?_⟩
    obtain ⟨rfl, rfl⟩ := Prod.mk.inj heq
    exact absurd rfl (hnot m p' n q' rfl)

/-! ### Growing -/

theorem get?_leaf_append (c p : List Nibble) (v : Bytes) (q : List Nibble) :
    (Tree.leaf (c ++ p) v).get? q
      = if c <+: q then (Tree.leaf p v).get? (q.drop c.length) else none := by
  rw [get?_leaf]
  split
  · rename_i hq
    rw [hq, if_pos (List.prefix_append c p), List.drop_left, get?_leaf, if_pos rfl]
  · rename_i hq
    split
    · rename_i hc
      obtain ⟨r, rfl⟩ := hc
      rw [List.drop_left, get?_leaf, if_neg fun hr ↦ hq (congrArg (c ++ ·) hr)]
    · rfl

theorem get?_extension_append (c p : List Nibble) (t : Tree) (q : List Nibble) :
    (Tree.extension (c ++ p) t).get? q
      = if c <+: q then (below p t).get? (q.drop c.length) else none := by
  rw [get?_extension]
  by_cases hc : c <+: q
  · obtain ⟨r, rfl⟩ := hc
    rw [if_pos (List.prefix_append c r), List.drop_left, get?_below, List.length_append]
    simp only [List.prefix_append_right_inj, List.drop_append, List.drop_eq_nil_of_le,
      Nat.le_add_right, Nat.add_sub_cancel_left, List.nil_append]
  · rw [if_neg hc, if_neg fun h ↦ hc ((List.prefix_append c p).trans h)]

theorem get?_below_fork (c : List Nibble) {m n : Nibble} (hmn : m ≠ n) (s : Tree)
    (q : List Nibble) (w : Bytes) (p : List Nibble) :
    (below c (fork m s n (.leaf q w))).get? p
      = if p = c ++ n :: q then some w
        else if c ++ [m] <+: p then s.get? (p.drop (c ++ [m]).length) else none := by
  rw [get?_below]
  by_cases hc : c <+: p
  · obtain ⟨r, rfl⟩ := hc
    rw [if_pos (List.prefix_append c r), List.drop_left]
    cases r with
    | nil =>
      have hnot : ¬ c ++ [m] <+: c ++ [] := by
        intro h
        have hle := h.length_le
        rw [List.length_append, List.length_append, List.length_singleton, List.length_nil] at hle
        omega
      rw [fork, branchOf_eq, if_neg (by simp), if_neg hnot]
      rfl
    | cons i r =>
      rw [get?_fork, get?_leaf]
      by_cases hi : i = n
      · subst hi
        have hnot : ¬ c ++ [m] <+: c ++ i :: r := by
          simpa [List.prefix_append_right_inj] using hmn
        rw [if_pos rfl, if_neg hnot]
        simp
      · have hne : ¬ c ++ i :: r = c ++ n :: q := by simp [hi]
        rw [if_neg hi, if_neg hne]
        by_cases him : i = m
        · subst him
          have hpre : c ++ [i] <+: c ++ i :: r := by simp [List.prefix_append_right_inj]
          rw [if_pos rfl, if_pos hpre, show c ++ i :: r = c ++ [i] ++ r by simp, List.drop_left]
        · have hnot : ¬ c ++ [m] <+: c ++ i :: r := by
            simpa [List.prefix_append_right_inj] using Ne.symm him
          rw [if_neg him, if_neg hnot]
  · have hne : p ≠ c ++ n :: q := fun h ↦ hc (h ▸ List.prefix_append c _)
    rw [if_neg hc, if_neg hne, if_neg fun h ↦ hc ((List.prefix_append c [m]).trans h)]

theorem hasDepth_below_fork {k : Nat} (c : List Nibble) {m n : Nibble} {s : Tree}
    (hs : s.HasDepth k) {q : List Nibble} (hq : q.length = k) (w : Bytes) :
    (below c (fork m s n (.leaf q w))).HasDepth (c.length + (k + 1)) :=
  hasDepth_below c (hasDepth_fork hs (hq ▸ .leaf q w))

theorem ofTwo_spec {p q : List Nibble} (hlen : q.length = p.length) (v w : Bytes) :
    (ofTwo p v q w).HasDepth p.length ∧
      ∀ r, (ofTwo p v q w).get? r = if r = q then some w else (Tree.leaf p v).get? r := by
  obtain ⟨hp, hq, hne⟩ := split_spec p q
  rw [ofTwo]
  generalize split p q = parts at hp hq hne
  obtain ⟨c, p', q'⟩ := parts
  simp only at hp hq hne
  -- what is left of the two paths is equally long, so both end or both go on
  have hrest : p'.length = q'.length := by
    rw [hp, hq, List.length_append, List.length_append] at hlen
    omega
  match p', q' with
  | [], [] =>
    have hpq : p = q := by rw [hp, hq]
    subst hpq
    refine ⟨.leaf p w, fun r ↦ ?_⟩
    rw [get?_leaf, get?_leaf]
    split <;> rfl
  | m :: p', n :: q' =>
    have hmn : m ≠ n := hne m p' n q' rfl
    refine ⟨?_, fun r ↦ ?_⟩
    · rw [hp, List.length_append, List.length_cons]
      exact hasDepth_below_fork c (.leaf p' v) (Nat.succ.inj hrest).symm w
    · rw [get?_below_fork c hmn, hq, hp, List.append_cons c m p', get?_leaf_append]
  | [], n :: q' => simp at hrest
  | m :: p', [] => simp at hrest

theorem branch_withChild_spec {n : Nat} {children : Nibble → Option Tree}
    (h : ∀ i t, children i = some t → t.HasDepth n) {i : Nibble} {t : Tree} (ht : t.HasDepth n)
    {q : List Nibble} {w : Bytes}
    (hget : ∀ p, t.get? p = if p = q then some w else find? (children i) p) :
    (branchOf (withChild children i t)).HasDepth (n + 1) ∧
      ∀ p, (branchOf (withChild children i t)).get? p
        = if p = i :: q then some w else (Tree.branch children).get? p := by
  rw [branchOf_eq]
  refine ⟨.branch fun j u hu ↦ ?_, fun p ↦ ?_⟩
  · rw [withChild] at hu
    split at hu
    · exact Option.some_inj.mp hu ▸ ht
    · exact h j u hu
  · cases p with
    | nil => rfl
    | cons j p =>
      rw [get?_branch_cons, get?_branch_cons, withChild]
      by_cases hj : j = i
      · subst hj
        rw [if_pos rfl, find?_some, hget]
        simp
      · rw [if_neg hj, if_neg (by simp [hj])]

/-- A path that leaves an extension before its end cuts it in two around a new branch. -/
theorem below_fork_spec {n : Nat} {t : Tree} (ht : t.HasDepth n) (c : List Nibble) {m k : Nibble}
    (hmk : m ≠ k) (p : List Nibble) {q : List Nibble} (hq : q.length = p.length + n) (w : Bytes) :
    (below c (fork m (below p t) k (.leaf q w))).HasDepth ((c ++ m :: p).length + n) ∧
      ∀ r, (below c (fork m (below p t) k (.leaf q w))).get? r
        = if r = c ++ k :: q then some w else (Tree.extension (c ++ m :: p) t).get? r := by
  refine ⟨?_, fun r ↦ ?_⟩
  · have hdepth := hasDepth_below_fork (m := m) (n := k) c (hasDepth_below p ht) hq w
    have hsum : (c ++ m :: p).length + n = c.length + (p.length + n + 1) := by
      rw [List.length_append, List.length_cons]
      omega
    rw [hsum]
    exact hdepth
  · rw [get?_below_fork c hmk, List.append_cons c m p, get?_extension_append]

/-- A path that follows an extension to its end goes on below it. -/
theorem extension_spec {n : Nat} {t t' : Tree} {q : List Nibble} {w : Bytes}
    (h : t'.HasDepth n ∧ ∀ r, t'.get? r = if r = q then some w else t.get? r) (p : List Nibble) :
    (Tree.extension p t').HasDepth (p.length + n) ∧
      ∀ r, (Tree.extension p t').get? r
        = if r = p ++ q then some w else (Tree.extension p t).get? r := by
  refine ⟨.extension p h.1, fun r ↦ ?_⟩
  rw [get?_extension, get?_extension]
  split
  · rename_i hr
    obtain ⟨r, rfl⟩ := hr
    rw [List.drop_left, h.2]
    simp
  · rename_i hr
    have hrq : r ≠ p ++ q := fun heq ↦ hr (heq ▸ List.prefix_append p q)
    rw [if_neg hrq]

/-- **Putting a value under a path** of a tree's depth keeps the depth and changes what is found
under that path only. -/
theorem insert_spec {d : Nat} {t : Tree} (h : t.HasDepth d) {q : List Nibble} (hq : q.length = d)
    (w : Bytes) :
    (t.insert q w).HasDepth d ∧
      ∀ p, (t.insert q w).get? p = if p = q then some w else t.get? p := by
  -- one case for each kind of node; the extension and the branch hand the rest of the path down
  induction h generalizing q with
  | leaf p v =>
    rw [Tree.insert]
    exact ofTwo_spec hq v w
  | @extension n t p ht ih =>
    obtain ⟨hp, hq', hne⟩ := split_spec p q
    rw [Tree.insert]
    generalize split p q = parts at hp hq' hne
    obtain ⟨c, p', q'⟩ := parts
    simp only at hp hq' hne
    subst hp hq'
    rw [List.length_append, List.length_append] at hq
    match p', q' with
    | m :: p', k :: q' =>
      rw [List.length_cons, List.length_cons] at hq
      exact below_fork_spec ht c (hne m p' k q' rfl) p' (by omega) w
    | [], q' =>
      rw [List.length_nil] at hq
      rw [List.append_nil]
      exact extension_spec (ih (by omega)) c
    | m :: p', [] =>
      -- no path of the right length ends within the extension
      rw [List.length_cons, List.length_nil] at hq
      omega
  | @branch n children hchildren ih =>
    match q with
    | [] => simp at hq
    | i :: q =>
      have hlen : q.length = n := Nat.succ.inj hq
      have hgrow : (grow q w (children i)).HasDepth n ∧
          ∀ p, (grow q w (children i)).get? p = if p = q then some w else find? (children i) p := by
        cases hi : children i with
        | none => exact ⟨hlen ▸ .leaf q w, fun p ↦ rfl⟩
        | some t => exact ih i t hi hlen
      rw [Tree.insert]
      exact branch_withChild_spec hchildren hgrow.1 hgrow.2

theorem grow_spec {d : Nat} {t : Option Tree} (h : ∀ u, t = some u → u.HasDepth d)
    {q : List Nibble} (hq : q.length = d) (w : Bytes) :
    (grow q w t).HasDepth d ∧
      ∀ p, (grow q w t).get? p = if p = q then some w else find? t p := by
  cases t with
  | none => exact ⟨hq ▸ .leaf q w, fun p ↦ rfl⟩
  | some t => exact insert_spec (h t rfl) hq w

/-! ### Trees of leaves -/

/-- **A tree holds the leaves it was grown from**, if their paths have one length and differ. -/
theorem ofLeaves?_spec {d : Nat} {leaves : List (List Nibble × Bytes)}
    (hlen : ∀ leaf ∈ leaves, leaf.1.length = d) (hnodup : (leaves.map Prod.fst).Nodup) :
    (∀ t, ofLeaves? leaves = some t → t.HasDepth d) ∧
      ∀ p v, find? (ofLeaves? leaves) p = some v ↔ (p, v) ∈ leaves := by
  induction leaves using List.reverseRecOn with
  | nil => simp [ofLeaves?]
  | append_singleton leaves leaf ih =>
    rw [List.map_append, List.map_singleton, List.nodup_append] at hnodup
    obtain ⟨hdepth, hfind⟩ := ih (fun l hl ↦ hlen l (List.mem_append_left _ hl)) hnodup.1
    have hlast : leaf.1.length = d := hlen leaf (List.mem_append_right _ List.mem_cons_self)
    obtain ⟨hgrow, hget⟩ := grow_spec hdepth hlast leaf.2
    have hstep : ofLeaves? (leaves ++ [leaf])
        = some (grow leaf.1 leaf.2 (ofLeaves? leaves)) := by
      rw [ofLeaves?, List.foldl_append]
      rfl
    rw [hstep]
    refine ⟨fun t ht ↦ Option.some_inj.mp ht ▸ hgrow, fun p v ↦ ?_⟩
    rw [find?_some, hget, List.mem_append, List.mem_singleton]
    split
    · rename_i hp
      subst hp
      -- the path of the last leaf is new, so an earlier leaf cannot hold the value
      have hnew : (leaf.1, v) ∉ leaves := fun hmem ↦
        hnodup.2.2 leaf.1 (List.mem_map.mpr ⟨_, hmem, rfl⟩) leaf.1 List.mem_cons_self rfl
      simp [hnew, Prod.ext_iff, eq_comm]
    · rename_i hp
      rw [hfind]
      simp [hp, Prod.ext_iff]

end Patricia

/-! ### The tree of a trie -/

namespace Trie

variable {t : Trie}

/-- **The tree of a trie** is as deep as its paths are long and holds its leaves. -/
theorem tree?_spec {d : Nat} (hlen : ∀ p ∈ t.leaves, p.length = d) :
    (∀ tree, t.tree? = some tree → tree.HasDepth (2 * d)) ∧
      ∀ p v, Patricia.find? t.tree? (Nibble.unpack p) = some v ↔ t.leaves[p]? = some v := by
  have hdepth : ∀ leaf ∈ t.leaves.toList.map fun leaf ↦ (Nibble.unpack leaf.1, leaf.2),
      leaf.1.length = 2 * d := by
    intro leaf hleaf
    obtain ⟨⟨p, v⟩, hp, rfl⟩ := List.mem_map.mp hleaf
    rw [Std.ExtTreeMap.mem_toList_iff_getElem?_eq_some] at hp
    have hmem : p ∈ t.leaves := (Std.ExtTreeMap.getElem?_eq_some_iff.mp hp).fst
    rw [Nibble.length_unpack, hlen p hmem]
  have hnodup : ((t.leaves.toList.map fun leaf ↦ (Nibble.unpack leaf.1, leaf.2)).map
      Prod.fst).Nodup := by
    have hkeys : (t.leaves.toList.map Prod.fst).Nodup := by
      rw [Std.ExtTreeMap.map_fst_toList_eq_keys]
      exact Std.ExtTreeMap.nodup_keys
    rw [List.map_map, show (Prod.fst ∘ fun leaf : Bytes × Bytes ↦ (Nibble.unpack leaf.1, leaf.2))
      = Nibble.unpack ∘ Prod.fst from rfl, ← List.map_map]
    exact hkeys.map fun _ _ ↦ Nibble.unpack_injective
  obtain ⟨htree, hfind⟩ := Patricia.ofLeaves?_spec hdepth hnodup
  refine ⟨htree, fun p v ↦ ?_⟩
  rw [tree?, hfind, List.mem_map, ← Std.ExtTreeMap.mem_toList_iff_getElem?_eq_some]
  constructor
  · rintro ⟨leaf, hleaf, heq⟩
    obtain ⟨hp, rfl⟩ := Prod.mk.inj heq
    rwa [← Nibble.unpack_injective hp]
  · exact fun hleaf ↦ ⟨_, hleaf, rfl⟩

end Trie

end ExecState
