import ExecState.Proofs.Allocation.Denotation
import ExecState.Proofs.Allocation.Replay

/-!
# The order in which accounts are created

The entries of an allocation are loaded in the order of the texts of their addresses, and an account
keeps the place in which its address came up first. So the accounts of a loaded state stand in the
order of their first names, which is not the order of their addresses: one address has many names,
with or without a mark, leading zeros and blanks, in letters of either case, and a text is compared
with another one letter by letter, so that `0x10` comes before `0x2`.

What the order of the accounts says of the names is made exact here (`Allocation.NamesAscend`,
`Allocation.toState_ascending_iff`). Where all names are written in full and in lower case, the
orders of texts and of addresses agree (`Hex.encodeMarked_lt`).
-/

namespace ExecState

/-! ## First occurrences -/

/-- The addresses of a row without those that occurred before. -/
def firsts (row : List Address) : List Address :=
  row.foldl (fun order a ↦ if a ∈ order then order else order ++ [a]) []

theorem firsts_concat (row : List Address) (a : Address) :
    firsts (row ++ [a]) = if a ∈ firsts row then firsts row else firsts row ++ [a] :=
  List.foldl_append

theorem mem_firsts {row : List Address} {a : Address} : a ∈ firsts row ↔ a ∈ row := by
  induction row using List.reverseRecOn with
  | nil => rfl
  | append_singleton row b ih =>
    rw [firsts_concat, List.mem_append, List.mem_singleton]
    split
    · next hb =>
      constructor
      · exact fun ha ↦ .inl (ih.mp ha)
      · rintro (ha | rfl)
        · exact ih.mpr ha
        · exact hb
    · rw [List.mem_append, List.mem_singleton, ih]

/-- Where names ascend, an address occurs first before those whose first name is greater. -/
theorem pairwise_firsts {names : List (String × Address)} (h : names.Pairwise (·.1 < ·.1)) :
    (firsts (names.map Prod.snd)).Pairwise fun a b ↦
      ∃ k, (k, a) ∈ names ∧ ∀ l, (l, b) ∈ names → k < l := by
  induction names using List.reverseRecOn with
  | nil => exact .nil
  | append_singleton names last ih =>
    obtain ⟨hnames, -, hlast⟩ := List.pairwise_append.mp h
    have hless : ∀ p ∈ names, p.1 < last.1 := fun p hp ↦ hlast p hp last List.mem_cons_self
    have hearlier : (firsts (names.map Prod.snd)).Pairwise fun a b ↦
        ∃ k, (k, a) ∈ names ++ [last] ∧ ∀ l, (l, b) ∈ names ++ [last] → k < l := by
      refine (ih hnames).imp ?_
      rintro a b ⟨k, hk, hbefore⟩
      refine ⟨k, List.mem_append_left _ hk, ?_⟩
      intro l hl
      rcases List.mem_append.mp hl with hl | hl
      · exact hbefore l hl
      · obtain rfl := List.mem_singleton.mp hl
        exact hless (k, a) hk
    rw [List.map_append, List.map_singleton, firsts_concat]
    split
    · exact hearlier
    · next hnew =>
      rw [mem_firsts] at hnew
      refine List.pairwise_append.mpr ⟨hearlier, List.pairwise_singleton _ _, ?_⟩
      intro a ha b hb
      obtain rfl := List.mem_singleton.mp hb
      obtain ⟨⟨k, a⟩, hk, rfl⟩ := List.mem_map.mp (mem_firsts.mp ha)
      refine ⟨k, List.mem_append_left _ hk, ?_⟩
      intro l hl
      rcases List.mem_append.mp hl with hl | hl
      · exact absurd (List.mem_map.mpr ⟨_, hl, rfl⟩) hnew
      · have hlast : l = last.1 := congrArg Prod.fst (List.mem_singleton.mp hl)
        exact hlast ▸ hless (k, a) hk

/-! ## Names of full length -/

namespace Hex

theorem digitChar_lt {m n : Nat} (hn : n < 16) (h : m < n) : digitChar m < digitChar n := by
  have key : ∀ i j : Fin 16, i.val < j.val → digitChar i.val < digitChar j.val := by decide
  exact key ⟨m, by omega⟩ ⟨n, hn⟩ h

theorem byteDigits_append_lt {x y : UInt8} (h : x.toNat < y.toNat) (cs ds : List Char) :
    byteDigits x ++ cs < byteDigits y ++ ds := by
  have hy := y.toNat_lt
  simp only [byteDigits, List.cons_append, List.cons_lt_cons_iff]
  rcases Nat.lt_or_eq_of_le (Nat.div_le_div_right (c := 16) (Nat.le_of_lt h)) with hhigh | hhigh
  · exact .inl (digitChar_lt (by omega) hhigh)
  · rw [hhigh]
    exact .inr ⟨rfl, .inl (digitChar_lt (by omega) (by omega))⟩

theorem digits_lt {a b : Bytes} (hlength : a.length = b.length)
    (h : Bytes.toNat a < Bytes.toNat b) : digits a < digits b := by
  induction a generalizing b with
  | nil =>
    obtain rfl := List.length_eq_zero_iff.mp hlength.symm
    exact absurd h (Nat.lt_irrefl _)
  | cons x a ih =>
    obtain ⟨y, b, rfl⟩ := List.exists_cons_of_length_eq_add_one hlength.symm
    have hlength' : a.length = b.length := by simpa using hlength
    rw [Bytes.toNat_cons, Bytes.toNat_cons, hlength'] at h
    rw [digits, digits, List.flatMap_cons, List.flatMap_cons, ← digits, ← digits]
    rcases Nat.lt_trichotomy x.toNat y.toNat with hless | heq | hgreater
    · exact byteDigits_append_lt hless _ _
    · rw [heq] at h
      rw [UInt8.toNat_inj.mp heq]
      exact List.append_left_lt (ih hlength' (by omega))
    · -- a greater first byte outweighs all that follows
      have hb := Bytes.toNat_lt b
      have hstep : (y.toNat + 1) * 256 ^ b.length ≤ x.toNat * 256 ^ b.length :=
        Nat.mul_le_mul_right _ hgreater
      rw [Nat.add_mul, Nat.one_mul] at hstep
      omega

/-- So are their written forms. -/
theorem encodeMarked_lt {n : Nat} {a b : FixedBytes n}
    (h : Bytes.toNat a.bytes < Bytes.toNat b.bytes) :
    encodeMarked a.bytes < encodeMarked b.bytes := by
  have htext : ∀ c : FixedBytes n,
      (encodeMarked c.bytes).toList = ['0', 'x'] ++ digits c.bytes := by
    intro c
    simp [encodeMarked, encode]
  rw [String.lt_iff, htext, htext]
  exact List.append_left_lt (digits_lt (a.length_eq.trans b.length_eq.symm) h)

end Hex

/-! ## The order of accounts -/

namespace Allocation

/-- Whether one address has a name that comes before all names of another one. -/
def NamedBefore (allocation : Allocation) (a b : Address) : Prop :=
  ∃ k ∈ allocation, Hex.DenotesPadded k a ∧ ∀ l ∈ allocation, Hex.DenotesPadded l b → k < l

/-- Whether addresses ascend as numbers. -/
def Ascending (addresses : List Address) : Prop :=
  addresses.Pairwise fun a b ↦ Bytes.toNat a.bytes < Bytes.toNat b.bytes

variable {allocation : Allocation} {s : WorldState}

/-- The names of an allocation with the addresses that they denote. -/
def names (allocation : Allocation) : List (String × Address) :=
  allocation.keys.filterMap fun k ↦ (readAddress k).toOption.map (k, ·)

theorem mem_names {k : String} {a : Address} :
    (k, a) ∈ allocation.names ↔ k ∈ allocation ∧ Hex.DenotesPadded k a := by
  rw [names, List.mem_filterMap, ← readAddress_eq_ok_iff]
  constructor
  · rintro ⟨l, hl, hmap⟩
    obtain ⟨b, hb, heq⟩ := Option.map_eq_some_iff.mp hmap
    obtain ⟨rfl, rfl⟩ := Prod.mk.inj heq
    refine ⟨Std.ExtTreeMap.mem_keys.mp hl, ?_⟩
    cases hread : readAddress l with
    | error e => rw [hread] at hb; cases hb
    | ok c => rw [hread] at hb; rw [Option.some_inj.mp hb]
  · rintro ⟨hk, hread⟩
    exact ⟨k, Std.ExtTreeMap.mem_keys.mpr hk, by rw [hread]; rfl⟩

theorem pairwise_names (allocation : Allocation) : allocation.names.Pairwise (·.1 < ·.1) := by
  have hkeys : allocation.keys.Pairwise (· < ·) :=
    (Std.ExtTreeMap.ordered_keys (t := allocation)).imp fun h ↦ compareOfLessAndEq_eq_lt.mp h
  refine hkeys.filterMap _ ?_
  intro k l hless p hp q hq
  obtain ⟨_, _, rfl⟩ := Option.map_eq_some_iff.mp hp
  obtain ⟨_, _, rfl⟩ := Option.map_eq_some_iff.mp hq
  exact hless

theorem map_address_eq {entries : List (String × Entry)} {rows : List Reading}
    (h : List.Forall₂ (fun entry r ↦ readEntry (entry.1, entry.2.filled) = .ok r) entries rows) :
    rows.map Reading.address
      = (entries.map Prod.fst).filterMap fun k ↦ (readAddress k).toOption := by
  induction h with
  | nil => rfl
  | @cons entry r _ _ hr _ ih =>
    have hread : (readAddress entry.1).toOption = some r.address := by
      rw [(readEntry_eq_ok_iff.mp hr).address]
      rfl
    rw [List.map_cons, List.map_cons, List.filterMap_cons, hread, ih]

theorem order_of_toState (h : toState allocation = .ok s) :
    s.accounts.order = firsts (allocation.names.map Prod.snd) := by
  rw [toState_eq] at h
  cases hread : read allocation.filled with
  | error e => rw [hread] at h; cases h
  | ok rows =>
    rw [hread] at h
    obtain rfl := Except.ok.inj h
    have hrows := mapM_eq_ok_iff.mp hread
    rw [filled, Std.ExtTreeMap.toList_map, List.forall₂_map_left_iff] at hrows
    have haddresses : (rows.map Reading.account).map Account.address
        = allocation.names.map Prod.snd := by
      have haccount : Account.address ∘ Reading.account = Reading.address :=
        funext Reading.address_account
      rw [List.map_map, haccount, map_address_eq hrows, Std.ExtTreeMap.map_fst_toList_eq_keys,
        names, List.map_filterMap]
      simp [Function.comp_def]
    rw [WorldState.order_insertAll Accounts.indexed_empty, haddresses]
    rfl

/-- Whether every address has a name that comes before the names of all greater ones. -/
def NamesAscend (allocation : Allocation) : Prop :=
  ∀ k ∈ allocation, ∀ l ∈ allocation, ∀ a b : Address,
    Hex.DenotesPadded k a → Hex.DenotesPadded l b → Bytes.toNat a.bytes < Bytes.toNat b.bytes →
      ∃ k' ∈ allocation, Hex.DenotesPadded k' a ∧ k' < l

theorem ascending_iff {order : List Address}
    (hmem : ∀ a, a ∈ order ↔ ∃ k ∈ allocation, Hex.DenotesPadded k a)
    (horder : order.Pairwise allocation.NamedBefore) :
    Ascending order ↔ allocation.NamesAscend := by
  constructor
  · intro hascending k hk l hl a b ha hb hless
    obtain ⟨i, hi, rfl⟩ := List.getElem_of_mem ((hmem a).mpr ⟨k, hk, ha⟩)
    obtain ⟨j, hj, rfl⟩ := List.getElem_of_mem ((hmem b).mpr ⟨l, hl, hb⟩)
    rcases Nat.lt_trichotomy i j with hij | rfl | hji
    · obtain ⟨k', hk', ha', hbefore⟩ := List.pairwise_iff_getElem.mp horder i j hi hj hij
      exact ⟨k', hk', ha', hbefore l hl hb⟩
    · exact absurd hless (Nat.lt_irrefl _)
    · have hgreater := List.pairwise_iff_getElem.mp hascending j i hj hi hji
      exact absurd hless (Nat.lt_asymm hgreater)
  · intro hnames
    refine (List.Pairwise.and_mem.mp horder).imp ?_
    rintro a b ⟨-, hb, k, hk, ha, hbefore⟩
    rcases Nat.lt_trichotomy (Bytes.toNat a.bytes) (Bytes.toNat b.bytes) with hless | heq | hgreater
    · exact hless
    · have hbytes := Bytes.eq_of_toNat_eq (a.length_eq.trans b.length_eq.symm) heq
      obtain rfl := FixedBytes.bytes_injective hbytes
      exact absurd (hbefore k hk ha) (String.lt_irrefl k)
    · -- then the lesser address has a name before this one of the greater one
      obtain ⟨l, hl, hl'⟩ := (hmem b).mp hb
      obtain ⟨m, hm, hmb, hmk⟩ := hnames l hl k hk b a hl' ha hgreater
      exact absurd (String.lt_trans (hbefore m hm hmb) hmk) (String.lt_irrefl k)

theorem namesAscend_of_encodeMarked
    (h : ∀ k ∈ allocation, ∃ a : Address, k = Hex.encodeMarked a.bytes) :
    allocation.NamesAscend := by
  intro k hk l hl a b ha hb hless
  refine ⟨k, hk, ha, ?_⟩
  obtain ⟨a', rfl⟩ := h k hk
  obtain ⟨b', rfl⟩ := h l hl
  obtain rfl := ha.eq (by decide) (Hex.denotesPadded_encodeMarked a')
  obtain rfl := hb.eq (by decide) (Hex.denotesPadded_encodeMarked b')
  exact Hex.encodeMarked_lt hless

/-- **Accounts come in the order of their first names.** The accounts of a loaded world state are at
the addresses that the allocation names, and one comes before another if it has a name that comes
before all names of the other. So the addresses ascend exactly if the names do, and then they ascend
among the accounts that are committed as well; names of full length in lower case do. -/
theorem toState_ascending_iff (h : toState allocation = .ok s) :
    (∀ a, a ∈ s.accounts.toList.map Account.address ↔
      ∃ k ∈ allocation, Hex.DenotesPadded k a) ∧
    (s.accounts.toList.map Account.address).Pairwise allocation.NamedBefore ∧
    (Ascending (s.accounts.toList.map Account.address) ↔ allocation.NamesAscend) ∧
    (allocation.NamesAscend → Ascending (s.committable.map Account.address)) ∧
    ((∀ k ∈ allocation, ∃ a : Address, k = Hex.encodeMarked a.bytes) →
      allocation.NamesAscend) := by
  have hlist : s.accounts.toList.map Account.address = firsts (allocation.names.map Prod.snd) := by
    rw [(reachable_toState h).indexed.map_address_toList, order_of_toState h]
  have hmem : ∀ a, a ∈ s.accounts.toList.map Account.address ↔
      ∃ k ∈ allocation, Hex.DenotesPadded k a := by
    intro a
    simp [hlist, mem_firsts, mem_names]
  have horder : (s.accounts.toList.map Account.address).Pairwise allocation.NamedBefore := by
    rw [hlist]
    refine (pairwise_firsts (pairwise_names allocation)).imp ?_
    rintro a b ⟨k, hk, hbefore⟩
    obtain ⟨hk, ha⟩ := mem_names.mp hk
    exact ⟨k, hk, ha, fun l hl hb ↦ hbefore l (mem_names.mpr ⟨hl, hb⟩)⟩
  have hascending := ascending_iff hmem horder
  refine ⟨hmem, horder, hascending, ?_, namesAscend_of_encodeMarked⟩
  intro hnames
  exact (hascending.mpr hnames).sublist (List.filter_sublist.map _)

/-- Two names of one address around the name of a greater one. -/
def straddled : Allocation :=
  .ofList [(" 2", Entry.empty), ("0x10", Entry.empty), ("0x2", Entry.empty)]

theorem toState_ascending_iff_straddled :
    ∃ s, toState straddled = .ok s ∧
      s.accounts.toList.map Account.address = [WorldState.ending 2, WorldState.ending 16] ∧
      straddled.NamesAscend := by
  have hloaded : (toState straddled).map (·.accounts.toList.map Account.address)
      = .ok [WorldState.ending 2, WorldState.ending 16] := by
    decide +kernel
  cases hs : toState straddled with
  | error e =>
    rw [hs] at hloaded
    cases hloaded
  | ok s =>
    rw [hs] at hloaded
    have hlist : s.accounts.toList.map Account.address
        = [WorldState.ending 2, WorldState.ending 16] := Except.ok.inj hloaded
    refine ⟨s, rfl, hlist, (toState_ascending_iff hs).2.2.1.mp ?_⟩
    rw [hlist, Ascending]
    decide +kernel

/-- A name of an address before that of a lesser one. -/
def crossed : Allocation := .ofList [("0x10", Entry.empty), ("0x2", Entry.empty)]

/-- The addresses of accounts need not ascend. -/
theorem not_forall_toState_ascending :
    ¬ ∀ (allocation : Allocation) (s : WorldState), toState allocation = .ok s →
      Ascending (s.accounts.toList.map Account.address) := by
  intro h
  have hloaded : (toState crossed).map (·.accounts.toList.map Account.address)
      = .ok [WorldState.ending 16, WorldState.ending 2] := by
    decide +kernel
  cases hs : toState crossed with
  | error e =>
    rw [hs] at hloaded
    cases hloaded
  | ok s =>
    rw [hs] at hloaded
    have hlist : s.accounts.toList.map Account.address
        = [WorldState.ending 16, WorldState.ending 2] := Except.ok.inj hloaded
    have hascending := h crossed s hs
    rw [hlist, Ascending] at hascending
    exact absurd hascending (by decide +kernel)

end Allocation

end ExecState
