import ExecState.Machine.Session
import Mathlib.Algebra.Order.Floor.Div

/-!
# Paying for memory as it grows

A memory is paid for in instalments: before each growth the difference between the price of the new
length and the price so far is charged. The instalments add up to the difference between the last
price and the first, so the sum is settled by the first length and the largest target. Neither the
order of the targets nor their number matters.

Two things could break this. A difference stops at zero, which loses nothing because the price is
monotone in the length (`Gas.price_mono`) and a smaller target grows nothing. And prices stop at
`2 ^ 128 - 1`, which no length of 64 bits comes near (`Gas.exact_of_lt`): there are fewer than
`2 ^ 60` words, so the largest product is below `2 ^ 120`.

A target past the greatest size of a byte string is another matter. It has a price, which is charged
like any other, but memory cannot be grown to it, and the growth breaks off.
-/

namespace ExecState

/-! ## Prices over the whole numbers -/

namespace Gas

/-- The price of a memory of the given length, as a whole number without bound. -/
def price (length : Nat) : Nat := 3 * (length ⌈/⌉ 32) + (length ⌈/⌉ 32) ^ 2 / 512

theorem words_eq_ceilDiv (length : Nat) : words length = length ⌈/⌉ 32 := by
  rw [words, Nat.ceilDiv_eq_add_pred_div, Nat.add_sub_assoc (by decide)]

theorem price_mono {a b : Nat} (h : a ≤ b) : price a ≤ price b := by
  have hwords : a ⌈/⌉ 32 ≤ b ⌈/⌉ 32 := (gc_mul_ceilDiv (by decide)).monotone_l h
  have hsquares : (a ⌈/⌉ 32) ^ 2 / 512 ≤ (b ⌈/⌉ 32) ^ 2 / 512 :=
    Nat.div_le_div_right (Nat.pow_le_pow_left hwords 2)
  rw [price, price]
  omega

/-- Whether every step on the way to the price of a length yields the whole number that it stands
for, so that none of them stops at the largest price. -/
structure Exact (length : Nat) : Prop where
  words : (clamp (words length)).toNat = length ⌈/⌉ 32
  square : (mulSaturating (clamp (Gas.words length)) (clamp (Gas.words length))).toNat
    = (length ⌈/⌉ 32) * (length ⌈/⌉ 32)
  triple : (mulSaturating (clamp (Gas.words length)) 3).toNat = (length ⌈/⌉ 32) * 3
  sum : (ofLength length).toNat
    = (length ⌈/⌉ 32) * (length ⌈/⌉ 32) / 512 + (length ⌈/⌉ 32) * 3

theorem Exact.toNat_ofLength {length : Nat} (h : Exact length) :
    (ofLength length).toNat = price length := by
  rw [h.sum, price, Nat.pow_two]
  omega

/-- **No length of 64 bits is too great for a price.** -/
theorem exact_of_lt {length : Nat} (h : length < 2 ^ 64) : Exact length := by
  have hwords : length ⌈/⌉ 32 < 2 ^ 60 := by
    rw [← words_eq_ceilDiv, words]
    omega
  have hsquare : (length ⌈/⌉ 32) * (length ⌈/⌉ 32) < 2 ^ 120 := by
    calc (length ⌈/⌉ 32) * (length ⌈/⌉ 32) < 2 ^ 60 * 2 ^ 60 := Nat.mul_lt_mul'' hwords hwords
      _ = 2 ^ 120 := by rw [← Nat.pow_add]
  have hclamp : (clamp (Gas.words length)).toNat = length ⌈/⌉ 32 := by
    rw [words_eq_ceilDiv, toNat_clamp_of_lt (by rw [size]; omega)]
  have hproduct : (mulSaturating (clamp (Gas.words length)) (clamp (Gas.words length))).toNat
      = (length ⌈/⌉ 32) * (length ⌈/⌉ 32) := by
    rw [mulSaturating, hclamp, toNat_clamp_of_lt (by rw [size]; omega)]
  have htriple : (mulSaturating (clamp (Gas.words length)) 3).toNat = (length ⌈/⌉ 32) * 3 := by
    have hthree : (3 : Gas).toNat = 3 := rfl
    rw [mulSaturating, hclamp, hthree, toNat_clamp_of_lt (by rw [size]; omega)]
  refine ⟨hclamp, hproduct, htriple, ?_⟩
  have hquotient : (mulSaturating (clamp (Gas.words length)) (clamp (Gas.words length)) / 512).toNat
      = (length ⌈/⌉ 32) * (length ⌈/⌉ 32) / 512 := by
    rw [BitVec.toNat_udiv, hproduct]
    rfl
  rw [ofLength, addSaturating, hquotient, htriple, toNat_clamp_of_lt (by rw [size]; omega)]

theorem toNat_ofLength {length : Nat} (h : length < 2 ^ 64) :
    (ofLength length).toNat = price length :=
  (exact_of_lt h).toNat_ofLength

end Gas

/-! ## Instalments -/

namespace Memory

variable {m : Memory} {n : Nat}

theorem toNat_cost (hm : m.length < 2 ^ 64) : m.cost.toNat = Gas.price m.length :=
  Gas.toNat_ofLength hm

theorem toNat_expansionCost (hm : m.length < 2 ^ 64) (hn : n < 2 ^ 64) :
    (m.expansionCost n).toNat = Gas.price n - Gas.price m.length := by
  have hlt : (Gas.ofLength n).toNat < Gas.size := (Gas.ofLength n).isLt
  rw [expansionCost, Gas.subSaturating, Gas.toNat_clamp_of_lt (by omega), Gas.toNat_ofLength hn,
    toNat_cost hm]

/-- **One instalment** is what the price rises by. -/
theorem expansionCost_add_cost (hm : m.length < 2 ^ 64) (hn : n < 2 ^ 64) :
    (m.expansionCost n).toNat + m.cost.toNat = (m.resize n).cost.toNat := by
  rw [toNat_expansionCost hm hn, toNat_cost hm, toNat_cost (Nat.max_lt.mpr ⟨hm, hn⟩), length_resize]
  rcases Nat.le_total m.length n with hle | hle
  · have hmono := Gas.price_mono hle
    rw [Nat.max_eq_right hle]
    omega
  · -- a smaller target costs nothing and changes nothing
    have hmono := Gas.price_mono hle
    rw [Nat.max_eq_left hle]
    omega

end Memory

namespace Machine

variable {m : Machine} {n : Nat} {targets : List Nat}

/-- The steps that ask for the price of growing to each target and then grow to it. -/
def growing (targets : List Nat) : List Command :=
  targets.flatMap fun n ↦ [.expansionCost n, .resize n]

/-- The price that an answer names; other answers name none. -/
def charge : Except Fault Answer → Nat
  | .ok (.gas price) => price.toNat
  | _ => 0

/-- What a run charges in all. -/
def charged (m : Machine) (commands : List Command) : Nat :=
  ((m.run commands).1.map charge).sum

theorem step_expansionCost (m : Machine) (n : Nat) :
    m.step (.expansionCost n) = .done (.gas (m.memory.expansionCost n)) m := rfl

theorem step_resize (m : Machine) (n : Nat) :
    m.step (.resize n) = if n ≤ Bytes.greatestSize
      then .done .done { m with memory := m.memory.resize n } else .failed .exhausted m := rfl

theorem growing_cons (n : Nat) (targets : List Nat) :
    growing (n :: targets) = .expansionCost n :: .resize n :: growing targets := rfl

theorem run_growing_cons (m : Machine) (n : Nat) (targets : List Nat) :
    m.run (growing (n :: targets))
      = (.ok (.gas (m.memory.expansionCost n)) :: (m.step (.resize n)).1
            :: ((m.step (.resize n)).2.run (growing targets)).1,
          ((m.step (.resize n)).2.run (growing targets)).2) := by
  rw [growing_cons, run, step_expansionCost]
  rfl

theorem snd_run_growing (m : Machine) (targets : List Nat) :
    (m.run (growing targets)).2
      = (m.run (growing (targets.filter (· ≤ Bytes.greatestSize)))).2 := by
  induction targets generalizing m with
  | nil => rfl
  | cons n targets ih =>
    rw [run_growing_cons]
    by_cases hn : n ≤ Bytes.greatestSize
    · rw [List.filter_cons_of_pos (by simpa using hn), run_growing_cons]
      exact ih _
    · rw [List.filter_cons_of_neg (by simpa using hn), step_resize, if_neg hn]
      exact ih m

/-- The first instalment is charged before memory is grown, and growing itself charges nothing. -/
theorem charged_growing_cons (hn : n ≤ Bytes.greatestSize) :
    m.charged (growing (n :: targets))
      = (m.memory.expansionCost n).toNat
        + ({ m with memory := m.memory.resize n } : Machine).charged (growing targets) := by
  rw [charged, run_growing_cons, step_resize, if_pos hn]
  exact congrArg ((m.memory.expansionCost n).toNat + ·) (Nat.zero_add _)

section Grown

variable (h : ∀ n ∈ targets, n ≤ Bytes.greatestSize)
include h

/-- Growing to targets of which each is possible is never refused, and the largest one counts. -/
theorem run_growing_of_le (m : Machine) :
    (∀ r ∈ (m.run (growing targets)).1, r.isOk) ∧
      (m.run (growing targets)).2.memory.length = targets.foldl max m.memory.length := by
  induction targets generalizing m with
  | nil => exact ⟨nofun, rfl⟩
  | cons n targets ih =>
    rw [List.forall_mem_cons] at h
    obtain ⟨hanswers, hlength⟩ := ih h.2 { m with memory := m.memory.resize n }
    rw [run_growing_cons, step_resize, if_pos h.1]
    refine ⟨?_, hlength⟩
    rw [List.forall_mem_cons, List.forall_mem_cons]
    exact ⟨rfl, rfl, hanswers⟩

/-- **Instalments add up** to the rise of the price. -/
theorem charged_add_cost (hm : m.memory.length < 2 ^ 64) :
    m.charged (growing targets) + m.memory.cost.toNat
      = (m.run (growing targets)).2.memory.cost.toNat := by
  induction targets generalizing m with
  | nil => exact Nat.zero_add _
  | cons n targets ih =>
    rw [List.forall_mem_cons] at h
    have hn : n < 2 ^ 64 := Nat.lt_of_le_of_lt h.1 (by decide)
    have hgrown : (m.memory.resize n).length < 2 ^ 64 := Nat.max_lt.mpr ⟨hm, hn⟩
    have hrest := ih h.2 (m := { m with memory := m.memory.resize n }) hgrown
    have hend : (m.run (growing (n :: targets))).2
        = (({ m with memory := m.memory.resize n } : Machine).run (growing targets)).2 := by
      rw [run_growing_cons, step_resize, if_pos h.1]
      rfl
    calc m.charged (growing (n :: targets)) + m.memory.cost.toNat
        = (m.memory.expansionCost n).toNat
            + ({ m with memory := m.memory.resize n } : Machine).charged (growing targets)
            + m.memory.cost.toNat := by rw [charged_growing_cons h.1]
      _ = ({ m with memory := m.memory.resize n } : Machine).charged (growing targets)
            + (m.memory.resize n).cost.toNat := by
          rw [← Memory.expansionCost_add_cost hm hn]
          omega
      _ = (m.run (growing (n :: targets))).2.memory.cost.toNat := by rw [hend, ← hrest]

end Grown

theorem foldl_max_lt {first bound : Nat} (hfirst : first < bound) (h : ∀ n ∈ targets, n < bound) :
    targets.foldl max first < bound := by
  rw [List.foldl_max]
  refine Nat.max_lt.mpr ⟨hfirst, ?_⟩
  cases hlargest : targets.max? with
  | none => exact hfirst
  | some largest => exact h _ (List.max?_mem hlargest)

/-- **What memory costs does not depend on how it was grown.** The price of each growth is charged
just before it. As long as every target is possible none is refused, and the charges add up to the
price in the end less the price at first, which the first length and the largest target settle. A
target past the greatest size of a byte string breaks off and leaves memory as it was, so that it is
grown by the other targets alone. The price of a length of 64 bits is `3 w + ⌊w² / 512⌋` for its `w`
words, it is monotone, and no operation on the way to it or to a difference of prices stops at a
bound, other than a negative difference at zero. -/
theorem charged_growing (m : Machine) (hm : m.memory.length < 2 ^ 64) (targets : List Nat) :
    ((∀ n ∈ targets, n ≤ Bytes.greatestSize) →
      (∀ r ∈ (m.run (growing targets)).1, r.isOk) ∧
      (m.charged (growing targets) : Int)
        = (m.run (growing targets)).2.memory.cost.toNat - m.memory.cost.toNat ∧
      (m.charged (growing targets) : Int)
        = Gas.price (targets.foldl max m.memory.length) - Gas.price m.memory.length) ∧
    (∀ n, Bytes.greatestSize < n → m.step (.resize n) = .failed .exhausted m) ∧
    (m.run (growing targets)).2
      = (m.run (growing (targets.filter (· ≤ Bytes.greatestSize)))).2 ∧
    (∀ length < 2 ^ 64, (Gas.ofLength length).toNat = Gas.price length ∧ Gas.Exact length ∧
      ∀ shorter ≤ length, (Gas.ofLength shorter).toNat ≤ (Gas.ofLength length).toNat) ∧
    ∀ n < 2 ^ 64, ((m.memory.expansionCost n).toNat : Int)
      = max 0 (Gas.price n - Gas.price m.memory.length : Int) := by
  refine ⟨fun h ↦ ?_, fun n hn ↦ ?_, m.snd_run_growing targets, fun length hlength ↦ ?_,
    fun n hn ↦ ?_⟩
  · obtain ⟨hanswers, hlength⟩ := run_growing_of_le h m
    have hsum := charged_add_cost h hm
    refine ⟨hanswers, by omega, ?_⟩
    have hend : (m.run (growing targets)).2.memory.length < 2 ^ 64 :=
      hlength ▸ foldl_max_lt hm fun n hn ↦ Nat.lt_of_le_of_lt (h n hn) (by decide)
    rw [Memory.toNat_cost hm, Memory.toNat_cost hend, hlength] at hsum
    omega
  · rw [step_resize, if_neg (Nat.not_le.mpr hn)]
  · refine ⟨Gas.toNat_ofLength hlength, Gas.exact_of_lt hlength, fun shorter hshorter ↦ ?_⟩
    rw [Gas.toNat_ofLength hlength, Gas.toNat_ofLength (Nat.lt_of_le_of_lt hshorter hlength)]
    exact Gas.price_mono hshorter
  · rw [Memory.toNat_expansionCost hm hn]
    omega

/-- A machine with three bytes of memory. -/
def begun : Machine := ⟨Memory.empty.resize 3, Stack.empty, GrowthAdvisor.standard⟩

/-- Targets that rise, fall and repeat. -/
def wavering : List Nat := [40, 7, 100, 40]

theorem charged_growing_wavering :
    begun.memory.length < 2 ^ 64 ∧ (∀ n ∈ wavering, n ≤ Bytes.greatestSize) ∧
      (begun.charged (growing wavering) : Int)
        = (begun.run (growing wavering)).2.memory.cost.toNat - begun.memory.cost.toNat ∧
      (begun.charged (growing wavering) : Int) = Gas.price 100 - Gas.price 3 := by
  have hm : begun.memory.length < 2 ^ 64 := by decide
  have hwavering : ∀ n ∈ wavering, n ≤ Bytes.greatestSize := by decide
  obtain ⟨-, hsum, hprices⟩ := (begun.charged_growing hm wavering).1 hwavering
  exact ⟨hm, hwavering, hsum, hprices⟩

/-- For targets of 64 bits the charges need not add up: the first length that no byte string has is
charged for, and memory stays as it is. -/
theorem not_forall_charged_growing :
    ¬ ∀ (m : Machine) (targets : List Nat), m.memory.length < 2 ^ 64 →
      (∀ n ∈ targets, n < 2 ^ 64) →
      (m.charged (growing targets) : Int)
        = (m.run (growing targets)).2.memory.cost.toNat - m.memory.cost.toNat := by
  intro h
  have hsum := h Machine.empty [2 ^ 63] (by decide) (by decide)
  exact absurd hsum (by decide +kernel)

end Machine

end ExecState
