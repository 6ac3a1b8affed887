import ExecState.Machine.Session
import ExecState.Proofs.Machine.History
import Mathlib.Order.Bounds.Defs

/-!
# Memory prepared for an instruction

What a preparation makes possible, and whether it asks for more than that takes.
-/

namespace ExecState

/-!
## Writing after a preparation

An instruction that touches memory takes its region from its operands. Once memory was prepared for
it, every value that fits into the region can be written at its offset, and this stays so whatever
the machine goes through, since no command takes length away (`Machine.length_le_run`).

A preparation is refused where the region ends past the limit of the advisor. Where it ends within
the limit but past the greatest size of a byte string, memory cannot be grown and the preparation
breaks off; a limit below that size excludes it. `Machine.step_prepare_of_eq_some` says which of the
three happens to a region.
-/

/-! ### Operands -/

namespace Stack

variable (s : Stack) (n : Nat)

theorem peekMany_eq_take : s.peekMany n = (s.values ++ List.replicate n 0).take n := by
  refine List.ext_getElem ?_ fun i h₁ h₂ ↦ ?_
  · simp [peekMany]
  · have hi : i < n := by simpa [peekMany] using h₁
    rw [List.getElem_take]
    by_cases hdepth : i < s.values.length
    · simp [peekMany, peek, hdepth, List.getElem_append_left hdepth]
    · rw [List.getElem_append_right (Nat.not_lt.mp hdepth)]
      simp [peekMany, peek, hdepth]

theorem popMany_of_le (h : n ≤ s.depth) : (s.popMany n).1 = .ok (s.peekMany n) := by
  rw [popMany, if_pos h, peekMany_eq_take, List.take_append_of_le_length h]
  rfl

theorem getD_peekMany {i : Nat} (h : i < n) : (s.peekMany n).getD i 0 = s.peek i := by
  simp [peekMany, h]

end Stack

/-- A family looks at no more operands than it reads. -/
theorem MemoryFamily.region_congr (family : MemoryFamily) {f g : Nat → U256}
    (h : ∀ i < family.operands, f i = g i) : family.region f = family.region g := by
  cases family <;> simp (disch := decide) only [region, h]

namespace Memory

/-- Whether every value that fits into a region can be written at its offset, in either way. -/
def Admits (m : Memory) (region : Region) : Prop :=
  ∀ value : Bytes, value.length ≤ region.length.toNat →
    (m.write region.offset.toNat value.length value).1 = .ok () ∧
      (m.writeClamped region.offset.toNat value.length value).1 = .ok ()

theorem admits_of_finish_le {m : Memory} {region : Region} (h : region.finish ≤ m.length) :
    m.Admits region := by
  intro value hvalue
  have hwrite : (m.write region.offset.toNat value.length value).1 = .ok () := by
    have hbounds : region.offset.toNat + value.length ≤ m.length :=
      Nat.le_trans (Nat.add_le_add_left hvalue _) h
    exact (m.write_ok_iff _ _ _).mpr (Or.inr ⟨hbounds, rfl⟩)
  refine ⟨hwrite, ?_⟩
  rwa [writeClamped_eq_write, Nat.min_self, List.take_length]

end Memory

namespace Machine

/-! ### Lengths -/

theorem length_le_resize (m : Memory) (target : Nat) : m.length ≤ (m.resize target).length :=
  Nat.le_max_left _ _

theorem length_le_grow (advisor : GrowthAdvisor) (family : MemoryFamily) (stack : Stack)
    (m : Memory) : m.length ≤ (advisor.grow family stack m).2.length := by
  rw [GrowthAdvisor.grow]
  split
  · exact length_le_resize m _
  · exact Nat.le_refl _

theorem length_le_prepare (advisor : GrowthAdvisor) (byte : UInt8) (stack : Stack) (m : Memory) :
    m.length ≤ (advisor.prepare byte stack m).2.length := by
  rw [GrowthAdvisor.prepare]
  split
  · exact Nat.le_refl _
  · rename_i family _
    have hgrow := length_le_grow advisor family stack m
    split <;> simp_all

theorem length_le_step (m : Machine) (c : Command) :
    m.memory.length ≤ (m.step c).2.memory.length := by
  rw [step]
  split
  · cases c with
    | resize target => exact length_le_resize m.memory target
    | write offset size value => exact Nat.le_of_eq (m.memory.length_write offset size value).symm
    | writeClamped offset size value =>
      exact Nat.le_of_eq (m.memory.length_write offset _ _).symm
    | requiredLength region =>
      rw [perform]
      split <;> exact Nat.le_refl _
    | prepare byte => exact length_le_prepare m.advisor byte m.stack m.memory
    | grow family => exact length_le_grow m.advisor family m.stack m.memory
    | _ => exact Nat.le_refl _
  · exact Nat.le_refl _

theorem length_le_run (m : Machine) (commands : List Command) :
    m.memory.length ≤ (m.run commands).2.memory.length := by
  induction commands generalizing m with
  | nil => exact Nat.le_refl _
  | cons c commands ih => exact Nat.le_trans (m.length_le_step c) (ih (m.step c).2)

/-! ### Preparing -/

/-- The region that an instruction takes from its operands, if it touches memory. -/
def region? (m : Machine) (byte : UInt8) : Option Region :=
  (MemoryFamily.ofByte? byte).map fun family ↦
    family.region fun i ↦ (m.stack.peekMany family.operands).getD i 0

theorem region?_eq (m : Machine) (byte : UInt8) :
    m.region? byte
      = (MemoryFamily.ofByte? byte).map fun family ↦ family.region m.stack.peek := by
  have hregion : ∀ family : MemoryFamily,
      family.region (fun i ↦ (m.stack.peekMany family.operands).getD i 0)
        = family.region m.stack.peek :=
    fun family ↦ family.region_congr fun _ hi ↦ m.stack.getD_peekMany _ hi
  rw [region?]
  simp only [hregion]

theorem grow_eq (advisor : GrowthAdvisor) (family : MemoryFamily) (stack : Stack) (m : Memory) :
    advisor.grow family stack m
      = if (family.region stack.peek).finish ≤ advisor.limit
        then .done (family.region stack.peek).finish (m.resize (family.region stack.peek).finish)
        else .failed (.limitExceeded (family.region stack.peek) advisor.limit) m := by
  rw [GrowthAdvisor.grow, GrowthAdvisor.requiredLength]
  by_cases hlimit : (family.region stack.peek).finish ≤ advisor.limit
  · rw [if_pos hlimit, if_pos hlimit]
  · rw [if_neg hlimit, if_neg hlimit]

theorem prepare_eq (advisor : GrowthAdvisor) {byte : UInt8} {family : MemoryFamily}
    (h : MemoryFamily.ofByte? byte = some family) (stack : Stack) (m : Memory) :
    advisor.prepare byte stack m
      = if (family.region stack.peek).finish ≤ advisor.limit
        then .done () (m.resize (family.region stack.peek).finish)
        else .failed (.limitExceeded (family.region stack.peek) advisor.limit) m := by
  simp only [GrowthAdvisor.prepare, h, grow_eq]
  by_cases hlimit : (family.region stack.peek).finish ≤ advisor.limit
  · rw [if_pos hlimit, if_pos hlimit]
    rfl
  · rw [if_neg hlimit, if_neg hlimit]
    rfl

theorem step_prepare_of_eq_none {m : Machine} {byte : UInt8} (h : m.region? byte = none) :
    m.step (.prepare byte) = .done .done m := by
  rw [region?_eq, Option.map_eq_none_iff] at h
  rw [step, demand, h, perform, GrowthAdvisor.prepare, h]
  rfl

/-- **What preparing does** for an instruction that touches memory. -/
theorem step_prepare_of_eq_some {m : Machine} {byte : UInt8} {region : Region}
    (h : m.region? byte = some region) :
    m.step (.prepare byte)
      = if region.finish ≤ m.advisor.limit then
          if region.finish ≤ Bytes.greatestSize
          then .done .done { m with memory := m.memory.resize region.finish }
          else .failed .exhausted m
        else .failed (.growth (.limitExceeded region m.advisor.limit)) m := by
  rw [region?_eq, Option.map_eq_some_iff] at h
  obtain ⟨family, hfamily, rfl⟩ := h
  -- what is past the limit is never demanded of memory, so it cannot exhaust it
  have hdemand : m.demand (.prepare byte)
      = if (family.region m.stack.peek).finish ≤ m.advisor.limit
        then (family.region m.stack.peek).finish else 0 := by
    rw [demand, hfamily, Option.map_some, Option.getD_some, growth, GrowthAdvisor.requiredLength]
    by_cases hlimit : (family.region m.stack.peek).finish ≤ m.advisor.limit
    · rw [if_pos hlimit, if_pos hlimit]
    · rw [if_neg hlimit, if_neg hlimit]
  rw [step, hdemand, perform, prepare_eq m.advisor hfamily]
  by_cases hlimit : (family.region m.stack.peek).finish ≤ m.advisor.limit
  · rw [if_pos hlimit, if_pos hlimit, if_pos hlimit]
    rfl
  · rw [if_neg hlimit, if_neg hlimit, if_neg hlimit, if_pos (Nat.zero_le _)]
    rfl

/-- **A preparation makes room.** The operands are the values that popping would yield, with zeros
below the bottom. A preparation succeeds if the instruction touches no memory, or if its region ends
within the limit and within the greatest size of a byte string; where the second bound alone is
passed it breaks off, and nothing changes unless it succeeds. Then memory reaches to the end of the
region at least, every read yields what it did before, and whatever fits into the region can be
written at its offset, at once and after any further commands. -/
theorem step_prepare_admits (m : Machine) (byte : UInt8) :
    (∀ n, m.stack.peekMany n = (m.stack.values ++ List.replicate n 0).take n ∧
      (n ≤ m.stack.depth → (m.stack.popMany n).1 = .ok (m.stack.peekMany n))) ∧
    ((m.step (.prepare byte)).1 = .ok .done ↔
      ∀ region ∈ m.region? byte,
        region.finish ≤ m.advisor.limit ∧ region.finish ≤ Bytes.greatestSize) ∧
    ((m.step (.prepare byte)).1 = .error .exhausted ↔
      ∃ region ∈ m.region? byte,
        region.finish ≤ m.advisor.limit ∧ Bytes.greatestSize < region.finish) ∧
    ((m.step (.prepare byte)).1 ≠ .ok .done → (m.step (.prepare byte)).2 = m) ∧
    ∀ region ∈ m.region? byte, (m.step (.prepare byte)).1 = .ok .done →
      (m.step (.prepare byte)).2.memory.length = max m.memory.length region.finish ∧
      (∀ offset size,
        (m.step (.prepare byte)).2.memory.read offset size = m.memory.read offset size) ∧
      ∀ commands, ((m.step (.prepare byte)).2.run commands).2.memory.Admits region := by
  refine ⟨fun n ↦ ⟨m.stack.peekMany_eq_take n, m.stack.popMany_of_le n⟩, ?_⟩
  cases hregion : m.region? byte with
  | none =>
    rw [step_prepare_of_eq_none hregion]
    simp
  | some region =>
    simp only [Option.mem_def, Option.some_inj, forall_eq', exists_eq_left']
    rw [step_prepare_of_eq_some hregion]
    by_cases hlimit : region.finish ≤ m.advisor.limit
    · by_cases hsize : region.finish ≤ Bytes.greatestSize
      · rw [if_pos hlimit, if_pos hsize]
        refine ⟨by simp [hlimit, hsize], by simp [hsize], by simp, fun _ ↦ ⟨rfl, fun _ _ ↦ rfl, ?_⟩⟩
        intro commands
        have hgrown : region.finish ≤ (m.memory.resize region.finish).length := Nat.le_max_right _ _
        have hkept := length_le_run { m with memory := m.memory.resize region.finish } commands
        exact Memory.admits_of_finish_le (Nat.le_trans hgrown hkept)
      · rw [if_pos hlimit, if_neg hsize]
        simp [hlimit, hsize, Nat.lt_of_not_le hsize]
    · rw [if_neg hlimit]
      simp [hlimit]

/-- A machine that is about to store a word from position four on. -/
def storing : Machine := ⟨Memory.empty.resize 3, ⟨[4, 0xff]⟩, GrowthAdvisor.standard⟩

theorem step_prepare_admits_storing :
    (storing.region? Opcode.mstore.byte = some ⟨4, 32⟩ ∧
      (storing.step (.prepare Opcode.mstore.byte)).1 = .ok .done) ∧
    (storing.step (.prepare Opcode.mstore.byte)).2.memory.length = 36 ∧
    (∀ offset size, (storing.step (.prepare Opcode.mstore.byte)).2.memory.read offset size
      = storing.memory.read offset size) ∧
    ∀ commands,
      ((storing.step (.prepare Opcode.mstore.byte)).2.run commands).2.memory.Admits ⟨4, 32⟩ := by
  have hregion : storing.region? Opcode.mstore.byte = some ⟨4, 32⟩ := by decide
  have hdone : (storing.step (.prepare Opcode.mstore.byte)).1 = .ok .done := by rfl
  have hspec := storing.step_prepare_admits Opcode.mstore.byte
  exact ⟨⟨hregion, hdone⟩, hspec.2.2.2.2 _ hregion hdone⟩

/-- A machine without a limit to speak of, about to store a byte behind the last one that can be
addressed. -/
def beyond : Machine := ⟨Memory.empty, ⟨[0x8000000000000000]⟩, ⟨0xffffffffffffffff⟩⟩

/-- A region within the limit is not enough for a preparation to succeed. -/
theorem not_prepared_beyond :
    ¬ ((beyond.step (.prepare Opcode.mstore8.byte)).1 = .ok .done ↔
      ∀ region ∈ beyond.region? Opcode.mstore8.byte, region.finish ≤ beyond.advisor.limit) := by
  have hregion : beyond.region? Opcode.mstore8.byte = some ⟨0x8000000000000000, 1⟩ := by decide
  have hexhausted : (beyond.step (.prepare Opcode.mstore8.byte)).1 = .error .exhausted := by rfl
  rw [hregion, hexhausted]
  decide

end Machine

namespace Region

/-!
## The least length for an instruction

Length has its price, so a preparation should not ask for more of it than the instruction needs:
the least length, beside the one that memory has, in which a value of the size of its region can be
written at its offset. What a region needs is therefore said by writing (`Region.FitsIn`), and not
by where it ends.

The two are the same for a region with bytes in it, and there a preparation asks for the least
length and fails only where no admitted length would do. A region without bytes fits everywhere,
since nothing is written to it. It is treated like any other one all the same: memory grows to its
offset, and a preparation fails if the offset is past the limit. Only where memory reaches to the
offset already is nothing asked for. `Machine.step_prepare_isLeast_iff` puts the two cases together.
-/

/-- Whether a region fits into a length: a value of exactly its size can be written at its offset in
every memory of this length. -/
def FitsIn (region : Region) (length : Nat) : Prop :=
  ∀ m : Memory, m.length = length → ∀ value : Bytes, value.length = region.length.toNat →
    (m.write region.offset.toNat region.length.toNat value).1 = .ok ()

variable {region : Region}

theorem toNat_length_eq_zero_iff : region.length.toNat = 0 ↔ region.length = 0 := by
  rw [← BitVec.toNat_inj]
  rfl

theorem finish_eq_of_length_eq_zero (region : Region) (h : region.length = 0) :
    region.finish = region.offset.toNat := by
  rw [finish, toNat_length_eq_zero_iff.mpr h, Nat.add_zero]

/-- A region without bytes fits everywhere, and any other one where it ends. -/
theorem fitsIn_iff {length : Nat} :
    region.FitsIn length ↔ region.length = 0 ∨ region.finish ≤ length := by
  constructor
  · intro hfits
    have hzeros := hfits ⟨length, ∅⟩ rfl _ (List.length_replicate (a := 0))
    rcases (Memory.write_ok_iff _ _ _ _).mp hzeros with hempty | ⟨hbounds, -⟩
    · exact .inl (toNat_length_eq_zero_iff.mp hempty)
    · exact .inr hbounds
  · intro hregion m hlength value hvalue
    rw [Memory.write_ok_iff, hlength]
    rcases hregion with hempty | hbounds
    · exact .inl (toNat_length_eq_zero_iff.mpr hempty)
    · exact .inr ⟨hbounds, hvalue⟩

/-- Of the lengths from a given one on, the one that reaches to the end of a region is the least
that it fits into, unless the region has no bytes and ends beyond the given length. -/
theorem isLeast_max_finish_iff {current : Nat} :
    IsLeast {n | current ≤ n ∧ region.FitsIn n} (max current region.finish)
      ↔ region.length ≠ 0 ∨ region.offset.toNat ≤ current := by
  have hmem : max current region.finish ∈ {n | current ≤ n ∧ region.FitsIn n} :=
    ⟨Nat.le_max_left _ _, fitsIn_iff.mpr (.inr (Nat.le_max_right _ _))⟩
  constructor
  · rintro ⟨-, hleast⟩
    by_cases hempty : region.length = 0
    · -- the given length would do for nothing, so it is the least one
      have hcurrent : max current region.finish ≤ current :=
        hleast ⟨Nat.le_refl _, fitsIn_iff.mpr (.inl hempty)⟩
      have hoffset : region.offset.toNat ≤ region.finish := Nat.le_add_right _ _
      exact .inr (by omega)
    · exact .inl hempty
  · intro hregion
    refine ⟨hmem, ?_⟩
    rintro n ⟨hcurrent, hfits⟩
    rcases fitsIn_iff.mp hfits with hempty | hfinish
    · have hoffset : region.offset.toNat ≤ current := hregion.resolve_left (not_not.mpr hempty)
      have hfinish := region.finish_eq_of_length_eq_zero hempty
      omega
    · exact Nat.max_le.mpr ⟨hcurrent, hfinish⟩

end Region

namespace Machine

/-- Whether a preparation leaves memory at the least length, from the present one on, that a region
fits into, and fails only if no length would do that the advisor admits and a memory can have. -/
structure PreparesLeast (m : Machine) (byte : UInt8) (region : Region) : Prop where
  done : (m.step (.prepare byte)).1 = .ok .done →
    IsLeast {n | m.memory.length ≤ n ∧ region.FitsIn n} (m.step (.prepare byte)).2.memory.length
  failed : (m.step (.prepare byte)).1 ≠ .ok .done →
    ∀ n ≤ m.advisor.limit, n ≤ Bytes.greatestSize → ¬region.FitsIn n

/-- What a preparation does, told by the bounds on the region. -/
theorem step_prepare_cases {m : Machine} {byte : UInt8} {region : Region}
    (h : m.region? byte = some region) :
    region.finish ≤ m.advisor.limit ∧ region.finish ≤ Bytes.greatestSize ∧
        (m.step (.prepare byte)).1 = .ok .done ∧
        (m.step (.prepare byte)).2.memory.length = max m.memory.length region.finish ∨
      (m.advisor.limit < region.finish ∨ Bytes.greatestSize < region.finish) ∧
        (m.step (.prepare byte)).1 ≠ .ok .done := by
  rw [step_prepare_of_eq_some h]
  by_cases hlimit : region.finish ≤ m.advisor.limit
  · by_cases hsize : region.finish ≤ Bytes.greatestSize
    · rw [if_pos hlimit, if_pos hsize]
      exact .inl ⟨hlimit, hsize, rfl, rfl⟩
    · rw [if_pos hlimit, if_neg hsize]
      exact .inr ⟨.inr (Nat.lt_of_not_le hsize), by simp⟩
  · rw [if_neg hlimit]
    exact .inr ⟨.inl (Nat.lt_of_not_le hlimit), by simp⟩

/-- **The least length, except for nothing.** A preparation that succeeds leaves memory at a length
that reaches to the end of the region. It asks for no more than it has to, and fails only where no
length would do, if the region has bytes in it; a region without bytes has to have its offset within
memory and within the bounds for this. -/
theorem step_prepare_isLeast_iff {m : Machine} {byte : UInt8} {region : Region}
    (h : m.region? byte = some region) :
    ((m.step (.prepare byte)).1 = .ok .done →
      (m.step (.prepare byte)).2.memory.length = max m.memory.length region.finish) ∧
    (m.PreparesLeast byte region ↔ region.length ≠ 0 ∨
      region.offset.toNat ≤ m.memory.length ∧ region.offset.toNat ≤ m.advisor.limit ∧
        region.offset.toNat ≤ Bytes.greatestSize) := by
  rcases step_prepare_cases h with ⟨hlimit, hsize, hdone, hlength⟩ | ⟨hbeyond, hfailed⟩
  · have hoffset : region.offset.toNat ≤ region.finish := Nat.le_add_right _ _
    have hleast : m.PreparesLeast byte region ↔
        IsLeast {n | m.memory.length ≤ n ∧ region.FitsIn n}
          (max m.memory.length region.finish) := by
      constructor
      · intro hprepares
        exact hlength ▸ hprepares.done hdone
      · intro hleast
        exact ⟨fun _ ↦ hlength ▸ hleast, fun hfailed ↦ absurd hdone hfailed⟩
    refine ⟨fun _ ↦ hlength, ?_⟩
    rw [hleast, Region.isLeast_max_finish_iff]
    have hlimit' := Nat.le_trans hoffset hlimit
    have hsize' := Nat.le_trans hoffset hsize
    tauto
  · refine ⟨fun hdone ↦ absurd hdone hfailed, ?_⟩
    constructor
    · intro hprepares
      -- an empty region would fit into no length at all
      refine .inl fun hempty ↦ ?_
      have hnone := hprepares.failed hfailed 0 (Nat.zero_le _) (Nat.zero_le _)
      exact hnone (Region.fitsIn_iff.mpr (.inl hempty))
    · intro hregion
      refine ⟨fun hdone ↦ absurd hdone hfailed, ?_⟩
      intro _ n hlimit hsize hfits
      have hempty : region.length = 0 := by
        rcases Region.fitsIn_iff.mp hfits with hempty | hfinish
        · exact hempty
        · omega
      have hfinish : region.finish = region.offset.toNat :=
        region.finish_eq_of_length_eq_zero hempty
      have hwithin := hregion.resolve_left (not_not.mpr hempty)
      omega

/-- A machine that is about to copy no bytes to position five, with a memory of three. -/
def copyingNothing : Machine := ⟨Memory.empty.resize 3, ⟨[5, 0, 0]⟩, GrowthAdvisor.standard⟩

theorem step_prepare_isLeast_iff_copyingNothing :
    (copyingNothing.region? Opcode.codeCopy.byte = some ⟨5, 0⟩ ∧
      (copyingNothing.step (.prepare Opcode.codeCopy.byte)).1 = .ok .done) ∧
    (copyingNothing.step (.prepare Opcode.codeCopy.byte)).2.memory.length = 5 ∧
    ¬copyingNothing.PreparesLeast Opcode.codeCopy.byte ⟨5, 0⟩ := by
  have hregion : copyingNothing.region? Opcode.codeCopy.byte = some ⟨5, 0⟩ := by decide
  have hdone : (copyingNothing.step (.prepare Opcode.codeCopy.byte)).1 = .ok .done := by rfl
  have hspec := step_prepare_isLeast_iff hregion
  refine ⟨⟨hregion, hdone⟩, hspec.1 hdone, ?_⟩
  rw [hspec.2]
  decide

/-- Memory grows although no bytes are to be copied. -/
theorem not_forall_preparesLeast :
    ¬ ∀ (m : Machine) (byte : UInt8) (region : Region), m.region? byte = some region →
      m.PreparesLeast byte region := by
  intro h
  have hregion : copyingNothing.region? Opcode.codeCopy.byte = some ⟨5, 0⟩ := by decide
  have hdone : (copyingNothing.step (.prepare Opcode.codeCopy.byte)).1 = .ok .done := by rfl
  have hlength : (copyingNothing.step (.prepare Opcode.codeCopy.byte)).2.memory.length = 5 := by rfl
  have hfits : Region.FitsIn ⟨5, 0⟩ 3 := Region.fitsIn_iff.mpr (.inl rfl)
  have hleast := ((h _ _ _ hregion).done hdone).2 ⟨Nat.le_refl 3, hfits⟩
  rw [hlength] at hleast
  exact absurd hleast (by decide)

end Machine

end ExecState
