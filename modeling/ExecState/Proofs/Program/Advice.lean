import ExecState.Program.Requests
import ExecState.Proofs.Machine.Charges
import ExecState.Proofs.Machine.Preparation
import ExecState.Proofs.Text.Numeral
import ExecState.Proofs.Text.Unsigned

/-!
# Advice from the words of a request

A request names an instruction and its operands in words, and the words have many spellings:
letters of either case, a byte in place of the mnemonic, decimal and hexadecimal numerals, operands
that nobody looks at. None of this has a part in the advice. What a request comes to is an
instruction and the region that it touches (`AdviceRequest.Asks`), and once these are known the
advice is a matter of four comparisons (`adviseOn`).

So everything about spellings is proved of what a request comes to, and everything about lengths
and prices is proved of `adviseOn`; the two meet in `AdviceRequest.Asks.advise_eq_adviseOn`. The
limit of the settings may lie past the greatest size of a byte string, and where advice would need
a memory of more bytes it breaks off.
-/

namespace ExecState

/-! ## Names of instructions -/

namespace Opcode

/-- Whether a text names an instruction: by its mnemonic in letters of either case, or by its byte
in hexadecimal behind the mark. -/
def IsNamedBy (op : Opcode) (text : String) : Prop :=
  text.toList.map Char.toUpper = op.mnemonic.toList ∨
    ∃ digits, text.toList = '0' :: 'x' :: digits ∧ Unsigned.Spells 16 digits op.byte.toNat

variable {op : Opcode}

theorem ofByte?_eq_some_iff {b : UInt8} : ofByte? b = some op ↔ op.byte = b := by
  constructor
  · intro h
    rw [ofByte?] at h
    simpa using List.find?_some h
  · rintro rfl
    exact ofByte?_byte op

theorem ofMnemonic?_eq_some_iff {text : String} :
    ofMnemonic? text = some op ↔ text.toList.map Char.toUpper = op.mnemonic.toList := by
  constructor
  · intro h
    rw [ofMnemonic?] at h
    have hop := List.find?_some h
    exact (of_decide_eq_true hop).symm
  · intro h
    rw [ofMnemonic?, h]
    cases op <;> decide

theorem map_toUpper_ne_mnemonic (digits : List Char) :
    ('0' :: 'x' :: digits).map Char.toUpper ≠ op.mnemonic.toList := by
  have hhead : op.mnemonic.toList.head? ≠ some '0' := by cases op <;> decide
  intro h
  rw [← h] at hhead
  exact hhead rfl

end Opcode

namespace Program

namespace AdviceRequest

theorem readOpcode_eq_ok_iff {text : String} {op : Opcode} :
    readOpcode text = .ok op ↔ op.IsNamedBy text ∧ op.family?.isSome := by
  have hread : ∀ named : Option Opcode, (∀ op, named = some op ↔ op.IsNamedBy text) →
      ((match named.filter (·.family?.isSome) with
        | some op => .ok op
        | none => .error (.notMemoryOpcode text) : Except Failure Opcode) = .ok op
          ↔ op.IsNamedBy text ∧ op.family?.isSome) := by
    intro named hnamed
    have hfilter : named.filter (·.family?.isSome) = some op
        ↔ named = some op ∧ op.family?.isSome := Option.filter_eq_some_iff
    rw [← hnamed, ← hfilter]
    cases named.filter (·.family?.isSome) <;> simp
  rw [readOpcode]
  refine hread _ fun op ↦ ?_
  split
  · rename_i digits htext
    have hbyte : (Unsigned.readHexByte digits).toOption.bind Opcode.ofByte? = some op
        ↔ Unsigned.readHexByte digits = .ok op.byte := by
      cases Unsigned.readHexByte digits with
      | error e => simp [Except.toOption]
      | ok b =>
        simp only [Except.toOption, Option.bind_some, Opcode.ofByte?_eq_some_iff, Except.ok.injEq]
        exact eq_comm
    rw [hbyte, Unsigned.readHexByte_eq_ok_iff, Opcode.IsNamedBy, htext]
    constructor
    · exact fun h ↦ .inr ⟨digits, rfl, h⟩
    · rintro (h | ⟨_, ⟨⟩, h⟩)
      · exact absurd h (Opcode.map_toUpper_ne_mnemonic digits)
      · exact h
  · rename_i htext
    rw [Opcode.ofMnemonic?_eq_some_iff, Opcode.IsNamedBy]
    exact ⟨.inl, fun h ↦ h.resolve_right fun ⟨digits, hdigits, _⟩ ↦ htext digits hdigits⟩

/-! ## Operands -/

/-- Whether a text denotes a number: in decimal, or in hexadecimal behind the mark. -/
def Denotes (text : String) (v : U256) : Prop :=
  Numeral.Spells 10 text.toList v.toNat ∨
    ∃ digits, text.toList = '0' :: 'x' :: digits ∧ Numeral.Spells 16 digits v.toNat

theorem readOperand_eq_ok_iff {text : String} {v : U256} :
    readOperand text = .ok v ↔ Denotes text v := by
  have hread : readOperand text = .ok v ↔ readNumeral text.toList = .ok v := by
    rw [readOperand]
    cases readNumeral text.toList <;> simp
  rw [hread, Denotes]
  fun_cases readNumeral text.toList with
  | case1 digits => simp [Numeral.readHex_eq_ok_iff, Quantity.not_spells_mark]
  | case2 cs hmark =>
    rw [Numeral.readDecimal_eq_ok_iff]
    exact ⟨.inl, fun h ↦ h.resolve_right fun ⟨digits, hdigits, _⟩ ↦ hmark digits hdigits⟩

theorem readStack_cons (text : String) (rest : List String) :
    readStack (text :: rest) = do
      let s ← readStack rest
      return s.push (← readOperand text) := rfl

theorem readStack_eq_ok_iff {texts : List String} {s : Stack} :
    readStack texts = .ok s ↔ List.Forall₂ Denotes texts s.values := by
  induction texts generalizing s with
  | nil =>
    rw [List.forall₂_nil_left_iff, readStack, Except.ok.injEq]
    constructor
    · rintro rfl
      rfl
    · intro h
      rw [Stack.empty, ← h]
  | cons text rest ih =>
    rw [readStack_cons, bind_eq_ok_iff, List.forall₂_cons_left_iff]
    constructor
    · rintro ⟨below, hrest, hread⟩
      obtain ⟨v, htext, hv⟩ := bind_eq_ok_iff.mp hread
      exact ⟨v, below.values, readOperand_eq_ok_iff.mp htext, ih.mp hrest, Except.ok.inj hv ▸ rfl⟩
    · rintro ⟨v, values, htext, hrest, hvalues⟩
      refine ⟨⟨values⟩, ih.mpr hrest, bind_eq_ok_iff.mpr ⟨v, readOperand_eq_ok_iff.mpr htext, ?_⟩⟩
      rw [Stack.push, ← hvalues]
      rfl

theorem readStack_append {extra : List String} {values : List U256}
    (h : List.Forall₂ Denotes extra values) (texts : List String) :
    readStack (texts ++ extra) = (readStack texts).map fun s ↦ ⟨s.values ++ values⟩ := by
  induction texts with
  | nil => exact readStack_eq_ok_iff.mpr h
  | cons text rest ih =>
    rw [List.cons_append, readStack_cons, readStack_cons, ih]
    cases readStack rest with
    | error e => rfl
    | ok s => cases readOperand text <;> rfl

theorem readStack_congr {texts texts' : List String}
    (h : List.Forall₂ (fun t t' ↦ t = t' ∨ ∃ v, Denotes t v ∧ Denotes t' v) texts texts') :
    readStack texts = readStack texts' := by
  induction h with
  | nil => rfl
  | cons htext _ ih =>
    rw [readStack_cons, readStack_cons, ih]
    rcases htext with rfl | ⟨v, hv, hv'⟩
    · rfl
    · rw [readOperand_eq_ok_iff.mpr hv, readOperand_eq_ok_iff.mpr hv']

end AdviceRequest

/-! ## Advice on a region -/

/-- The advice on an instruction that touches a region, for a memory of some length. -/
def adviseOn (c : Configuration) (op : Opcode) (region : Region) (memory : Nat) :
    Except Failure Advice :=
  if c.maxMemorySize.toNat < memory then .error (.memoryPastLimit memory c.maxMemorySize.toNat)
  else if Bytes.greatestSize < memory then .error (.exhausted memory)
  else if region.finish ≤ c.maxMemorySize.toNat then
    if Bytes.greatestSize < max memory region.finish then
      .error (.exhausted (max memory region.finish))
    else .ok ⟨op.mnemonic, max memory region.finish,
      (Memory.empty.resize memory).expansionCost (max memory region.finish)⟩
  else .error (.growth (.limitExceeded region c.maxMemorySize.toNat))

variable {c : Configuration} {op : Opcode} {region : Region} {memory : Nat}

theorem adviseOn_eq_ok_iff {a : Advice} :
    adviseOn c op region memory = .ok a ↔
      memory ≤ c.maxMemorySize.toNat ∧ region.finish ≤ c.maxMemorySize.toNat ∧
      memory ≤ Bytes.greatestSize ∧ region.finish ≤ Bytes.greatestSize ∧
      a = ⟨op.mnemonic, max memory region.finish,
        (Memory.empty.resize memory).expansionCost (max memory region.finish)⟩ := by
  rw [adviseOn]
  split
  · exact iff_of_false (by simp) (by omega)
  · split
    · exact iff_of_false (by simp) (by omega)
    · split
      · split
        · exact iff_of_false (by simp) (by omega)
        · rename_i hmemory hsize hfinish hgrown
          have hbounds : region.finish ≤ Bytes.greatestSize := by omega
          simp only [Except.ok.injEq, hfinish, hbounds, Nat.not_lt.mp hmemory, Nat.not_lt.mp hsize,
            true_and]
          exact eq_comm
      · exact iff_of_false (by simp) (by omega)

theorem exists_adviseOn_eq_ok_iff :
    (∃ a, adviseOn c op region memory = .ok a) ↔
      memory ≤ c.maxMemorySize.toNat ∧ region.finish ≤ c.maxMemorySize.toNat ∧
      memory ≤ Bytes.greatestSize ∧ region.finish ≤ Bytes.greatestSize := by
  simp only [adviseOn_eq_ok_iff, ← and_assoc, exists_and_left, exists_eq, and_true]

/-- Advice breaks off where a memory would have more bytes than a byte string can have, and none of
the limits of the settings stands in the way. -/
theorem exists_adviseOn_fatal_iff :
    (∃ e, adviseOn c op region memory = .error e ∧ e.isFatal) ↔
      memory ≤ c.maxMemorySize.toNat ∧
      (Bytes.greatestSize < memory ∨
        region.finish ≤ c.maxMemorySize.toNat ∧ Bytes.greatestSize < region.finish) := by
  rw [adviseOn]
  split
  · exact iff_of_false (by simp [Failure.isFatal]) (by omega)
  · split
    · exact iff_of_true ⟨_, rfl, rfl⟩ (by omega)
    · split
      · split
        · exact iff_of_true ⟨_, rfl, rfl⟩ (by omega)
        · exact iff_of_false (by simp) (by omega)
      · exact iff_of_false (by simp [Failure.isFatal]) (by omega)

theorem toNat_expansionCost_of_le {length : Nat} (h : memory ≤ length)
    (hlength : length < 2 ^ 64) :
    (((Memory.empty.resize memory).expansionCost length).toNat : Int)
      = Gas.price length - Gas.price memory := by
  have hmemory : (Memory.empty.resize memory).length = memory := Nat.zero_max memory
  have hmono := Gas.price_mono h
  rw [Memory.toNat_expansionCost (by omega) hlength, hmemory]
  omega

/-! ## What a request comes to -/

namespace AdviceRequest

/-- The region that an instruction of a family touches, as operands say. -/
def readRegion (family : MemoryFamily) (texts : List String) : Except Failure Region :=
  (readStack texts).map fun s ↦ family.region s.peek

/-- The region is read exactly from operands that all denote something, and the missing ones count
as zero. -/
theorem readRegion_eq_ok_iff {family : MemoryFamily} {texts : List String} {region : Region} :
    readRegion family texts = .ok region ↔ ∃ values, List.Forall₂ Denotes texts values ∧
      region = family.region fun i ↦ values.getD i 0 := by
  have hmap : readRegion family texts = .ok region ↔
      ∃ s, readStack texts = .ok s ∧ family.region s.peek = region := by
    rw [readRegion]
    cases readStack texts <;> simp [Except.map]
  rw [hmap]
  constructor
  · rintro ⟨s, hread, rfl⟩
    exact ⟨s.values, readStack_eq_ok_iff.mp hread, rfl⟩
  · rintro ⟨values, hread, rfl⟩
    exact ⟨⟨values⟩, readStack_eq_ok_iff.mpr hread, rfl⟩

theorem advise_of_named {text : String} {family : MemoryFamily} (hop : op.IsNamedBy text)
    (hfamily : op.family? = some family) (operands : List String) (memory : Nat) :
    advise c ⟨text, operands, memory⟩
      = readRegion family operands >>= fun region ↦ adviseOn c op region memory := by
  have hread : readOpcode text = .ok op :=
    readOpcode_eq_ok_iff.mpr ⟨hop, Option.isSome_of_eq_some hfamily⟩
  have hbyte : MemoryFamily.ofByte? op.byte = some family := by
    rw [MemoryFamily.ofByte?, Opcode.ofByte?_byte]
    exact hfamily
  rw [advise, hread, readRegion]
  cases readStack operands with
  | error e => rfl
  | ok s =>
    let region := family.region s.peek
    let before := Memory.empty.resize memory
    have hlength : (before.resize region.finish).length = max memory region.finish :=
      congrArg (max · region.finish) (Nat.zero_max memory)
    have hprepare := Machine.prepare_eq ⟨c.maxMemorySize.toNat⟩ hbyte s before
    change (if _ then _ else _) = adviseOn c op region memory
    rw [adviseOn, ← hlength]
    split
    · rfl
    · split
      · rfl
      · by_cases hfinish : region.finish ≤ c.maxMemorySize.toNat
        · rw [if_pos hfinish] at hprepare
          rw [if_pos hfinish]
          dsimp only
          rw [hprepare]
          rfl
        · rw [if_neg hfinish] at hprepare
          rw [if_neg hfinish]
          dsimp only
          rw [hprepare]
          rfl

theorem advise_of_readOpcode_eq_error {text : String} {e : Failure}
    (h : readOpcode text = .error e) (operands : List String) (memory : Nat) :
    advise c ⟨text, operands, memory⟩ = .error e := by
  rw [advise, h]
  rfl

/-- Whether a request is about an instruction that touches memory, with operands by which it touches
this region. Operands that are missing count as zero. -/
def Asks (r : AdviceRequest) (op : Opcode) (region : Region) : Prop :=
  op.IsNamedBy r.opcode ∧ ∃ family values, op.family? = some family ∧
    List.Forall₂ Denotes r.operands values ∧ region = family.region fun i ↦ values.getD i 0

theorem Asks.advise_eq_adviseOn {r : AdviceRequest} (h : r.Asks op region) :
    advise c r = adviseOn c op region r.memory := by
  obtain ⟨hop, family, values, hfamily, hvalues, hregion⟩ := h
  have hread : readRegion family r.operands = .ok region :=
    readRegion_eq_ok_iff.mpr ⟨values, hvalues, hregion⟩
  calc advise c r
      = readRegion family r.operands >>= fun region ↦ adviseOn c op region r.memory :=
        advise_of_named hop hfamily r.operands r.memory
    _ = adviseOn c op region r.memory := by
      rw [hread]
      rfl

theorem readOpcode_eq_error {text : String} {e : Failure} (h : readOpcode text = .error e) :
    e = .notMemoryOpcode text := by
  simp only [readOpcode] at h
  split at h
  · cases h
  · exact (Except.error.inj h).symm

theorem readStack_eq_error {texts : List String} {e : Failure} (h : readStack texts = .error e) :
    ∃ text ∈ texts, ∃ cause, e = .invalidOperand text cause := by
  induction texts with
  | nil => cases h
  | cons text rest ih =>
    rw [readStack_cons] at h
    cases hrest : readStack rest with
    | error e' =>
      rw [hrest] at h
      obtain ⟨text', hmem, cause, rfl⟩ := ih (hrest.trans h)
      exact ⟨text', .tail _ hmem, cause, rfl⟩
    | ok s =>
      rw [hrest] at h
      cases hread : readNumeral text.toList with
      | ok v =>
        simp only [readOperand, hread] at h
        cases h
      | error cause =>
        simp only [readOperand, hread] at h
        exact ⟨text, .head _, cause, (Except.error.inj h).symm⟩

/-- A request that comes to nothing is refused, and the refusal does not break anything off. -/
theorem exists_asks_or_refused (c : Configuration) (r : AdviceRequest) :
    (∃ op region, r.Asks op region) ∨ ∃ e, advise c r = .error e ∧ e.isFatal = false := by
  cases hread : readOpcode r.opcode with
  | error e =>
    refine .inr ⟨e, advise_of_readOpcode_eq_error hread r.operands r.memory, ?_⟩
    rw [readOpcode_eq_error hread]
    rfl
  | ok op =>
    obtain ⟨hop, hsome⟩ := readOpcode_eq_ok_iff.mp hread
    obtain ⟨family, hfamily⟩ := Option.isSome_iff_exists.mp hsome
    cases hstack : readStack r.operands with
    | error e =>
      obtain ⟨text, -, cause, rfl⟩ := readStack_eq_error hstack
      refine .inr ⟨.invalidOperand text cause, ?_, rfl⟩
      refine (advise_of_named hop hfamily r.operands r.memory).trans ?_
      rw [readRegion, hstack]
      rfl
    | ok s =>
      have hvalues := readStack_eq_ok_iff.mp hstack
      exact .inl ⟨op, _, hop, family, s.values, hfamily, hvalues, rfl⟩

/-- What holds of no refusal holds of the advice on a request exactly if the request comes to a
region on whose advice it holds. -/
theorem holds_advise_iff {r : AdviceRequest} (P : Except Failure Advice → Prop) {Q : Region → Prop}
    (hregion : ∀ op region, P (adviseOn c op region r.memory) ↔ Q region)
    (hrefused : ∀ e, e.isFatal = false → ¬P (.error e)) :
    P (advise c r) ↔ ∃ op region, r.Asks op region ∧ Q region := by
  constructor
  · intro h
    rcases exists_asks_or_refused c r with ⟨op, region, hasks⟩ | ⟨e, he, hfatal⟩
    · rw [hasks.advise_eq_adviseOn] at h
      exact ⟨op, region, hasks, (hregion op region).mp h⟩
    · exact absurd (he ▸ h) (hrefused e hfatal)
  · rintro ⟨op, region, hasks, hq⟩
    rw [hasks.advise_eq_adviseOn]
    exact (hregion op region).mpr hq

/-! ## Other words for the same -/

theorem readRegion_append {family : MemoryFamily} {texts extra : List String} {values : List U256}
    (hextra : List.Forall₂ Denotes extra values)
    (hpeek : ∀ s, readStack texts = .ok s → ∀ i < family.operands,
      Stack.peek ⟨s.values ++ values⟩ i = s.peek i) :
    readRegion family (texts ++ extra) = readRegion family texts := by
  rw [readRegion, readRegion, readStack_append hextra]
  cases hread : readStack texts with
  | error e => rfl
  | ok s => exact congrArg Except.ok (family.region_congr (hpeek s hread))

theorem peek_append_of_lt {s : Stack} {i : Nat} (h : i < s.depth) (values : List U256) :
    Stack.peek ⟨s.values ++ values⟩ i = s.peek i := by
  rw [Stack.peek, Stack.peek, List.getElem?_append_left h]

theorem peek_append_replicate_zero (s : Stack) (n i : Nat) :
    Stack.peek ⟨s.values ++ List.replicate n 0⟩ i = s.peek i := by
  by_cases h : i < s.depth
  · exact peek_append_of_lt h _
  · have hdepth : s.values.length ≤ i := Nat.not_lt.mp h
    rw [Stack.peek, Stack.peek, List.getElem?_append_right hdepth, List.getElem?_eq_none hdepth,
      List.getElem?_replicate]
    split <;> rfl

/-- One request put in the words of another. -/
inductive Respelling : AdviceRequest → AdviceRequest → Prop
  /-- An instruction that touches memory is named in another way. -/
  | opcode {op : Opcode} {text text' : String} (operands : List String) (memory : Nat)
      (touches : op.family?.isSome) (named : op.IsNamedBy text) (named' : op.IsNamedBy text') :
      Respelling ⟨text, operands, memory⟩ ⟨text', operands, memory⟩
  /-- Operands are written in another way. -/
  | operands (text : String) (memory : Nat) {operands operands' : List String}
      (equal : List.Forall₂ (fun t t' ↦ t = t' ∨ ∃ v, Denotes t v ∧ Denotes t' v)
        operands operands') :
      Respelling ⟨text, operands, memory⟩ ⟨text, operands', memory⟩
  /-- Operands are added to all those that the instruction reads. -/
  | surplus {op : Opcode} {family : MemoryFamily} {text : String} {operands extra : List String}
      (memory : Nat) (named : op.IsNamedBy text) (touches : op.family? = some family)
      (enough : family.operands ≤ operands.length) (denote : ∀ t ∈ extra, ∃ v, Denotes t v) :
      Respelling ⟨text, operands, memory⟩ ⟨text, operands ++ extra, memory⟩
  /-- Zeros are added below the operands. -/
  | zeros (text : String) (operands : List String) (memory : Nat) {extra : List String}
      (zero : ∀ t ∈ extra, Denotes t 0) :
      Respelling ⟨text, operands, memory⟩ ⟨text, operands ++ extra, memory⟩

theorem Respelling.advise_eq {r r' : AdviceRequest} (h : Respelling r r') :
    advise c r' = advise c r := by
  cases h with
  | opcode operands memory touches named named' =>
    obtain ⟨family, hfamily⟩ := Option.isSome_iff_exists.mp touches
    rw [advise_of_named named' hfamily, advise_of_named named hfamily]
  | operands text memory equal => simp only [advise, readStack_congr equal]
  | @surplus op family text operands extra memory named touches enough denote =>
    choose! value hvalue using denote
    have hvalues : List.Forall₂ Denotes extra (extra.map value) :=
      List.forall₂_map_right_iff.mpr (List.forall₂_same.mpr hvalue)
    have hregion : readRegion family (operands ++ extra) = readRegion family operands := by
      refine readRegion_append hvalues fun s hread i hi ↦ ?_
      have hdepth : operands.length = s.depth := (readStack_eq_ok_iff.mp hread).length_eq
      exact peek_append_of_lt (by omega) _
    rw [advise_of_named named touches, advise_of_named named touches, hregion]
  | @zeros text operands memory extra zero =>
    have hvalues : List.Forall₂ Denotes extra (List.replicate extra.length 0) := by
      rw [← List.map_const', List.forall₂_map_right_iff, List.forall₂_same]
      exact zero
    cases hread : readOpcode text with
    | error e =>
      rw [advise_of_readOpcode_eq_error hread, advise_of_readOpcode_eq_error hread]
    | ok op =>
      obtain ⟨hop, hsome⟩ := readOpcode_eq_ok_iff.mp hread
      obtain ⟨family, hfamily⟩ := Option.isSome_iff_exists.mp hsome
      have hregion : readRegion family (operands ++ extra) = readRegion family operands :=
        readRegion_append hvalues fun s _ i _ ↦ peek_append_replicate_zero s _ i
      rw [advise_of_named hop hfamily, advise_of_named hop hfamily, hregion]

end AdviceRequest

/-- **Advice from end to end.** There is advice exactly on a request that comes to an instruction
and a region, where the memory at hand and the end of the region stay within the limit of the
settings and within the greatest size of a byte string; where the second bound alone is passed the
command breaks off. Advice tells the greater of the two lengths and the difference of the prices.
Other words for the same request yield the same. -/
theorem advise_answers (c : Configuration) (r : AdviceRequest) :
    ((∃ a, advise c r = .ok a) ↔ ∃ op region, r.Asks op region ∧
      r.memory ≤ c.maxMemorySize.toNat ∧ region.finish ≤ c.maxMemorySize.toNat ∧
      r.memory ≤ Bytes.greatestSize ∧ region.finish ≤ Bytes.greatestSize) ∧
    ((∃ e, advise c r = .error e ∧ e.isFatal) ↔ ∃ op region, r.Asks op region ∧
      r.memory ≤ c.maxMemorySize.toNat ∧
      (Bytes.greatestSize < r.memory ∨
        region.finish ≤ c.maxMemorySize.toNat ∧ Bytes.greatestSize < region.finish)) ∧
    (∀ op region a, r.Asks op region → advise c r = .ok a →
      a.mnemonic = op.mnemonic ∧ a.length = max r.memory region.finish ∧
      a.length ≤ c.maxMemorySize.toNat ∧
      (a.expansionCost.toNat : Int) = Gas.price a.length - Gas.price r.memory) ∧
    ∀ r', r.Respelling r' → advise c r' = advise c r := by
  have hok := AdviceRequest.holds_advise_iff (r := r) (c := c) (fun x ↦ ∃ a, x = .ok a)
    (fun op region ↦ exists_adviseOn_eq_ok_iff) (by simp)
  have hfatal := AdviceRequest.holds_advise_iff (r := r) (c := c)
    (fun x ↦ ∃ e, x = .error e ∧ e.isFatal) (fun op region ↦ exists_adviseOn_fatal_iff) (by simp)
  refine ⟨hok, hfatal, ?_, fun r' h ↦ h.advise_eq⟩
  intro op region a hasks ha
  rw [hasks.advise_eq_adviseOn, adviseOn_eq_ok_iff] at ha
  obtain ⟨hmemory, hfinish, -, -, rfl⟩ := ha
  have hlimit := c.maxMemorySize.toNat_lt
  refine ⟨rfl, rfl, Nat.max_le.mpr ⟨hmemory, hfinish⟩, ?_⟩
  exact toNat_expansionCost_of_le (Nat.le_max_left _ _) (by omega)

/-- The limit of the settings is as great as it can be. -/
def unlimited : Configuration := ⟨18446744073709551615, 4, false⟩

/-- A byte is to be stored at the position that no byte string reaches. -/
def unreachable : AdviceRequest := ⟨"MSTORE8", ["9223372036854775808"], 0⟩

theorem unreachable_asks : unreachable.Asks .mstore8 ⟨9223372036854775808, 1⟩ := by
  have hnamed : Opcode.mstore8.IsNamedBy "MSTORE8" := .inl (by decide)
  have hread : AdviceRequest.readOperand "9223372036854775808" = .ok 9223372036854775808 := by
    decide +kernel
  exact ⟨hnamed, .store8, [9223372036854775808], rfl,
    .cons (AdviceRequest.readOperand_eq_ok_iff.mp hread) .nil, rfl⟩

/-- The limit of the settings alone does not decide whether there is advice. -/
theorem not_forall_exists_advise_iff :
    ¬∀ (c : Configuration) (r : AdviceRequest), (∃ a, advise c r = .ok a) ↔
      ∃ op region, r.Asks op region ∧
        r.memory ≤ c.maxMemorySize.toNat ∧ region.finish ≤ c.maxMemorySize.toNat := by
  intro h
  have hok : ∃ a, advise unlimited unreachable = .ok a :=
    (h unlimited unreachable).mpr ⟨_, _, unreachable_asks, Nat.zero_le _, by decide +kernel⟩
  rw [unreachable_asks.advise_eq_adviseOn, exists_adviseOn_eq_ok_iff] at hok
  exact absurd hok (by decide +kernel)

/-- A word is to be stored behind the first one, of three bytes. -/
def storing : AdviceRequest := ⟨"mStore", ["0x20", "7"], 3⟩

theorem storing_asks : storing.Asks .mstore ⟨32, 32⟩ := by
  have hnamed : Opcode.mstore.IsNamedBy "mStore" := .inl (by decide)
  have hoffset : AdviceRequest.readOperand "0x20" = .ok 32 := by decide +kernel
  have hword : AdviceRequest.readOperand "7" = .ok 7 := by decide +kernel
  exact ⟨hnamed, .store32, [32, 7], rfl, .cons (AdviceRequest.readOperand_eq_ok_iff.mp hoffset)
    (.cons (AdviceRequest.readOperand_eq_ok_iff.mp hword) .nil), rfl⟩

theorem storing_respelling : storing.Respelling ⟨"0x52", ["0x20", "7"], 3⟩ := by
  have hnamed : Opcode.mstore.IsNamedBy "mStore" := .inl (by decide)
  have hbyte : Unsigned.readHexByte ['5', '2'] = .ok Opcode.mstore.byte := by decide
  exact .opcode _ _ rfl hnamed (.inr ⟨_, rfl, Unsigned.readHexByte_eq_ok_iff.mp hbyte⟩)

theorem advise_answers_storing :
    (∃ a, advise .standard storing = .ok a ∧ a.mnemonic = "MSTORE" ∧ a.length = 64 ∧
      (a.expansionCost.toNat : Int) = 3) ∧
    advise .standard ⟨"0x52", ["0x20", "7"], 3⟩ = advise .standard storing := by
  obtain ⟨hok, -, hadvice, hsame⟩ := advise_answers .standard storing
  obtain ⟨a, ha⟩ : ∃ a, advise .standard storing = .ok a :=
    hok.mpr ⟨_, _, storing_asks, by decide +kernel⟩
  obtain ⟨hmnemonic, hlength, -, hcost⟩ := hadvice _ _ a storing_asks ha
  refine ⟨⟨a, ha, hmnemonic, hlength, ?_⟩, hsame _ storing_respelling⟩
  rw [hcost, hlength]
  decide

end Program
end ExecState
