import ExecState.Proofs.Rlp.Decoding
import Mathlib.Data.List.TakeWhile
import Mathlib.Tactic.Ring

/-!
# What a hexadecimal text stands for

A byte string has many spellings: there may be blanks around the text, a mark in front of the digits
or none, letters of either case and, where the length is fixed, any number of leading zeros. Here it
is said what all of them stand for without saying how they are read, by the values of digits at
their places (`Hex.Denotes`, `Hex.DenotesPadded`). The readers find a byte string exactly in the
texts that stand for it (`Hex.decode_eq_ok_iff`, `Hex.decodePadded_eq_ok_iff`).

One oddity is part of what is read: a plus sign stands for the digit zero where it is the first of a
pair. The texts without one are those that are hexadecimal in the usual sense
(`Hex.isHexadecimal_iff`).
-/

namespace ExecState

/-! ## Blanks around a text -/

namespace Text

theorem isBlank_eq_false {c : Char} (hlow : 0x20 < c.toNat) (hhigh : c.toNat < 0x85) :
    isBlank c = false := by
  have hval : c.val.toNat = c.toNat := rfl
  simp only [isBlank, Bool.or_eq_false_iff, Bool.and_eq_false_iff, decide_eq_false_iff_not,
    UInt32.le_iff_toNat_le, ← UInt32.toNat_inj, hval]
  simp
  omega

/-- Whether a text is a body with nothing but blanks around it. -/
def Pads (s : String) (body : List Char) : Prop :=
  ∃ before after, s.toList = before ++ body ++ after ∧
    (∀ c ∈ before, isBlank c = true) ∧ ∀ c ∈ after, isBlank c = true

theorem pads_trim (s : String) : Pads s (trim s.toList) := by
  have hfront := List.takeWhile_append_dropWhile (p := isBlank) (l := s.toList)
  have hback := List.takeWhile_append_dropWhile (p := isBlank)
    (l := (s.toList.dropWhile isBlank).reverse)
  refine ⟨s.toList.takeWhile isBlank,
    ((s.toList.dropWhile isBlank).reverse.takeWhile isBlank).reverse, ?_, ?_, ?_⟩
  · rw [trim, List.append_assoc, ← List.reverse_append, hback, List.reverse_reverse, hfront]
  · exact fun c hc ↦ List.mem_takeWhile_imp hc
  · exact fun c hc ↦ List.mem_takeWhile_imp (List.mem_reverse.mp hc)

theorem Pads.mem_iff {s : String} {body : List Char} (h : Pads s body) {c : Char}
    (hc : isBlank c = false) : c ∈ s.toList ↔ c ∈ body := by
  obtain ⟨before, after, hs, hbefore, hafter⟩ := h
  have hout : isBlank c ≠ true := by simp [hc]
  rw [hs, List.mem_append, List.mem_append]
  constructor
  · rintro ((h | h) | h)
    · exact absurd (hbefore c h) hout
    · exact h
    · exact absurd (hafter c h) hout
  · exact fun h ↦ .inl (.inr h)

theorem Pads.trim_eq {s : String} {body : List Char} (h : Pads s body)
    (hbody : ∀ c ∈ body, isBlank c = false) : trim s.toList = body := by
  obtain ⟨before, after, hs, hbefore, hafter⟩ := h
  have hdrop : ∀ cs : List Char, (∀ c ∈ cs, isBlank c = false) → cs.dropWhile isBlank = cs := by
    intro cs hcs
    cases cs with
    | nil => rfl
    | cons c rest => simp [hcs c List.mem_cons_self]
  have hfront : s.toList.dropWhile isBlank = (body ++ after).dropWhile isBlank := by
    rw [hs, List.append_assoc, List.dropWhile_append_of_pos hbefore]
  rw [trim, hfront]
  cases body with
  | nil =>
    rw [List.nil_append, List.dropWhile_eq_nil_iff.mpr hafter]
    rfl
  | cons c rest =>
    have hc : isBlank c = false := hbody c List.mem_cons_self
    have hback : ∀ d ∈ after.reverse, isBlank d = true :=
      fun d hd ↦ hafter d (List.mem_reverse.mp hd)
    rw [List.cons_append, List.dropWhile_cons_of_neg (by simp [hc]), ← List.cons_append,
      List.reverse_append, List.dropWhile_append_of_pos hback,
      hdrop _ fun d hd ↦ hbody d (List.mem_reverse.mp hd), List.reverse_reverse]

end Text

/-! ## Byte strings and the numbers they denote -/

namespace Bytes

theorem toNat_cons (d : UInt8) (b : Bytes) :
    toNat (d :: b) = d.toNat * 256 ^ b.length + toNat b := by
  induction b using List.reverseRecOn with
  | nil => simp [toNat]
  | append_singleton b e ih =>
    rw [← List.cons_append, toNat_append_singleton, toNat_append_singleton, ih,
      List.length_append, List.length_singleton, Nat.pow_succ]
    ring

theorem toNat_replicate_zero_append (n : Nat) (b : Bytes) :
    toNat (List.replicate n 0 ++ b) = toNat b := by
  induction n with
  | zero => rfl
  | succ n ih =>
    rw [List.replicate_succ, List.cons_append, toNat_cons, ih]
    simp

theorem eq_of_toNat_eq {b c : Bytes} (hlength : b.length = c.length) (h : toNat b = toNat c) :
    b = c := by
  induction b using List.reverseRecOn generalizing c with
  | nil => exact (List.length_eq_zero_iff.mp hlength.symm).symm
  | append_singleton b d ih =>
    obtain rfl | ⟨c', e, rfl⟩ := List.eq_nil_or_concat c
    · simp at hlength
    rw [List.concat_eq_append] at hlength h ⊢
    rw [toNat_append_singleton, toNat_append_singleton] at h
    have hd := d.toNat_lt
    have he := e.toNat_lt
    have hlast : d = e := UInt8.toNat_inj.mp (by omega)
    have hinit : b = c' := by
      refine ih ?_ (by omega)
      simpa using hlength
    rw [hlast, hinit]

end Bytes

/-! ## Hexadecimal texts -/

namespace Hex

/-- The value of a digit of either case at a place, counted from the last one. A plus sign is a
zero where it is the first of a pair. -/
def digitAt? (place : Nat) (c : Char) : Option Nat :=
  if c = '+' ∧ place % 2 = 1 then some 0 else digitValue? c

/-- The number that a row of digits stands for. -/
def number? : List Char → Option Nat
  | [] => some 0
  | c :: rest =>
    (digitAt? rest.length c).bind fun d ↦ (number? rest).map fun n ↦ d * 16 ^ rest.length + n

/-- What may stand in front of the digits. -/
def marks : List (List Char) := [[], ['0', 'x'], ['0', 'X']]

/-- Whether a text spells a number with so many digits. -/
def Spells (text : String) (number length : Nat) : Prop :=
  ∃ mark ∈ marks, ∃ digits, Text.Pads text (mark ++ digits) ∧
    number? digits = some number ∧ digits.length = length

/-- Whether a text stands for a byte string: it spells its number, with two digits for each byte,
of which the very first may be missing. -/
def Denotes (text : String) (b : Bytes) : Prop :=
  ∃ length, Spells text (Bytes.toNat b) length ∧ b.length = (length + 1) / 2

/-- Whether a text stands for a byte string of fixed length: it spells its number, with two digits
for each byte at the most. -/
def DenotesPadded {width : Nat} (text : String) (w : FixedBytes width) : Prop :=
  ∃ length, Spells text (Bytes.toNat w.bytes) length ∧ (length + 1) / 2 ≤ width

theorem number?_cons_eq_some_iff {c : Char} {rest : List Char} {n : Nat} :
    number? (c :: rest) = some n
      ↔ ∃ d m, digitAt? rest.length c = some d ∧ number? rest = some m ∧
        n = d * 16 ^ rest.length + m := by
  rw [number?, Option.bind_eq_some_iff]
  refine exists_congr fun d ↦ ⟨fun ⟨hd, hmap⟩ ↦ ?_, fun ⟨m, hd, hm, hn⟩ ↦ ⟨hd, ?_⟩⟩
  · obtain ⟨m, hm, hn⟩ := Option.map_eq_some_iff.mp hmap
    exact ⟨m, hd, hm, hn.symm⟩
  · rw [hm, hn]
    rfl

theorem digitAt?_lt {place d : Nat} {c : Char} (h : digitAt? place c = some d) : d < 16 := by
  rw [digitAt?] at h
  split at h
  · cases h
    omega
  · exact digitValue?_lt h

theorem pairValue?_eq_some_iff {a b : Char} {x : UInt8} {n : Nat} (hn : n % 2 = 0) :
    pairValue? a b = some x
      ↔ ∃ d e, digitAt? (n + 1) a = some d ∧ digitAt? n b = some e ∧ x.toNat = d * 16 + e := by
  have hsecond : digitAt? n b = digitValue? b := if_neg fun h ↦ by omega
  have hvalue : ∀ {d e : Nat}, d < 16 → e < 16 →
      (some (UInt8.ofNat (d * 16 + e)) = some x ↔ x.toNat = d * 16 + e) := by
    intro d e hd he
    rw [Option.some_inj, ← UInt8.toNat_inj, UInt8.toNat_ofNat', Nat.mod_eq_of_lt (by omega)]
    exact eq_comm
  rw [pairValue?, hsecond]
  by_cases hplus : a = '+'
  · have hfirst : digitAt? (n + 1) a = some 0 := if_pos ⟨hplus, by omega⟩
    rw [if_pos hplus, hfirst]
    cases hb : digitValue? b with
    | none => simp
    | some e =>
      have he := digitValue?_lt hb
      simpa using hvalue (show 0 < 16 by omega) he
  · have hfirst : digitAt? (n + 1) a = digitValue? a := if_neg fun h ↦ hplus h.1
    rw [if_neg hplus, hfirst]
    cases ha : digitValue? a with
    | none => simp
    | some d =>
      cases hb : digitValue? b with
      | none => simp
      | some e => simpa using hvalue (digitValue?_lt ha) (digitValue?_lt hb)

theorem number?_of_pairs? {cs : List Char} {b : Bytes} (h : pairs? cs = some b) :
    number? cs = some (Bytes.toNat b) ∧ cs.length = 2 * b.length := by
  fun_induction pairs? cs generalizing b with
  | case1 =>
    cases h
    exact ⟨rfl, rfl⟩
  | case2 c => cases h
  | case3 a c rest ih =>
    obtain ⟨x, hx, hmap⟩ := Option.bind_eq_some_iff.mp h
    obtain ⟨b', hb', rfl⟩ := Option.map_eq_some_iff.mp hmap
    obtain ⟨hnumber, hlength⟩ := ih hb'
    have heven : rest.length % 2 = 0 := by omega
    obtain ⟨d, e, hd, he, hvalue⟩ := (pairValue?_eq_some_iff heven).mp hx
    have hrest := number?_cons_eq_some_iff.mpr ⟨e, Bytes.toNat b', he, hnumber, rfl⟩
    refine ⟨number?_cons_eq_some_iff.mpr ⟨d, _, hd, hrest, ?_⟩, ?_⟩
    · have hpow : 256 ^ b'.length = 16 ^ rest.length := by
        rw [hlength, Nat.pow_mul]
      rw [Bytes.toNat_cons, hvalue, hpow, List.length_cons, Nat.pow_succ]
      ring
    · rw [List.length_cons, List.length_cons, List.length_cons, hlength]
      ring

theorem exists_pairs? {cs : List Char} {n : Nat} (heven : cs.length % 2 = 0)
    (h : number? cs = some n) : ∃ b, pairs? cs = some b := by
  fun_induction pairs? cs generalizing n with
  | case1 => exact ⟨[], rfl⟩
  | case2 c => cases heven
  | case3 a c rest ih =>
    rw [List.length_cons, List.length_cons] at heven
    obtain ⟨d, m, hd, hm, -⟩ := number?_cons_eq_some_iff.mp h
    obtain ⟨e, k, he, hk, -⟩ := number?_cons_eq_some_iff.mp hm
    obtain ⟨b, hb⟩ := ih (by omega) hk
    have hd' := digitAt?_lt hd
    have he' := digitAt?_lt he
    have hx : (UInt8.ofNat (d * 16 + e)).toNat = d * 16 + e := by
      rw [UInt8.toNat_ofNat', Nat.mod_eq_of_lt (by omega)]
    have hpair := (pairValue?_eq_some_iff (n := rest.length) (by omega)).mpr ⟨d, e, hd, he, hx⟩
    rw [hpair, hb]
    exact ⟨_, rfl⟩

theorem range_of_digitAt? {place d : Nat} {c : Char} (h : digitAt? place c = some d) :
    0x20 < c.toNat ∧ c.toNat < 0x80 := by
  rw [digitAt?] at h
  split at h
  · rename_i hplus
    rw [hplus.1]
    decide
  · simp only [digitValue?, Char.le_def, UInt32.le_iff_toNat_le] at h
    have hval : c.val.toNat = c.toNat := rfl
    rw [hval] at h
    split at h
    · rename_i hc
      simp at hc
      omega
    · split at h
      · rename_i hc
        simp at hc
        omega
      · split at h
        · rename_i hc
          simp at hc
          omega
        · cases h

theorem utf8Size_of_digitAt? {place d : Nat} {c : Char} (h : digitAt? place c = some d) :
    c.utf8Size = 1 := by
  have hc := (range_of_digitAt? h).2
  rw [Char.utf8Size_eq_one_iff, UInt32.le_iff_toNat_le]
  exact Nat.lt_succ_iff.mp hc

theorem utf8Length_of_number? {cs : List Char} {n : Nat} (h : number? cs = some n) :
    utf8Length cs = cs.length := by
  induction cs generalizing n with
  | nil => rfl
  | cons c rest ih =>
    obtain ⟨d, m, hd, hm, -⟩ := number?_cons_eq_some_iff.mp h
    show c.utf8Size + utf8Length rest = rest.length + 1
    rw [utf8Size_of_digitAt? hd, ih hm, Nat.add_comm]

theorem number?_zero_cons (cs : List Char) : number? ('0' :: cs) = number? cs := by
  have hzero : digitAt? cs.length '0' = some 0 := if_neg fun h ↦ absurd h.1 (by decide)
  rw [number?, hzero]
  cases number? cs <;> simp

/-- A row of digits is read as the byte string of the number that it stands for, with two digits
for each byte, of which the very first may be missing. -/
theorem pairs?_completePairs_eq_some_iff {cs : List Char} {b : Bytes} :
    pairs? (completePairs cs) = some b
      ↔ number? cs = some (Bytes.toNat b) ∧ b.length = (cs.length + 1) / 2 := by
  rw [completePairs]
  refine ⟨fun h ↦ ?_, fun ⟨hnumber, hlength⟩ ↦ ?_⟩
  · split at h
    · obtain ⟨hnumber, hlength⟩ := number?_of_pairs? h
      rw [number?_zero_cons] at hnumber
      rw [List.length_cons] at hlength
      exact ⟨hnumber, by omega⟩
    · obtain ⟨hnumber, hlength⟩ := number?_of_pairs? h
      exact ⟨hnumber, by omega⟩
  · -- the bytes that are read are those with the given number, as there are as many of them
    have hfound : ∀ {ds : List Char}, number? ds = number? cs → ds.length % 2 = 0 →
        ds.length = 2 * b.length → pairs? ds = some b := by
      intro ds hds heven hdslength
      obtain ⟨b', hb'⟩ := exists_pairs? heven (hds.trans hnumber)
      obtain ⟨hnumber', hlength'⟩ := number?_of_pairs? hb'
      rw [hds, hnumber, Option.some_inj] at hnumber'
      rw [hb', Bytes.eq_of_toNat_eq (by omega) hnumber']
    rw [utf8Length_of_number? hnumber]
    split
    · exact hfound (number?_zero_cons cs) (by rw [List.length_cons]; omega)
        (by rw [List.length_cons]; omega)
    · exact hfound rfl (by omega) (by omega)

theorem exists_bytes {cs : List Char} {n : Nat} (h : number? cs = some n) :
    ∃ b, Bytes.toNat b = n ∧ b.length = (cs.length + 1) / 2 := by
  have hcompleted : number? (completePairs cs) = some n ∧ (completePairs cs).length % 2 = 0 := by
    rw [completePairs, utf8Length_of_number? h]
    split
    · exact ⟨(number?_zero_cons cs).trans h, by rw [List.length_cons]; omega⟩
    · exact ⟨h, by omega⟩
  obtain ⟨b, hb⟩ := exists_pairs? hcompleted.2 hcompleted.1
  obtain ⟨hnumber, hlength⟩ := pairs?_completePairs_eq_some_iff.mp hb
  exact ⟨b, Option.some_inj.mp (hnumber.symm.trans h), hlength⟩

/-! ### The mark and the blanks -/

theorem exists_mark (cs : List Char) : ∃ mark ∈ marks, cs = mark ++ dropMark cs := by
  fun_cases dropMark cs with
  | case1 rest => exact ⟨['0', 'x'], by simp [marks], rfl⟩
  | case2 rest => exact ⟨['0', 'X'], by simp [marks], rfl⟩
  | case3 => exact ⟨[], by simp [marks], rfl⟩

theorem dropMark_of_number? {digits : List Char} {n : Nat} (h : number? digits = some n) :
    dropMark digits = digits := by
  have hnone : ∀ (place : Nat) (c : Char), c = 'x' ∨ c = 'X' → digitAt? place c = none := by
    rintro place c (rfl | rfl) <;> exact if_neg fun h ↦ absurd h.1 (by decide)
  have hmark : ∀ (c : Char) (rest : List Char), c = 'x' ∨ c = 'X' →
      number? ('0' :: c :: rest) ≠ some n := by
    intro c rest hc hsome
    obtain ⟨_, m, _, hm, -⟩ := number?_cons_eq_some_iff.mp hsome
    obtain ⟨_, _, hx, -⟩ := number?_cons_eq_some_iff.mp hm
    rw [hnone _ c hc] at hx
    cases hx
  fun_cases dropMark digits with
  | case1 rest => exact absurd h (hmark 'x' rest (.inl rfl))
  | case2 rest => exact absurd h (hmark 'X' rest (.inr rfl))
  | case3 => rfl

theorem isBlank_of_mem_digits {digits : List Char} {n : Nat} (h : number? digits = some n) :
    ∀ c ∈ digits, Text.isBlank c = false := by
  induction digits generalizing n with
  | nil => simp
  | cons c rest ih =>
    obtain ⟨d, m, hd, hm, -⟩ := number?_cons_eq_some_iff.mp h
    intro x hx
    obtain rfl | hx := List.mem_cons.mp hx
    · obtain ⟨hlow, hhigh⟩ := range_of_digitAt? hd
      exact Text.isBlank_eq_false hlow (by omega)
    · exact ih hm x hx

theorem isBlank_of_mem_mark {mark : List Char} (h : mark ∈ marks) :
    ∀ c ∈ mark, Text.isBlank c = false := by
  have hmarks : ∀ m ∈ marks, ∀ c ∈ m, c = '0' ∨ c = 'x' ∨ c = 'X' := by simp [marks]
  intro c hc
  obtain rfl | rfl | rfl := hmarks mark h c hc <;> rfl

/-- There is one way at most to take a text apart into blanks, a mark and digits. -/
theorem spells_iff {text : String} {n length : Nat} :
    Spells text n length
      ↔ number? (dropMark (Text.trim text.toList)) = some n ∧
        (dropMark (Text.trim text.toList)).length = length := by
  refine ⟨fun ⟨mark, hmark, digits, hpads, hnumber, hlength⟩ ↦ ?_, fun ⟨hnumber, hlength⟩ ↦ ?_⟩
  · have hblank : ∀ c ∈ mark ++ digits, Text.isBlank c = false := by
      intro c hc
      obtain hc | hc := List.mem_append.mp hc
      · exact isBlank_of_mem_mark hmark c hc
      · exact isBlank_of_mem_digits hnumber c hc
    have hdrop : dropMark (mark ++ digits) = digits := by
      simp only [marks, List.mem_cons, List.not_mem_nil, or_false] at hmark
      obtain rfl | rfl | rfl := hmark
      · exact dropMark_of_number? hnumber
      · rfl
      · rfl
    rw [hpads.trim_eq hblank, hdrop]
    exact ⟨hnumber, hlength⟩
  · obtain ⟨mark, hmark, heq⟩ := exists_mark (Text.trim text.toList)
    exact ⟨mark, hmark, _, heq ▸ Text.pads_trim text, hnumber, hlength⟩

/-! ### The readers -/

/-- **A byte string is read exactly from the texts that stand for it.** -/
theorem decode_eq_ok_iff {text : String} {b : Bytes} : decode text = .ok b ↔ Denotes text b := by
  have hdecode : decode text = .ok b
      ↔ pairs? (completePairs (dropMark (Text.trim text.toList))) = some b := by
    rw [decode]
    cases pairs? (completePairs (dropMark (Text.trim text.toList))) <;> simp
  rw [hdecode, pairs?_completePairs_eq_some_iff]
  refine ⟨fun ⟨hnumber, hlength⟩ ↦ ⟨_, spells_iff.mpr ⟨hnumber, rfl⟩, hlength⟩, ?_⟩
  rintro ⟨length, hspells, hlength⟩
  obtain ⟨hnumber, rfl⟩ := spells_iff.mp hspells
  exact ⟨hnumber, hlength⟩

theorem decodePadded_eq_ok_iff_exists {width : Nat} (hwidth : width ≤ Bytes.greatestSize)
    {text : String} {w : FixedBytes width} :
    decodePadded width text = .ok w
      ↔ ∃ b, Denotes text b ∧ b.length ≤ width ∧ Bytes.toNat b = Bytes.toNat w.bytes := by
  rw [decodePadded]
  cases hdecode : decode text with
  | error e =>
    refine ⟨fun h ↦ (by cases h), fun ⟨b, hb, _⟩ ↦ ?_⟩
    rw [decode_eq_ok_iff.mpr hb] at hdecode
    cases hdecode
  | ok b =>
    have hb : ∀ {b'}, Denotes text b' ↔ b = b' := by
      intro b'
      rw [← decode_eq_ok_iff, hdecode, Except.ok.injEq]
    simp only [hb, exists_eq_left']
    split
    · rename_i hle
      rw [if_pos (by omega), Except.ok.injEq]
      have hvalue : Bytes.toNat (FixedBytes.leftPad width b hle).bytes = Bytes.toNat b :=
        Bytes.toNat_replicate_zero_append _ b
      refine ⟨fun h ↦ ⟨hle, by rw [← h, hvalue]⟩, fun ⟨_, h⟩ ↦ ?_⟩
      refine FixedBytes.bytes_injective (Bytes.eq_of_toNat_eq ?_ (hvalue.trans h))
      rw [FixedBytes.length_eq, FixedBytes.length_eq]
    · rename_i hle
      simp [hle]

/-- **A byte string of fixed length is read exactly from the texts that stand for it.** -/
theorem decodePadded_eq_ok_iff {width : Nat} (hwidth : width ≤ Bytes.greatestSize) {text : String}
    {w : FixedBytes width} : decodePadded width text = .ok w ↔ DenotesPadded text w := by
  rw [decodePadded_eq_ok_iff_exists hwidth]
  constructor
  · rintro ⟨b, ⟨length, hspells, hlength⟩, hle, hvalue⟩
    exact ⟨length, hvalue ▸ hspells, hlength ▸ hle⟩
  · rintro ⟨length, hspells, hle⟩
    obtain ⟨hnumber, rfl⟩ := spells_iff.mp hspells
    obtain ⟨b, hvalue, hlength⟩ := exists_bytes hnumber
    exact ⟨b, ⟨_, hvalue ▸ hspells, hlength⟩, hlength ▸ hle, hvalue⟩

theorem DenotesPadded.eq {width : Nat} (hwidth : width ≤ Bytes.greatestSize) {text : String}
    {v w : FixedBytes width} (hv : DenotesPadded text v) (hw : DenotesPadded text w) : v = w := by
  have hread := (decodePadded_eq_ok_iff hwidth).mpr hv
  rw [(decodePadded_eq_ok_iff hwidth).mpr hw] at hread
  exact (Except.ok.inj hread).symm

/-! ### What is written -/

theorem spells_encodeMarked (b : Bytes) :
    Spells (encodeMarked b) (Bytes.toNat b) (2 * b.length) := by
  obtain ⟨hnumber, hlength⟩ := number?_of_pairs? (pairs?_digits b)
  refine ⟨['0', 'x'], by simp [marks], digits b, ⟨[], [], ?_, by simp, by simp⟩, hnumber, hlength⟩
  simp [encodeMarked, encode]

theorem denotesPadded_encodeMarked {width : Nat} (w : FixedBytes width) :
    DenotesPadded (encodeMarked w.bytes) w := by
  refine ⟨_, spells_encodeMarked w.bytes, ?_⟩
  rw [w.length_eq]
  omega

/-! ### Texts without a plus sign -/

/-- Whether a text is hexadecimal with so many digits: these stand behind a mark or none, with
nothing but blanks around. -/
def IsHexadecimal (text : String) (length : Nat) : Prop :=
  ∃ mark ∈ marks, ∃ digits, Text.Pads text (mark ++ digits) ∧
    (∀ c ∈ digits, (digitValue? c).isSome) ∧ digits.length = length

theorem digitAt?_of_ne {c : Char} (h : c ≠ '+') (place : Nat) :
    digitAt? place c = digitValue? c :=
  if_neg fun hplus ↦ h hplus.1

theorem ne_plus_of_digitValue? {c : Char} (h : (digitValue? c).isSome) : c ≠ '+' := by
  rintro rfl
  exact absurd h (by decide)

theorem exists_number?_iff {cs : List Char} (hplus : '+' ∉ cs) :
    (∃ n, number? cs = some n) ↔ ∀ c ∈ cs, (digitValue? c).isSome := by
  induction cs with
  | nil => simp [number?]
  | cons c rest ih =>
    obtain ⟨hc, hrest⟩ := not_or.mp (mt List.mem_cons.mpr hplus)
    rw [List.forall_mem_cons, ← ih hrest, Option.isSome_iff_exists]
    simp only [number?_cons_eq_some_iff, digitAt?_of_ne (Ne.symm hc)]
    constructor
    · rintro ⟨n, d, m, hd, hm, -⟩
      exact ⟨⟨d, hd⟩, m, hm⟩
    · rintro ⟨⟨d, hd⟩, m, hm⟩
      exact ⟨_, d, m, hd, hm, rfl⟩

theorem plus_mem_iff {text : String} {mark digits : List Char} (hmark : mark ∈ marks)
    (hpads : Text.Pads text (mark ++ digits)) : '+' ∈ text.toList ↔ '+' ∈ digits := by
  have hmarks : ∀ m ∈ marks, '+' ∉ m := by decide
  rw [hpads.mem_iff (by decide), List.mem_append]
  exact or_iff_right (hmarks mark hmark)

/-- **What spells a number is hexadecimal, but for plus signs.** -/
theorem isHexadecimal_iff {text : String} {length : Nat} :
    IsHexadecimal text length ↔ (∃ n, Spells text n length) ∧ '+' ∉ text.toList := by
  constructor
  · rintro ⟨mark, hmark, digits, hpads, hdigits, hlength⟩
    have hplus : '+' ∉ digits := fun h ↦ ne_plus_of_digitValue? (hdigits _ h) rfl
    obtain ⟨n, hn⟩ := (exists_number?_iff hplus).mpr hdigits
    exact ⟨⟨n, mark, hmark, digits, hpads, hn, hlength⟩, mt (plus_mem_iff hmark hpads).mp hplus⟩
  · rintro ⟨⟨n, mark, hmark, digits, hpads, hn, hlength⟩, hplus⟩
    have hdigits := (exists_number?_iff (mt (plus_mem_iff hmark hpads).mpr hplus)).mp ⟨n, hn⟩
    exact ⟨mark, hmark, digits, hpads, hdigits, hlength⟩

theorem Spells.exists_bytes {text : String} {n length : Nat} (h : Spells text n length) :
    ∃ b, Bytes.toNat b = n ∧ b.length = (length + 1) / 2 := by
  obtain ⟨hnumber, rfl⟩ := spells_iff.mp h
  exact Hex.exists_bytes hnumber

theorem exists_isHexadecimal_iff {text : String} :
    (∃ length, IsHexadecimal text length) ↔ (∃ b, Denotes text b) ∧ '+' ∉ text.toList := by
  simp only [isHexadecimal_iff, exists_and_right]
  refine and_congr_left fun _ ↦ ?_
  constructor
  · rintro ⟨length, n, hspells⟩
    obtain ⟨b, rfl, hlength⟩ := hspells.exists_bytes
    exact ⟨b, length, hspells, hlength⟩
  · rintro ⟨b, length, hspells, -⟩
    exact ⟨length, _, hspells⟩

theorem exists_isHexadecimal_le_iff {width : Nat} {text : String} :
    (∃ length, IsHexadecimal text length ∧ (length + 1) / 2 ≤ width)
      ↔ (∃ w : FixedBytes width, DenotesPadded text w) ∧ '+' ∉ text.toList := by
  simp only [isHexadecimal_iff, and_right_comm, exists_and_right]
  refine and_congr_left fun _ ↦ ?_
  constructor
  · rintro ⟨length, ⟨n, hspells⟩, hle⟩
    obtain ⟨b, rfl, hlength⟩ := hspells.exists_bytes
    have hvalue : Bytes.toNat (FixedBytes.leftPad width b (hlength ▸ hle)).bytes = Bytes.toNat b :=
      Bytes.toNat_replicate_zero_append _ b
    exact ⟨.leftPad width b (hlength ▸ hle), length, hvalue ▸ hspells, hle⟩
  · rintro ⟨w, length, hspells, hle⟩
    exact ⟨length, ⟨_, hspells⟩, hle⟩

end Hex

end ExecState
