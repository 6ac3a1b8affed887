import ExecState.Allocation.Document
import ExecState.Numeral.Quantity
import ExecState.Proofs.Text.Hex
import ExecState.Proofs.Text.Unsigned

/-!
# What a numeral stands for

A numeral is decimal, or hexadecimal after a mark, with blanks around it and underscores anywhere
among the digits, and it is zero where there are no digits. What it stands for is the value of its
digits in the radix (`Quantity.TextDenotes`).

The readers go through the bytes of the text, one radix from the end and the other from the front in
groups of digits, and give up as soon as the number is too large. What either has read so far is a
part of the sum that the digits stand for, so that a number is too large on the way only if it is in
the end (`Numeral.hexDigits_eq_ok_iff`, `Numeral.decimalDigits_eq_ok_iff`).
-/

namespace ExecState

namespace Numeral

/-- Whether a text spells a number by its digits in a radix, whatever underscores stand among
them. -/
def Spells (radix : Nat) (cs : List Char) (n : Nat) : Prop :=
  ∃ digits, List.Forall₂ (fun c d ↦ Unsigned.digit? radix c = some d) (cs.filter (· ≠ '_')) digits ∧
    n = Nat.ofDigits radix digits.reverse

/-! ## The bytes of a text and its characters -/

/-- Whether the bytes of a text have these digits in a radix. -/
def HasDigits (radix : Nat) (bytes : Bytes) (digits : List Nat) : Prop :=
  List.Forall₂ (fun b d ↦ digit? radix b = some d) (bytes.filter (· ≠ separator)) digits

variable {radix : Nat} {bytes : Bytes} {digits : List Nat}

theorem hasDigits_nil_iff : HasDigits radix [] digits ↔ digits = [] :=
  List.forall₂_nil_left_iff

theorem hasDigits_separator_cons_iff :
    HasDigits radix (separator :: bytes) digits ↔ HasDigits radix bytes digits := by
  rw [HasDigits, List.filter_cons_of_neg (by simp), HasDigits]

theorem hasDigits_cons_iff {b : UInt8} (hb : b ≠ separator) :
    HasDigits radix (b :: bytes) digits
      ↔ ∃ d rest, digit? radix b = some d ∧ HasDigits radix bytes rest ∧ digits = d :: rest := by
  rw [HasDigits, List.filter_cons_of_pos (by simpa using hb), List.forall₂_cons_left_iff]
  rfl

theorem exists_hasDigits_cons_iff {b : UInt8} {d : Nat} (hb : b ≠ separator)
    (hd : digit? radix b = some d) {P : List Nat → Prop} :
    (∃ digits, HasDigits radix (b :: bytes) digits ∧ P digits)
      ↔ ∃ rest, HasDigits radix bytes rest ∧ P (d :: rest) := by
  constructor
  · rintro ⟨digits, hdigits, hP⟩
    obtain ⟨d', rest, hd', hrest, rfl⟩ := (hasDigits_cons_iff hb).mp hdigits
    rw [hd] at hd'
    exact ⟨rest, hrest, Option.some_inj.mp hd' ▸ hP⟩
  · rintro ⟨rest, hrest, hP⟩
    exact ⟨d :: rest, (hasDigits_cons_iff hb).mpr ⟨d, rest, hd, hrest, rfl⟩, hP⟩

theorem not_hasDigits_cons {b : UInt8} (hb : b ≠ separator) (hd : digit? radix b = none) :
    ¬ HasDigits radix (b :: bytes) digits := by
  rw [hasDigits_cons_iff hb]
  rintro ⟨d, rest, hd', -⟩
  rw [hd] at hd'
  cases hd'

theorem hasDigits_reverse_iff :
    HasDigits radix bytes.reverse digits ↔ HasDigits radix bytes digits.reverse := by
  rw [HasDigits, List.filter_reverse, HasDigits]
  conv_lhs => rw [← digits.reverse_reverse]
  exact List.forall₂_reverse_iff

theorem utf8EncodeChar_of_lt {c : Char} (hc : c.toNat < 128) :
    String.utf8EncodeChar c = [UInt8.ofNat c.toNat] := by
  have hsize : c.utf8Size = 1 := by
    rw [Char.utf8Size_eq_one_iff, UInt32.le_iff_toNat_le]
    exact Nat.lt_succ_iff.mp hc
  exact String.utf8EncodeChar_eq_singleton hsize

theorem digit?_ofNat_toNat {c : Char} (hc : c.toNat < 128) :
    digit? radix (UInt8.ofNat c.toNat) = Unsigned.digit? radix c := by
  have hval : c.val.toNat = c.toNat := rfl
  have hbyte : (UInt8.ofNat c.toNat).toNat = c.toNat := by
    rw [UInt8.toNat_ofNat', Nat.mod_eq_of_lt (by omega)]
  rw [digit?, Unsigned.digit?, hbyte]
  simp only [Char.le_def, UInt32.le_iff_toNat_le, hval]
  rfl

theorem exists_utf8EncodeChar {c : Char} (hc : 128 ≤ c.toNat) :
    ∃ b rest, String.utf8EncodeChar c = b :: rest ∧ 128 ≤ b.toNat := by
  have hval : c.val.toNat = c.toNat := rfl
  rw [String.utf8EncodeChar, hval, if_neg (by omega)]
  split
  · refine ⟨_, _, rfl, ?_⟩
    rw [UInt8.toNat_ofNat']
    omega
  · split
    · refine ⟨_, _, rfl, ?_⟩
      rw [UInt8.toNat_ofNat']
      omega
    · refine ⟨_, _, rfl, ?_⟩
      rw [UInt8.toNat_ofNat']
      omega

theorem digit?_eq_none {b : UInt8} (hb : 128 ≤ b.toNat) : digit? radix b = none := by
  rw [digit?, if_neg]
  rw [if_neg (by omega), if_neg (by omega), if_neg (by omega)]
  exact Nat.lt_irrefl radix

theorem range_of_digit? {c : Char} {d : Nat} (h : Unsigned.digit? radix c = some d) :
    48 ≤ c.toNat ∧ c.toNat ≤ 122 := by
  by_contra hrange
  have hval : c.val.toNat = c.toNat := rfl
  rw [Unsigned.digit?, if_neg] at h
  · cases h
  · simp only [Char.le_def, UInt32.le_iff_toNat_le, hval, Char.reduceVal, UInt32.reduceToNat]
    rw [if_neg (by omega), if_neg (by omega), if_neg (by omega)]
    exact Nat.lt_irrefl radix

theorem fit_eq_ok_iff {n : Nat} {v : U256} : fit n = .ok v ↔ v.toNat = n := by
  have hv := U256.toNat_lt_size v
  rw [fit]
  split
  · rename_i hn
    rw [Except.ok.injEq, ← BitVec.toNat_inj, BitVec.toNat_ofNat, Nat.mod_eq_of_lt hn]
    exact eq_comm
  · simp only [reduceCtorEq, false_iff]
    omega

theorem hexDigits_eq_ok_iff {place value : Nat} {v : U256} :
    hexDigits bytes place value = .ok v
      ↔ ∃ digits, HasDigits 16 bytes digits ∧
        v.toNat = value + 16 ^ place * Nat.ofDigits 16 digits := by
  have hv := U256.toNat_lt_size v
  induction bytes generalizing place value with
  | nil => simp [hexDigits, fit_eq_ok_iff, hasDigits_nil_iff]
  | cons b rest ih =>
    rw [hexDigits]
    split
    · rename_i hsep
      simp only [hsep, hasDigits_separator_cons_iff]
      exact ih
    · rename_i hb
      cases hd : digit? 16 b with
      | none => simp [not_hasDigits_cons hb hd]
      | some d =>
        -- the first digit is a part of the sum
        have hsum : ∀ digits, value + 16 ^ place * Nat.ofDigits 16 (d :: digits)
            = value + d * 16 ^ place + 16 ^ (place + 1) * Nat.ofDigits 16 digits := by
          intro digits
          rw [Nat.ofDigits_cons, Nat.pow_succ]
          ring
        simp only [exists_hasDigits_cons_iff hb hd, hsum, Nat.pow_eq]
        split
        · exact ih
        · simp only [reduceCtorEq, false_iff]
          rintro ⟨digits, -, h⟩
          omega

/-- Reading from the first byte in groups leaves room for the digits that follow. -/
theorem decimalDigits_eq_ok_iff {value group count : Nat} {v : U256} (hcount : count < groupSize) :
    decimalDigits bytes value group count = .ok v
      ↔ ∃ digits, HasDigits 10 bytes digits ∧
        v.toNat = (value * 10 ^ count + group) * 10 ^ digits.length
          + Nat.ofDigits 10 digits.reverse := by
  have hv := U256.toNat_lt_size v
  induction bytes generalizing value group count with
  | nil => simp [decimalDigits, fit_eq_ok_iff, hasDigits_nil_iff]
  | cons b rest ih =>
    rw [decimalDigits]
    split
    · rename_i hsep
      simp only [hsep, hasDigits_separator_cons_iff]
      exact ih hcount
    · rename_i hb
      cases hd : digit? 10 b with
      | none => simp [not_hasDigits_cons hb hd]
      | some d =>
        have hgroup : (value * 10 ^ count + group) * 10 + d
            = value * 10 ^ (count + 1) + (group * 10 + d) := by
          rw [Nat.pow_succ]
          ring
        simp only [exists_hasDigits_cons_iff hb hd, mul_pow_length_cons_add, hgroup, Nat.pow_eq]
        split
        · rename_i hroom
          exact ih hroom
        · rename_i hfull
          have hsize : count + 1 = groupSize := by omega
          rw [hsize]
          split
          · simpa using @ih (value * 10 ^ groupSize + (group * 10 + d)) 0 0 (by decide)
          · -- the digits that follow do not make the number smaller
            rename_i hlarge
            simp only [reduceCtorEq, false_iff]
            rintro ⟨digits, -, h⟩
            have hone : 1 ≤ 10 ^ digits.length := Nat.one_le_pow _ _ (by omega)
            have hle := Nat.le_mul_of_pos_right (value * 10 ^ groupSize + (group * 10 + d)) hone
            omega

/-! ## The readers -/

/-- An ASCII character that is no underscore is no separator as a byte. -/
theorem ofNat_toNat_ne_separator {c : Char} (hc : c.toNat < 128) (hsep : c ≠ '_') :
    UInt8.ofNat c.toNat ≠ separator := by
  intro h
  have hvalue : c.toNat % 256 = 95 := by
    rw [← UInt8.toNat_ofNat', h]
    rfl
  have hcode : c.toNat = '_'.toNat := by
    rw [← Nat.mod_eq_of_lt (show c.toNat < 256 by omega), hvalue]
    rfl
  exact hsep (Char.toNat_inj.mp hcode)

theorem hasDigits_utf8_iff {cs : List Char} :
    HasDigits radix (utf8 cs) digits
      ↔ List.Forall₂ (fun c d ↦ Unsigned.digit? radix c = some d) (cs.filter (· ≠ '_')) digits := by
  induction cs generalizing digits with
  | nil => exact hasDigits_nil_iff.trans List.forall₂_nil_left_iff.symm
  | cons c rest ih =>
    rw [utf8, List.flatMap_cons, ← utf8]
    by_cases hc : c.toNat < 128
    · rw [utf8EncodeChar_of_lt hc, List.singleton_append]
      by_cases hsep : c = '_'
      · rw [hsep, List.filter_cons_of_neg (by simp), ← ih]
        exact hasDigits_separator_cons_iff
      · rw [List.filter_cons_of_pos (by simpa using hsep),
          hasDigits_cons_iff (ofNat_toNat_ne_separator hc hsep), List.forall₂_cons_left_iff]
        simp only [digit?_ofNat_toNat hc, ih]
    · -- no other character is a digit, and neither is its first byte
      obtain ⟨b, more, hbytes, hb⟩ := exists_utf8EncodeChar (Nat.le_of_not_lt hc)
      have hbyte : b ≠ separator := by
        rintro rfl
        exact absurd hb (by decide)
      have hsep : c ≠ '_' := by
        rintro rfl
        exact hc (by decide)
      have hnone : Unsigned.digit? radix c = none := by
        refine Option.eq_none_iff_forall_ne_some.mpr fun d hd ↦ ?_
        have hrange := range_of_digit? hd
        omega
      rw [hbytes, List.cons_append, List.filter_cons_of_pos (by simpa using hsep),
        List.forall₂_cons_left_iff, hnone]
      simp [not_hasDigits_cons hbyte (digit?_eq_none hb)]

theorem readHex_eq_ok_iff {cs : List Char} {v : U256} :
    readHex cs = .ok v ↔ Spells 16 cs v.toNat := by
  rw [readHex, hexDigits_eq_ok_iff]
  simp only [hasDigits_reverse_iff, hasDigits_utf8_iff, Nat.pow_zero, Nat.one_mul, Nat.zero_add]
  constructor
  · rintro ⟨digits, hdigits, hvalue⟩
    exact ⟨digits.reverse, hdigits, by rw [List.reverse_reverse, hvalue]⟩
  · rintro ⟨digits, hdigits, hvalue⟩
    exact ⟨digits.reverse, by rwa [List.reverse_reverse], hvalue⟩

theorem readDecimal_eq_ok_iff {cs : List Char} {v : U256} :
    readDecimal cs = .ok v ↔ Spells 10 cs v.toNat := by
  rw [readDecimal, decimalDigits_eq_ok_iff (by decide)]
  simp only [hasDigits_utf8_iff, Nat.zero_mul, Nat.zero_add]
  rfl

theorem exists_digit?_of_spells {cs : List Char} {n : Nat} (h : Spells radix cs n) {c : Char}
    (hc : c ∈ cs) (hsep : c ≠ '_') : ∃ d, Unsigned.digit? radix c = some d := by
  obtain ⟨digits, hdigits, -⟩ := h
  have hall : ∀ c ∈ cs.filter (· ≠ '_'), (Unsigned.digit? radix c).isSome :=
    ((List.forall₂_and_left _ _).mp (hdigits.imp fun _ _ hd ↦ ⟨Option.isSome_of_eq_some hd, hd⟩)).1
  have hmem : c ∈ cs.filter (· ≠ '_') := List.mem_filter.mpr ⟨hc, by simpa using hsep⟩
  exact Option.isSome_iff_exists.mp (hall c hmem)

theorem isBlank_of_spells {cs : List Char} {n : Nat} (h : Spells radix cs n) :
    ∀ c ∈ cs, Text.isBlank c = false := by
  intro c hc
  by_cases hsep : c = '_'
  · rw [hsep]
    rfl
  · obtain ⟨d, hd⟩ := exists_digit?_of_spells h hc hsep
    obtain ⟨hlow, hhigh⟩ := range_of_digit? hd
    exact Text.isBlank_eq_false (by omega) (by omega)

theorem plus_notMem_of_spells {cs : List Char} {n : Nat} (h : Spells radix cs n) : '+' ∉ cs := by
  intro hplus
  obtain ⟨d, hd⟩ := exists_digit?_of_spells h hplus (by decide)
  exact absurd (range_of_digit? hd).1 (by decide)

end Numeral

/-! ## Balances and nonces -/

namespace Quantity

/-- Whether a text stands for a number: it is a decimal numeral, or a hexadecimal one after a mark,
with nothing but blanks around it. -/
def TextDenotes (s : String) (n : Nat) : Prop :=
  ∃ body, Text.Pads s body ∧
    (Numeral.Spells 10 body n ∨
      ∃ digits, (body = '0' :: 'x' :: digits ∨ body = '0' :: 'X' :: digits) ∧
        Numeral.Spells 16 digits n)

/-- The mark of a hexadecimal numeral has no decimal digits. -/
theorem not_spells_mark {c : Char} {rest : List Char} {n : Nat} (hc : c = 'x' ∨ c = 'X') :
    ¬ Numeral.Spells 10 ('0' :: c :: rest) n := by
  intro h
  have hsep : c ≠ '_' := by rcases hc with rfl | rfl <;> decide
  have hnone : Unsigned.digit? 10 c = none := by rcases hc with rfl | rfl <;> decide
  obtain ⟨d, hd⟩ := Numeral.exists_digit?_of_spells h (by simp) hsep
  rw [hnone] at hd
  cases hd

theorem readNumeral_eq_ok_iff {body : List Char} {v : U256} :
    readNumeral body = .ok v
      ↔ Numeral.Spells 10 body v.toNat ∨
        ∃ digits, (body = '0' :: 'x' :: digits ∨ body = '0' :: 'X' :: digits) ∧
          Numeral.Spells 16 digits v.toNat := by
  fun_cases readNumeral body with
  | case1 digits => simp [Numeral.readHex_eq_ok_iff, not_spells_mark]
  | case2 digits => simp [Numeral.readHex_eq_ok_iff, not_spells_mark]
  | case3 body hlower hupper =>
    rw [Numeral.readDecimal_eq_ok_iff]
    refine ⟨.inl, fun h ↦ h.elim id ?_⟩
    rintro ⟨digits, hmark | hmark, -⟩
    · exact absurd hmark (hlower digits)
    · exact absurd hmark (hupper digits)

theorem trim_eq {s : String} {body : List Char} {n : Nat} (hpads : Text.Pads s body)
    (h : Numeral.Spells 10 body n ∨
      ∃ digits, (body = '0' :: 'x' :: digits ∨ body = '0' :: 'X' :: digits) ∧
        Numeral.Spells 16 digits n) : Text.trim s.toList = body := by
  refine hpads.trim_eq ?_
  obtain hdecimal | ⟨digits, hmark, hhex⟩ := h
  · exact Numeral.isBlank_of_spells hdecimal
  · have hdigits := Numeral.isBlank_of_spells hhex
    obtain rfl | rfl := hmark <;>
      · intro c hc
        obtain rfl | rfl | hc := (List.mem_cons.trans (or_congr_right List.mem_cons)).mp hc
        · rfl
        · rfl
        · exact hdigits c hc

/-- **A number is read exactly from the texts that stand for it.** -/
theorem ofText_eq_ok_iff {s : String} {v : U256} : ofText s = .ok v ↔ TextDenotes s v.toNat := by
  have hread : ofText s = .ok v ↔ readNumeral (Text.trim s.toList) = .ok v := by
    rw [ofText]
    cases readNumeral (Text.trim s.toList) <;> simp
  rw [hread, readNumeral_eq_ok_iff]
  refine ⟨fun h ↦ ⟨_, Text.pads_trim s, h⟩, fun ⟨body, hpads, h⟩ ↦ ?_⟩
  rwa [trim_eq hpads h]

theorem TextDenotes.plus_notMem {text : String} {n : Nat} (h : TextDenotes text n) :
    '+' ∉ text.toList := by
  obtain ⟨body, hpads, hbody⟩ := h
  rw [hpads.mem_iff (by decide)]
  rcases hbody with hdecimal | ⟨digits, rfl | rfl, hhex⟩
  · exact Numeral.plus_notMem_of_spells hdecimal
  · simpa using Numeral.plus_notMem_of_spells hhex
  · simpa using Numeral.plus_notMem_of_spells hhex

end Quantity

end ExecState
