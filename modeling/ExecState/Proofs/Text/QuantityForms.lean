import ExecState.Program.Requests
import ExecState.Proofs.Allocation.Rendering
import ExecState.Proofs.Text.Numeral
import ExecState.Proofs.Text.Unsigned

/-!
# The forms of a number

A number may be written in decimal or in hexadecimal behind a mark, with letters of either case,
with zeros in front, with underscores anywhere among the digits and with blanks around all of it
(`Quantity.IsForm`). Every form of a number below `2 ^ 256` is read as the number, and every form of
a greater one is refused for its size (`Quantity.value_of_isForm`).

The readers give up before the end of a text where the number is too large. A refusal for the size
would be wrong if a fault of another kind came later, but in a row of digits there is none: what is
read so far is a part of the number, and what is too large already does not become smaller. So for a
row of digits a reader does the same as comparing its number with the bound once
(`Numeral.hexDigits_eq_fit`, `Numeral.decimalDigits_eq_fit`).

Operands of instructions are read by the same two readers without looking for blanks and for the
upper-case mark. Where a text has neither, operands and quantities agree, also in what is wrong with
it (`Program.AdviceRequest.readOperand_eq_ofText`).
-/

namespace ExecState

namespace Numeral

/-! ## Digits that are all read -/

variable {radix : Nat} {bytes : Bytes} {digits : List Nat}

theorem hexDigits_eq_fit (h : HasDigits 16 bytes digits) (place value : Nat) :
    hexDigits bytes place value = fit (value + 16 ^ place * Nat.ofDigits 16 digits) := by
  induction bytes generalizing digits place value with
  | nil =>
    rw [hasDigits_nil_iff.mp h, Nat.ofDigits_nil, Nat.mul_zero, Nat.add_zero, hexDigits]
  | cons b rest ih =>
    rw [hexDigits]
    split
    · rename_i hsep
      rw [hsep, hasDigits_separator_cons_iff] at h
      exact ih h place value
    · rename_i hb
      obtain ⟨d, more, hd, hrest, rfl⟩ := (hasDigits_cons_iff hb).mp h
      have hsum : value + 16 ^ place * Nat.ofDigits 16 (d :: more)
          = value + d * 16 ^ place + 16 ^ (place + 1) * Nat.ofDigits 16 more := by
        rw [Nat.ofDigits_cons, Nat.pow_succ]
        ring
      simp only [hd, hsum, Nat.pow_eq]
      split
      · exact ih hrest _ _
      · rw [fit, if_neg (by omega)]

theorem decimalDigits_eq_fit (h : HasDigits 10 bytes digits) (value group : Nat) {count : Nat}
    (hcount : count < groupSize) :
    decimalDigits bytes value group count
      = fit ((value * 10 ^ count + group) * 10 ^ digits.length
          + Nat.ofDigits 10 digits.reverse) := by
  induction bytes generalizing digits value group count with
  | nil =>
    rw [hasDigits_nil_iff.mp h]
    simp [decimalDigits]
  | cons b rest ih =>
    rw [decimalDigits]
    split
    · rename_i hsep
      rw [hsep, hasDigits_separator_cons_iff] at h
      exact ih h value group hcount
    · rename_i hb
      obtain ⟨d, more, hd, hrest, rfl⟩ := (hasDigits_cons_iff hb).mp h
      have hgroup : (value * 10 ^ count + group) * 10 + d
          = value * 10 ^ (count + 1) + (group * 10 + d) := by
        rw [Nat.pow_succ]
        ring
      simp only [hd, mul_pow_length_cons_add, hgroup, Nat.pow_eq]
      split
      · rename_i hroom
        exact ih hrest value _ hroom
      · rename_i hfull
        have hsize : count + 1 = groupSize := by omega
        rw [hsize]
        split
        · have hgroups := ih hrest (value * 10 ^ groupSize + (group * 10 + d)) 0
            (show 0 < groupSize by decide)
          rwa [Nat.pow_zero, Nat.mul_one, Nat.add_zero] at hgroups
        · -- the digits that follow do not make the number smaller
          have hone : 1 ≤ 10 ^ more.length := Nat.one_le_pow _ _ (by omega)
          have hle := Nat.le_mul_of_pos_right (value * 10 ^ groupSize + (group * 10 + d)) hone
          rw [fit, if_neg (by omega)]

theorem readHex_eq_fit {cs : List Char} {n : Nat} (h : Spells 16 cs n) : readHex cs = fit n := by
  obtain ⟨digits, hdigits, rfl⟩ := h
  rw [← hasDigits_utf8_iff, ← digits.reverse_reverse, ← hasDigits_reverse_iff] at hdigits
  rw [readHex, hexDigits_eq_fit hdigits, Nat.pow_zero, Nat.one_mul, Nat.zero_add]

theorem readDecimal_eq_fit {cs : List Char} {n : Nat} (h : Spells 10 cs n) :
    readDecimal cs = fit n := by
  obtain ⟨digits, hdigits, rfl⟩ := h
  rw [← hasDigits_utf8_iff] at hdigits
  rw [readDecimal, decimalDigits_eq_fit hdigits 0 0 (by decide), Nat.zero_mul, Nat.zero_add,
    Nat.zero_mul, Nat.zero_add]

/-! ## Digits as they are written -/

/-- Whether characters are the digits of a number as it is written in a radix, with letters of
either case, with zeros in front and with underscores anywhere. -/
def IsFormIn (radix : Nat) (cs : List Char) (n : Nat) : Prop :=
  ∃ zeros, (cs.filter (· ≠ '_')).map Char.toLower
    = List.replicate zeros '0' ++ Nat.toDigits radix n

theorem isFormIn_toDigits (hradix : 1 < radix)
    (hplain : ∀ d < radix, d.digitChar ≠ '_' ∧ d.digitChar.toLower = d.digitChar) (n : Nat) :
    IsFormIn radix (Nat.toDigits radix n) n := by
  have hall : ∀ c ∈ Nat.toDigits radix n, c ≠ '_' ∧ c.toLower = c := by
    intro c hc
    obtain ⟨d, hd, rfl⟩ := exists_digitChar_of_mem_toDigits hradix hc
    exact hplain d hd
  have hfilter : (Nat.toDigits radix n).filter (· ≠ '_') = Nat.toDigits radix n :=
    List.filter_eq_self.mpr fun c hc ↦ decide_eq_true (hall c hc).1
  have hmap : (Nat.toDigits radix n).map Char.toLower = Nat.toDigits radix n :=
    (List.map_congr_left fun c hc ↦ (hall c hc).2).trans (List.map_id' _)
  exact ⟨0, by rw [hfilter, hmap]; rfl⟩

theorem IsFormIn.spells {cs : List Char} {n : Nat} (hradix : 1 < radix)
    (hdigit : ∀ d < radix, Unsigned.digit? radix d.digitChar = some d) (h : IsFormIn radix cs n) :
    Spells radix cs n := by
  obtain ⟨zeros, hcs⟩ := h
  obtain ⟨values, hvalues, hvalue⟩ := exists_values_toDigits hradix hdigit n
  have hzeros : ∀ k, List.Forall₂ (fun c d ↦ Unsigned.digit? radix c = some d)
      (List.replicate k '0') (List.replicate k 0) := by
    intro k
    induction k with
    | zero => exact .nil
    | succ k ih => exact .cons (hdigit 0 (by omega)) ih
  have hall : List.Forall₂ (fun c d ↦ Unsigned.digit? radix c = some d)
      (List.replicate zeros '0' ++ Nat.toDigits radix n) (List.replicate zeros 0 ++ values) :=
    List.rel_append (hzeros zeros) hvalues
  rw [← hcs, List.forall₂_map_left_iff] at hall
  refine ⟨_, hall.imp fun c d hd ↦ (Unsigned.digit?_toLower radix c).symm.trans hd, ?_⟩
  rw [List.reverse_append, List.reverse_replicate, Nat.ofDigits_append_replicate_zero, hvalue]

end Numeral

/-! ## Quantities -/

namespace Quantity

/-- Whether a text is a form of a number: its digits in decimal, or in hexadecimal behind a mark,
with nothing but blanks around. -/
def IsForm (text : String) (n : Nat) : Prop :=
  ∃ body, Text.Pads text body ∧
    (Numeral.IsFormIn 10 body n ∨
      ∃ digits, (body = '0' :: 'x' :: digits ∨ body = '0' :: 'X' :: digits) ∧
        Numeral.IsFormIn 16 digits n)

theorem IsForm.textDenotes {text : String} {n : Nat} (h : IsForm text n) : TextDenotes text n := by
  obtain ⟨body, hpads, hdecimal | ⟨digits, hmark, hhex⟩⟩ := h
  · exact ⟨body, hpads, .inl (hdecimal.spells (by decide) (by decide))⟩
  · exact ⟨body, hpads, .inr ⟨digits, hmark, hhex.spells (by decide) (by decide)⟩⟩

theorem readNumeral_eq_fit {body : List Char} {n : Nat}
    (h : Numeral.Spells 10 body n ∨
      ∃ digits, (body = '0' :: 'x' :: digits ∨ body = '0' :: 'X' :: digits) ∧
        Numeral.Spells 16 digits n) : readNumeral body = Numeral.fit n := by
  obtain hdecimal | ⟨digits, rfl | rfl, hhex⟩ := h
  · fun_cases readNumeral body with
    | case1 digits => exact absurd hdecimal (not_spells_mark (.inl rfl))
    | case2 digits => exact absurd hdecimal (not_spells_mark (.inr rfl))
    | case3 => exact Numeral.readDecimal_eq_fit hdecimal
  · exact Numeral.readHex_eq_fit hhex
  · exact Numeral.readHex_eq_fit hhex

theorem ofText_eq_mapError (s : String) :
    ofText s = (readNumeral (Text.trim s.toList)).mapError
      (.quantity (String.ofList (Text.trim s.toList))) := by
  rw [ofText]
  cases readNumeral (Text.trim s.toList) <;> rfl

/-- **A form of a number is read as the number, if this fits**, and refused for its size if not. -/
theorem value_of_isForm {s : String} {n : Nat} (h : IsForm s n) :
    (Quantity.text s).value = (Numeral.fit n).mapError
      (.quantity (String.ofList (Text.trim s.toList))) := by
  obtain ⟨body, hpads, hbody⟩ := h.textDenotes
  rw [value, ofText_eq_mapError, trim_eq hpads hbody, readNumeral_eq_fit hbody]

theorem isForm_decimal (v : U256) : IsForm v.decimal v.toNat := by
  refine ⟨Nat.toDigits 10 v.toNat, ⟨[], [], ?_, by simp, by simp⟩,
    .inl (Numeral.isFormIn_toDigits (by decide) (by decide) _)⟩
  rw [U256.decimal, Nat.toList_repr, List.nil_append, List.append_nil]

theorem isForm_hexadecimal (v : U256) : IsForm v.hexadecimal v.toNat := by
  refine ⟨_, ⟨[], [], ?_, by simp, by simp⟩,
    .inr ⟨Nat.toDigits 16 v.toNat, .inl rfl, Numeral.isFormIn_toDigits (by decide) (by decide) _⟩⟩
  simp [U256.hexadecimal]

theorem read?_decimal {v : U256} (h : v.toNat < 2 ^ 64) :
    (Json.read? v.decimal).bind ofJson? = some (.number (UInt64.ofNat v.toNat)) := by
  have hvalue : (UInt64.ofNat v.toNat).toNat = v.toNat := by
    rw [UInt64.toNat_ofNat', Nat.mod_eq_of_lt h]
  have hread := Json.read?_print (isPlain_toJson (.number (UInt64.ofNat v.toNat)))
  rw [toJson, Json.Value.print, String.ofList_toList, hvalue] at hread
  rw [U256.decimal, hread]
  have hquantity := ofJson?_toJson (.number (UInt64.ofNat v.toNat))
  rwa [toJson, hvalue] at hquantity

end Quantity

/-! ## Operands -/

namespace Program.AdviceRequest

theorem readNumeral_eq {cs : List Char} (h : ∀ rest, cs ≠ '0' :: 'X' :: rest) :
    readNumeral cs = Quantity.readNumeral cs := by
  fun_cases Quantity.readNumeral cs with
  | case1 digits => rfl
  | case2 digits => exact absurd rfl (h digits)
  | case3 cs hlower => exact readNumeral.eq_2 cs hlower

/-- An operand is read as a quantity is, where its text has neither blanks around nor the upper-case
mark. What is wrong with it is the same. -/
theorem readOperand_eq_ofText {text : String} (htrim : Text.trim text.toList = text.toList)
    (hmark : ∀ rest, text.toList ≠ '0' :: 'X' :: rest) :
    ∃ result : Except NumeralError U256,
      Quantity.ofText text = result.mapError (.quantity text) ∧
      readOperand text = result.mapError (.invalidOperand text) := by
  refine ⟨Quantity.readNumeral text.toList, ?_, ?_⟩
  · rw [Quantity.ofText_eq_mapError, htrim, String.ofList_toList]
  · rw [readOperand, readNumeral_eq hmark]
    cases Quantity.readNumeral text.toList <;> rfl

end Program.AdviceRequest

/-! ## Spellings -/

namespace Quantity

/-- **All spellings of a number agree.** Every form of a number below `2 ^ 256` is read as the
number, the decimal and the hexadecimal numeral among them, and so is a number of 64 bits in a JSON
text. Every form of a greater number is refused for its size. A text without blanks around and
without the upper-case mark gives the same as an operand of an instruction, a number or a fault. -/
theorem value_spellings :
    (∀ (v : U256) (text : String), IsForm text v.toNat → (Quantity.text text).value = .ok v) ∧
    (∀ v : U256, IsForm v.decimal v.toNat ∧ IsForm v.hexadecimal v.toNat) ∧
    (∀ v : U256, v.toNat < 2 ^ 64 → ∃ n : UInt64, n.toNat = v.toNat ∧
      (Json.read? v.decimal).bind ofJson? = some (.number n) ∧
      (Quantity.number n).value = .ok v) ∧
    (∀ (n : Nat) (text : String), 2 ^ 256 ≤ n → IsForm text n →
      (Quantity.text text).value
        = .error (.quantity (String.ofList (Text.trim text.toList)) .tooLarge)) ∧
    ∀ text : String, (∀ c ∈ text.toList.head?, Text.isBlank c = false) →
      (∀ c ∈ text.toList.getLast?, Text.isBlank c = false) →
      (∀ rest, text.toList ≠ '0' :: 'X' :: rest) →
      ∃ result : Except NumeralError U256,
        (Quantity.text text).value = result.mapError (.quantity text) ∧
        Program.AdviceRequest.readOperand text = result.mapError (.invalidOperand text) := by
  refine ⟨fun v text h ↦ ?_, fun v ↦ ⟨isForm_decimal v, isForm_hexadecimal v⟩, fun v hlt ↦ ?_,
    fun n text hlarge h ↦ ?_, fun text hhead hlast hmark ↦ ?_⟩
  · rw [value_of_isForm h, Numeral.fit_eq_ok_iff.mpr rfl]
    rfl
  · have hn : (UInt64.ofNat v.toNat).toNat = v.toNat := by
      rw [UInt64.toNat_ofNat', Nat.mod_eq_of_lt hlt]
    refine ⟨_, hn, read?_decimal hlt, ?_⟩
    rw [value, hn, BitVec.ofNat_toNat, BitVec.setWidth_eq]
  · have hfit : Numeral.fit n = .error .tooLarge := if_neg (Nat.not_lt.mpr hlarge)
    rw [value_of_isForm h, hfit]
    rfl
  · exact Program.AdviceRequest.readOperand_eq_ofText (Text.trim_eq_self hhead hlast) hmark

/-- A number of two digits in mixed case with underscores between blanks, and an operand. -/
theorem value_spellings_underscored :
    IsForm " 0X_0f_F\n" 255 ∧ (Quantity.text " 0X_0f_F\n").value = .ok 255 ∧
    ∃ result : Except NumeralError U256,
      (Quantity.text "0xff").value = result.mapError (.quantity "0xff") ∧
      Program.AdviceRequest.readOperand "0xff" = result.mapError (.invalidOperand "0xff") := by
  have hform : IsForm " 0X_0f_F\n" 255 := by
    refine ⟨"0X_0f_F".toList, ⟨[' '], ['\n'], by decide, ?_, ?_⟩,
      .inr ⟨"_0f_F".toList, .inr (by decide), 1, by decide⟩⟩
    · exact List.forall_mem_singleton.mpr rfl
    · exact List.forall_mem_singleton.mpr rfl
  have htext : "0xff".toList = ['0', 'x', 'f', 'f'] := by decide
  have hhead : ∀ c ∈ "0xff".toList.head?, Text.isBlank c = false := by
    rw [htext]
    rintro c ⟨⟩
    rfl
  have hlast : ∀ c ∈ "0xff".toList.getLast?, Text.isBlank c = false := by
    rw [htext]
    rintro c ⟨⟩
    rfl
  have hmark : ∀ rest, "0xff".toList ≠ '0' :: 'X' :: rest := by
    rw [htext]
    rintro rest ⟨⟩
  obtain ⟨hforms, -, -, -, hoperands⟩ := value_spellings
  exact ⟨hform, hforms 255 _ hform, hoperands "0xff" hhead hlast hmark⟩

end Quantity

end ExecState
