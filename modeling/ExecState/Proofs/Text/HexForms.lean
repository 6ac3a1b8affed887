import ExecState.Proofs.Text.Hex
import ExecState.Proofs.Text.Unsigned
import Mathlib.Data.List.Forall2
import Mathlib.Data.Nat.Digits.Defs

/-!
# The texts of byte strings

Which texts are read as hexadecimal, and which of them are forms of a byte string that was
written.
-/

namespace ExecState.Hex

/-!
## Which texts are hexadecimal

A text is hexadecimal if nothing but digits of either letter case is left of it without the blanks
around and without one mark, and its value is that of the digits (`Hex.Shows`). All these texts are
read, as byte strings of their values (`Hex.Shows.exists_decode`).

They are not the only ones that are read. Digits are read in pairs, from the last one to the first,
and a number may have a plus sign in front, also one that is no longer than a pair. So a plus sign
passes for a digit in every other place (`Hex.IsReadable`), and the texts that are read without
being hexadecimal are those with such a sign (`Hex.exists_shows_iff`).
-/

/-! ### Digits and their values -/

/-- Whether a text is hexadecimal with digits of these values: they stand behind a mark or none,
with nothing but blanks around. -/
def Shows (text : String) (values : List Nat) : Prop :=
  ∃ mark ∈ marks, ∃ digits, Text.Pads text (mark ++ digits) ∧
    List.Forall₂ (fun c d ↦ digitValue? c = some d) digits values

/-- Whether each character is a digit, or a plus sign with an odd number of characters behind it. -/
def IsReadable (digits : List Char) : Prop :=
  ∀ front c rest, digits = front ++ c :: rest →
    (digitValue? c).isSome ∨ c = '+' ∧ rest.length % 2 = 1

theorem number?_eq_ofDigits {digits : List Char} {values : List Nat}
    (h : List.Forall₂ (fun c d ↦ digitValue? c = some d) digits values) :
    number? digits = some (Nat.ofDigits 16 values.reverse) := by
  induction h with
  | nil => rfl
  | @cons c d rest values hd hrest ih =>
    have hne : c ≠ '+' := ne_plus_of_digitValue? (Option.isSome_of_eq_some hd)
    refine number?_cons_eq_some_iff.mpr ⟨d, _, (digitAt?_of_ne hne _).trans hd, ih, ?_⟩
    rw [List.reverse_cons, Nat.ofDigits_append, Nat.ofDigits_singleton, List.length_reverse,
      ← hrest.length_eq]
    ring

theorem exists_values_iff {digits : List Char} :
    (∃ values, List.Forall₂ (fun c d ↦ digitValue? c = some d) digits values)
      ↔ ∀ c ∈ digits, (digitValue? c).isSome := by
  induction digits with
  | nil => simp
  | cons c rest ih =>
    rw [List.forall_mem_cons, ← ih, Option.isSome_iff_exists]
    constructor
    · rintro ⟨_, hvalues⟩
      cases hvalues with
      | cons hd hrest => exact ⟨⟨_, hd⟩, _, hrest⟩
    · rintro ⟨⟨d, hd⟩, values, hrest⟩
      exact ⟨d :: values, .cons hd hrest⟩

theorem isReadable_cons_iff {c : Char} {rest : List Char} :
    IsReadable (c :: rest)
      ↔ ((digitValue? c).isSome ∨ c = '+' ∧ rest.length % 2 = 1) ∧ IsReadable rest := by
  refine ⟨fun h ↦ ⟨h [] c rest rfl, fun front d more heq ↦ h (c :: front) d more ?_⟩, ?_⟩
  · rw [heq, List.cons_append]
  · rintro ⟨hc, hrest⟩ front d more heq
    cases front with
    | nil =>
      obtain ⟨rfl, rfl⟩ := List.cons.inj heq
      exact hc
    | cons e front => exact hrest front d more (List.cons.inj heq).2

theorem exists_digitAt?_iff {place : Nat} {c : Char} :
    (∃ d, digitAt? place c = some d) ↔ (digitValue? c).isSome ∨ c = '+' ∧ place % 2 = 1 := by
  rw [digitAt?]
  split
  · rename_i hplus
    exact iff_of_true ⟨0, rfl⟩ (.inr hplus)
  · rename_i hplus
    rw [← Option.isSome_iff_exists, or_iff_left hplus]

theorem exists_number?_iff_isReadable {digits : List Char} :
    (∃ n, number? digits = some n) ↔ IsReadable digits := by
  induction digits with
  | nil => simp [number?, IsReadable]
  | cons c rest ih =>
    rw [isReadable_cons_iff, ← exists_digitAt?_iff, ← ih]
    simp only [number?_cons_eq_some_iff]
    constructor
    · rintro ⟨n, d, m, hd, hm, -⟩
      exact ⟨⟨d, hd⟩, m, hm⟩
    · rintro ⟨⟨d, hd⟩, m, hm⟩
      exact ⟨_, d, m, hd, hm, rfl⟩

/-! ### Texts that are read -/

variable {text : String}

theorem Shows.spells {values : List Nat} (h : Shows text values) :
    Spells text (Nat.ofDigits 16 values.reverse) values.length := by
  obtain ⟨mark, hmark, digits, hpads, hvalues⟩ := h
  exact ⟨mark, hmark, digits, hpads, number?_eq_ofDigits hvalues, hvalues.length_eq⟩

/-- **Hexadecimal texts are read**, with two digits for each byte of their value. -/
theorem Shows.exists_decode {values : List Nat} (h : Shows text values) :
    ∃ b, decode text = .ok b ∧ b.length = (values.length + 1) / 2 ∧
      Bytes.toNat b = Nat.ofDigits 16 values.reverse := by
  obtain ⟨b, hvalue, hlength⟩ := h.spells.exists_bytes
  exact ⟨b, decode_eq_ok_iff.mpr ⟨_, hvalue ▸ h.spells, hlength⟩, hlength, hvalue⟩

theorem exists_decode_iff : (∃ b, decode text = .ok b) ↔ ∃ n length, Spells text n length := by
  simp only [decode_eq_ok_iff]
  constructor
  · rintro ⟨b, length, hspells, -⟩
    exact ⟨_, length, hspells⟩
  · rintro ⟨n, length, hspells⟩
    obtain ⟨b, rfl, hlength⟩ := hspells.exists_bytes
    exact ⟨b, length, hspells, hlength⟩

/-- Readable texts are read, and no others. -/
theorem exists_decode_iff_isReadable :
    (∃ b, decode text = .ok b)
      ↔ ∃ mark ∈ marks, ∃ digits, Text.Pads text (mark ++ digits) ∧ IsReadable digits := by
  rw [exists_decode_iff]
  simp only [← exists_number?_iff_isReadable]
  constructor
  · rintro ⟨n, length, mark, hmark, digits, hpads, hnumber, -⟩
    exact ⟨mark, hmark, digits, hpads, n, hnumber⟩
  · rintro ⟨mark, hmark, digits, hpads, n, hnumber⟩
    exact ⟨n, _, mark, hmark, digits, hpads, hnumber, rfl⟩

/-- What is read is hexadecimal, but for plus signs. -/
theorem exists_shows_iff :
    (∃ values, Shows text values) ↔ (∃ b, decode text = .ok b) ∧ '+' ∉ text.toList := by
  simp only [decode_eq_ok_iff, ← exists_isHexadecimal_iff, Shows, IsHexadecimal,
    ← exists_values_iff]
  constructor
  · rintro ⟨values, mark, hmark, digits, hpads, hvalues⟩
    exact ⟨_, mark, hmark, digits, hpads, ⟨values, hvalues⟩, rfl⟩
  · rintro ⟨_, mark, hmark, digits, hpads, ⟨values, hvalues⟩, -⟩
    exact ⟨values, mark, hmark, digits, hpads, hvalues⟩

/-- A byte string of fixed length is what is read, with zeros in front of it, as long as there are
no more of them than a byte string can have. -/
theorem decodePadded_eq_ok_iff_decode {width : Nat} {w : FixedBytes width} :
    decodePadded width text = .ok w
      ↔ ∃ b, decode text = .ok b ∧ b.length ≤ width ∧ width - b.length ≤ Bytes.greatestSize ∧
        w.bytes = List.replicate (width - b.length) 0 ++ b := by
  rw [decodePadded]
  cases hdecode : decode text with
  | error e => simp
  | ok b =>
    simp only [Except.ok.injEq, exists_eq_left']
    split
    · rename_i hle
      split
      · rename_i hsize
        rw [Except.ok.injEq, FixedBytes.ext_iff, eq_comm]
        exact ⟨fun h ↦ ⟨hle, hsize, h⟩, fun h ↦ h.2.2⟩
      · rename_i hsize
        simp [hsize]
    · rename_i hle
      simp [hle]

/-! ### The grammar -/

/-- **Hexadecimal texts are read, and nothing else but texts with a plus sign.** The byte string has
the value of the digits and a byte for each two of them, the first of which may stand alone. A plus
sign is read where an odd number of digits stands behind it. Where the length is fixed, the same
texts are read as long as the byte string is not too long, and the value is the same; only more
zeros than a byte string can have are not put in front. -/
theorem decode_hexadecimal (text : String) :
    (∀ values, Shows text values → ∃ b, decode text = .ok b ∧
      b.length = (values.length + 1) / 2 ∧ Bytes.toNat b = Nat.ofDigits 16 values.reverse) ∧
    ((∃ values, Shows text values) ↔ (∃ b, decode text = .ok b) ∧ '+' ∉ text.toList) ∧
    ((∃ b, decode text = .ok b)
      ↔ ∃ mark ∈ marks, ∃ digits, Text.Pads text (mark ++ digits) ∧ IsReadable digits) ∧
    ∀ width, ((∃ w, decodePadded width text = .ok w)
        ↔ ∃ b, decode text = .ok b ∧ b.length ≤ width ∧
          width - b.length ≤ Bytes.greatestSize) ∧
      ∀ w b, decodePadded width text = .ok w → decode text = .ok b →
        w.bytes.length = width ∧ Bytes.toNat w.bytes = Bytes.toNat b := by
  refine ⟨fun values h ↦ h.exists_decode, exists_shows_iff, exists_decode_iff_isReadable,
    fun width ↦ ⟨?_, ?_⟩⟩
  · constructor
    · rintro ⟨w, hw⟩
      obtain ⟨b, hb, hle, hsize, -⟩ := decodePadded_eq_ok_iff_decode.mp hw
      exact ⟨b, hb, hle, hsize⟩
    · rintro ⟨b, hb, hle, hsize⟩
      exact ⟨.leftPad width b hle, decodePadded_eq_ok_iff_decode.mpr ⟨b, hb, hle, hsize, rfl⟩⟩
  · intro w b hw hb
    obtain ⟨b', hb', -, -, hbytes⟩ := decodePadded_eq_ok_iff_decode.mp hw
    obtain rfl : b = b' := Except.ok.inj (hb.symm.trans hb')
    exact ⟨w.length_eq, by rw [hbytes, Bytes.toNat_replicate_zero_append]⟩

/-- Three digits of both cases between blanks, the first of them alone in its byte. -/
theorem decode_hexadecimal_odd :
    Shows " 0XaBc\n" [10, 11, 12] ∧ ∃ b, decode " 0XaBc\n" = .ok b ∧ b.length = 2 ∧
      Bytes.toNat b = 0xabc := by
  have hshows : Shows " 0XaBc\n" [10, 11, 12] := by
    refine ⟨['0', 'X'], by simp [marks], ['a', 'B', 'c'], ⟨[' '], ['\n'], by decide, ?_, ?_⟩, ?_⟩
    · exact List.forall_mem_singleton.mpr rfl
    · exact List.forall_mem_singleton.mpr rfl
    · exact .cons (by decide) (.cons (by decide) (.cons (by decide) .nil))
  obtain ⟨b, hb, hlength, hvalue⟩ := (decode_hexadecimal " 0XaBc\n").1 _ hshows
  exact ⟨hshows, b, hb, hlength, hvalue⟩

/-- Not all that is read is hexadecimal: a plus sign is taken for the first digit of a pair. -/
theorem not_forall_decode_hexadecimal :
    ¬ ∀ text, (∃ b, decode text = .ok b) ↔ ∃ values, Shows text values := by
  intro h
  have hread : decode "0x+1" = .ok [1] := by decide
  obtain ⟨values, hshows⟩ := (h "0x+1").mp ⟨_, hread⟩
  exact (exists_shows_iff.mp ⟨values, hshows⟩).2 (by decide)

end ExecState.Hex

namespace ExecState.Hex

/-!
## Written hexadecimal texts read back

A byte string is written with two lower-case digits for each byte. Whoever passes such a text on may
put a mark in front, change the case of letters or surround it by blanks: all these are forms of the
byte string (`Hex.IsForm`), and every form of it is read as the byte string
(`Hex.IsForm.decode_eq`). The digits themselves are what is written for what they are read as
(`Hex.exists_digits_iff`), so that writing loses nothing and reading adds nothing.

Numbers are another matter, since they are written without leading zeros and may have an odd number
of digits. Where the length is fixed the reader puts back what is missing, a single digit before the
first pair and whole bytes before that (`Hex.decodePadded_hexadecimal`).
-/

/-! ### Forms of a byte string -/

/-- Whether a text is a form of a byte string: its digits, with letters of either case, behind a
mark or none, with nothing but blanks around. -/
def IsForm (text : String) (b : Bytes) : Prop :=
  ∃ mark ∈ marks, ∃ ds, Text.Pads text (mark ++ ds) ∧ ds.map Char.toLower = digits b

theorem exists_digitChar_of_mem_digits {b : Bytes} {c : Char} (h : c ∈ digits b) :
    ∃ n < 16, digitChar n = c := by
  obtain ⟨d, -, hc⟩ := List.mem_flatMap.mp h
  have hd := d.toNat_lt
  obtain rfl | rfl : c = digitChar (d.toNat / 16) ∨ c = digitChar (d.toNat % 16) := by
    simpa [byteDigits] using hc
  · exact ⟨_, by omega, rfl⟩
  · exact ⟨_, by omega, rfl⟩

theorem number?_of_map_toLower {ds : List Char} {b : Bytes}
    (h : ds.map Char.toLower = digits b) : number? ds = some (Bytes.toNat b) := by
  obtain ⟨hwritten, -⟩ := number?_of_pairs? (pairs?_digits b)
  have hdigits : ∀ c ∈ digits b, (digitValue? c).isSome := by
    intro c hc
    obtain ⟨n, hn, rfl⟩ := exists_digitChar_of_mem_digits hc
    rw [digitValue?_digitChar hn]
    rfl
  obtain ⟨values, hvalues⟩ := exists_values_iff.mpr hdigits
  have hread : List.Forall₂ (fun c d ↦ digitValue? c = some d) ds values := by
    rw [← h, List.forall₂_map_left_iff] at hvalues
    exact hvalues.imp fun c d hd ↦ (digitValue?_toLower c).symm.trans hd
  rw [number?_eq_ofDigits hread, ← number?_eq_ofDigits hvalues, hwritten]

variable {text : String} {b : Bytes}

/-- **Every form of a byte string is read as the byte string.** -/
theorem IsForm.decode_eq (h : IsForm text b) : decode text = .ok b := by
  obtain ⟨mark, hmark, ds, hpads, hds⟩ := h
  have hlength : ds.length = 2 * b.length := by
    rw [← (number?_of_pairs? (pairs?_digits b)).2, ← hds, List.length_map]
  refine decode_eq_ok_iff.mpr ⟨ds.length, ⟨mark, hmark, ds, hpads, number?_of_map_toLower hds, rfl⟩,
    ?_⟩
  omega

/-- A map of characters that leaves digits alone. -/
theorem map_digits_eq_self {f : Char → Char} (h : ∀ n < 16, f (digitChar n) = digitChar n)
    (b : Bytes) : (digits b).map f = digits b := by
  have hall : ∀ c ∈ digits b, f c = c := by
    intro c hc
    obtain ⟨n, hn, rfl⟩ := exists_digitChar_of_mem_digits hc
    exact h n hn
  exact (List.map_congr_left hall).trans (List.map_id' _)

/-- The written text is a form, and so is its upper-case text, behind any mark. -/
theorem isForm_append {before mark after : String}
    (hbefore : ∀ c ∈ before.toList, Text.isBlank c = true) (hmark : mark.toList ∈ marks)
    (hafter : ∀ c ∈ after.toList, Text.isBlank c = true) (b : Bytes) :
    IsForm (before ++ (mark ++ encode b) ++ after) b ∧
      IsForm (before ++ (mark ++ encode b).toUpper ++ after) b := by
  have hupper : mark.toList.map Char.toUpper ∈ marks := by
    have hmarks : ∀ m ∈ marks, m.map Char.toUpper ∈ marks := by decide
    exact hmarks _ hmark
  refine ⟨⟨_, hmark, digits b, ⟨_, _, ?_, hbefore, hafter⟩, map_digits_eq_self (by decide) b⟩,
    ⟨_, hupper, (digits b).map Char.toUpper, ⟨_, _, ?_, hbefore, hafter⟩, ?_⟩⟩
  · simp [encode]
  · simp [encode, String.toUpper, String.toList_map]
  · rw [List.map_map]
    exact map_digits_eq_self (by decide) b

theorem decode_encodeMarked (b : Bytes) : decode (encodeMarked b) = .ok b := by
  refine decode_eq_ok_iff.mpr ⟨_, spells_encodeMarked b, ?_⟩
  omega

/-! ### Lower-case digits are what is written -/

/-- Whether a character is one of the digits that are written. -/
def IsLowerDigit (c : Char) : Prop := ('0' ≤ c ∧ c ≤ '9') ∨ 'a' ≤ c ∧ c ≤ 'f'

theorem isLowerDigit_iff {c : Char} : IsLowerDigit c ↔ ∃ n < 16, digitChar n = c := by
  constructor
  · intro h
    have hval : c.val.toNat = c.toNat := rfl
    simp only [IsLowerDigit, Char.le_def, UInt32.le_iff_toNat_le, hval, Char.reduceVal,
      UInt32.reduceToNat] at h
    obtain hfigure | hletter := h
    · refine ⟨c.toNat - 48, by omega, ?_⟩
      rw [digitChar, if_pos (by omega), Nat.sub_add_cancel hfigure.1, Char.ofNat_toNat]
    · refine ⟨c.toNat - 87, by omega, ?_⟩
      rw [digitChar, if_neg (by omega), Nat.sub_add_cancel (by omega), Char.ofNat_toNat]
  · rintro ⟨n, hn, rfl⟩
    have hdigit : ∀ n < 16, ('0' ≤ digitChar n ∧ digitChar n ≤ '9') ∨
        'a' ≤ digitChar n ∧ digitChar n ≤ 'f' := by decide
    exact hdigit n hn

theorem exists_digits_iff {cs : List Char} :
    (∃ b, digits b = cs) ↔ cs.length % 2 = 0 ∧ ∀ c ∈ cs, IsLowerDigit c := by
  constructor
  · rintro ⟨b, rfl⟩
    obtain ⟨-, hlength⟩ := number?_of_pairs? (pairs?_digits b)
    exact ⟨by omega, fun c hc ↦ isLowerDigit_iff.mpr (exists_digitChar_of_mem_digits hc)⟩
  · rintro ⟨heven, hlower⟩
    induction cs using List.twoStepInduction with
    | nil => exact ⟨[], rfl⟩
    | singleton c => cases heven
    | cons_cons c d rest ih _ =>
      obtain ⟨m, hm, rfl⟩ := isLowerDigit_iff.mp (hlower c (by simp))
      obtain ⟨n, hn, rfl⟩ := isLowerDigit_iff.mp (hlower d (by simp))
      rw [List.length_cons, List.length_cons] at heven
      obtain ⟨b, rfl⟩ := ih (by omega) fun e he ↦ hlower e (by simp [he])
      have hbyte : (UInt8.ofNat (m * 16 + n)).toNat = m * 16 + n := by
        rw [UInt8.toNat_ofNat', Nat.mod_eq_of_lt (by omega)]
      refine ⟨UInt8.ofNat (m * 16 + n) :: b, ?_⟩
      rw [digits, List.flatMap_cons, ← digits, byteDigits, hbyte,
        show (m * 16 + n) / 16 = m by omega, show (m * 16 + n) % 16 = n by omega]
      rfl

theorem map_encode_decode (heven : text.toList.length % 2 = 0)
    (hlower : ∀ c ∈ text.toList, IsLowerDigit c) : (decode text).map encode = .ok text := by
  obtain ⟨b, hb⟩ := exists_digits_iff.mpr ⟨heven, hlower⟩
  have hencode : encode b = text := by
    rw [encode, hb, String.ofList_toList]
  have hform : IsForm text b :=
    ⟨[], by simp [marks], text.toList, ⟨[], [], by simp, by simp, by simp⟩,
      hb ▸ map_digits_eq_self (by decide) b⟩
  rw [hform.decode_eq, Except.map, hencode]

/-! ### Numbers of 256 bits -/

theorem decodePadded_hexadecimal (v : U256) :
    ∃ w : Word, decodePadded 32 v.hexadecimal = .ok w ∧ Bytes.toNat w.bytes = v.toNat := by
  have hdigit : ∀ d < 16, digitValue? d.digitChar = some d := by decide
  obtain ⟨values, hvalues, hvalue⟩ := Numeral.exists_values_toDigits (by decide) hdigit v.toNat
  have hpads : Text.Pads v.hexadecimal (['0', 'x'] ++ Nat.toDigits 16 v.toNat) :=
    ⟨[], [], by simp [U256.hexadecimal], by simp, by simp⟩
  have hshows : Shows v.hexadecimal values := ⟨['0', 'x'], by simp [marks], _, hpads, hvalues⟩
  have hlength : values.length ≤ 64 := by
    rw [← hvalues.length_eq, Nat.length_toDigits_le_iff (by decide) (by decide)]
    exact v.isLt
  obtain ⟨b, hb, hblength, hbvalue⟩ := hshows.exists_decode
  have hle : b.length ≤ 32 := by omega
  refine ⟨.leftPad 32 b hle, decodePadded_eq_ok_iff_decode.mpr ⟨b, hb, hle, ?_, rfl⟩, ?_⟩
  · exact Nat.le_trans (Nat.sub_le _ _) (by decide)
  · exact (Bytes.toNat_replicate_zero_append _ b).trans (hbvalue.trans hvalue)

/-! ### Reading back -/

/-- **What is written is read back.** The digits of a byte string, behind a mark or none, in upper
case or not, are read as the byte string, whatever blanks surround them; so is every text with the
same digits in letters of either case. Lower-case digits for whole bytes are written again as they
were. Byte strings of any length, words and addresses among them, are read back from their marked
form, and a number of 256 bits, which has no leading zeros there, from its own as the word that it
is. -/
theorem decode_written :
    (∀ (b : Bytes) (before mark after : String), (∀ c ∈ before.toList, Text.isBlank c = true) →
      mark ∈ ["", "0x", "0X"] → (∀ c ∈ after.toList, Text.isBlank c = true) →
      decode (before ++ (mark ++ encode b) ++ after) = .ok b ∧
        decode (before ++ (mark ++ encode b).toUpper ++ after) = .ok b) ∧
    (∀ (b : Bytes) (text : String), IsForm text b → decode text = .ok b) ∧
    (∀ text : String, text.toList.length % 2 = 0 → (∀ c ∈ text.toList, IsLowerDigit c) →
      (decode text).map encode = .ok text) ∧
    (∀ b : Bytes, decode (encodeMarked b) = .ok b) ∧
    (∀ (n : Nat) (w : FixedBytes n), decode (encodeMarked w.bytes) = .ok w.bytes) ∧
    ∀ v : U256,
      (∃ w : Word, decodePadded 32 v.hexadecimal = .ok w ∧ Bytes.toNat w.bytes = v.toNat) ∧
      (0 < v.toNat → ∀ rest, v.hexadecimal.toList ≠ '0' :: 'x' :: '0' :: rest) := by
  refine ⟨fun b before mark after hbefore hmark hafter ↦ ?_, fun b text h ↦ h.decode_eq,
    fun text ↦ map_encode_decode, decode_encodeMarked, fun n w ↦ decode_encodeMarked w.bytes,
    fun v ↦ ⟨decodePadded_hexadecimal v, fun hpos rest heq ↦ ?_⟩⟩
  · have hmark' : mark.toList ∈ marks := by
      have hmarks : ∀ m ∈ ["", "0x", "0X"], m.toList ∈ marks := by decide
      exact hmarks mark hmark
    obtain ⟨hform, hupper⟩ := isForm_append hbefore hmark' hafter b
    exact ⟨hform.decode_eq, hupper.decode_eq⟩
  · have hdigits : Nat.toDigits 16 v.toNat = '0' :: rest := by
      simpa [U256.hexadecimal] using heq
    exact Numeral.toDigits_ne_zero_cons (by decide) hpos rest hdigits

/-- Two bytes in upper case between blanks, with a letter in the first one only. -/
theorem decode_written_upper :
    (∀ c ∈ " ".toList, Text.isBlank c = true) ∧ (∀ c ∈ "\n".toList, Text.isBlank c = true) ∧
    " " ++ ("0x" ++ encode [0xab, 0x01]).toUpper ++ "\n" = " 0XAB01\n" ∧
    decode " 0XAB01\n" = .ok [0xab, 0x01] := by
  have hbefore : ∀ c ∈ " ".toList, Text.isBlank c = true := List.forall_mem_singleton.mpr rfl
  have hafter : ∀ c ∈ "\n".toList, Text.isBlank c = true := List.forall_mem_singleton.mpr rfl
  have htext : " " ++ ("0x" ++ encode [0xab, 0x01]).toUpper ++ "\n" = " 0XAB01\n" := by
    rw [← String.toList_inj]
    simp only [encode, String.toUpper, String.toList_append, String.toList_map,
      String.toList_ofList]
    decide
  obtain ⟨hforms, -⟩ := decode_written
  obtain ⟨-, hupper⟩ := hforms [0xab, 0x01] " " "0x" "\n" hbefore (by decide) hafter
  exact ⟨hbefore, hafter, htext, htext ▸ hupper⟩

end ExecState.Hex
