import ExecState.Bytes.Hex
import ExecState.Numeral.Quantity
import Mathlib.Data.List.Forall2
import Mathlib.Data.Nat.Digits.Defs
import Mathlib.Tactic.Ring
import Mathlib.Tactic.SplitIfs

/-!
# Numbers by their digits

What the readers of numerals have in common, and the plainest of them.
-/

namespace ExecState

/-!
## Digits and their values

The readers of numerals take characters for digits one by one, and their lemmas speak of rows of
values. Here is what the readers of any radix have in common: the digits that a number is written
with have its value (`Numeral.exists_values_toDigits`), there is no zero in front of them, the
letters among digits may be of either case, and a digit that is read first goes to the number before
it (`Numeral.mul_pow_length_cons_add`).
-/

/-! ### Letters of either case -/

namespace Unsigned

theorem digit?_toLower (radix : Nat) (c : Char) : digit? radix c.toLower = digit? radix c := by
  by_cases hupper : 65 ≤ c.toNat ∧ c.toNat ≤ 90
  · have hval : c.val.toNat = c.toNat := rfl
    have hlower : c.toLower.val.toNat = c.toNat + 32 := by
      delta Char.toLower
      rw [dif_pos (by simpa [UInt32.le_iff_toNat_le] using hupper), UInt32.toNat_add, hval]
      exact Nat.mod_eq_of_lt (Nat.lt_of_le_of_lt (Nat.add_le_add_right hupper.2 32) (by decide))
    have hlower' : c.toLower.toNat = c.toNat + 32 := hlower
    simp only [digit?, Char.le_def, UInt32.le_iff_toNat_le, hval, hlower, hlower', Char.reduceVal,
      UInt32.reduceToNat]
    -- the lower-case letter has its own range, and it has the same value there
    have hfigure : ¬ (48 ≤ c.toNat + 32 ∧ c.toNat + 32 ≤ 57) := by omega
    have hletter : 97 ≤ c.toNat + 32 ∧ c.toNat + 32 ≤ 122 := by omega
    have hfigure' : ¬ (48 ≤ c.toNat ∧ c.toNat ≤ 57) := by omega
    have hletter' : ¬ (97 ≤ c.toNat ∧ c.toNat ≤ 122) := by omega
    have hvalue : c.toNat + 32 - 87 = c.toNat - 55 := by omega
    rw [if_neg hfigure, if_pos hletter, if_neg hfigure', if_neg hletter', if_pos hupper, hvalue]
  · delta Char.toLower
    rw [dif_neg (by simpa [UInt32.le_iff_toNat_le] using hupper)]

theorem digit?_sixteen (c : Char) : digit? 16 c = Hex.digitValue? c := by
  have hval : c.val.toNat = c.toNat := rfl
  simp only [digit?, Hex.digitValue?, Char.le_def, UInt32.le_iff_toNat_le, hval, Char.reduceVal,
    UInt32.reduceToNat]
  by_cases hfigure : 48 ≤ c.toNat ∧ c.toNat ≤ 57
  · rw [if_pos hfigure, if_pos hfigure, if_pos (by omega)]
  rw [if_neg hfigure, if_neg hfigure]
  by_cases hlower : 97 ≤ c.toNat ∧ c.toNat ≤ 102
  · have hletter : 97 ≤ c.toNat ∧ c.toNat ≤ 122 := by omega
    rw [if_pos hlower, if_pos hletter, if_pos (by omega)]
  rw [if_neg hlower]
  by_cases hupper : 65 ≤ c.toNat ∧ c.toNat ≤ 70
  · have hletter : ¬ (97 ≤ c.toNat ∧ c.toNat ≤ 122) := by omega
    have hletter' : 65 ≤ c.toNat ∧ c.toNat ≤ 90 := by omega
    rw [if_pos hupper, if_neg hletter, if_pos hletter', if_pos (by omega)]
  · rw [if_neg hupper, if_neg]
    split_ifs <;> omega

end Unsigned

theorem Hex.digitValue?_toLower (c : Char) : digitValue? c.toLower = digitValue? c := by
  rw [← Unsigned.digit?_sixteen, Unsigned.digit?_toLower, Unsigned.digit?_sixteen]

/-! ### Written numbers -/

namespace Numeral

variable {radix : Nat}

/-- The value of a row of digits behind some number: the first digit goes to the number. -/
theorem mul_pow_length_cons_add (radix n d : Nat) (digits : List Nat) :
    n * radix ^ (d :: digits).length + Nat.ofDigits radix (d :: digits).reverse
      = (n * radix + d) * radix ^ digits.length + Nat.ofDigits radix digits.reverse := by
  rw [List.reverse_cons, Nat.ofDigits_append, Nat.ofDigits_singleton, List.length_reverse,
    List.length_cons, Nat.pow_succ]
  ring

theorem exists_values_toDigits {digit? : Char → Option Nat} (hradix : 1 < radix)
    (hdigit : ∀ d < radix, digit? d.digitChar = some d) (n : Nat) :
    ∃ values, List.Forall₂ (fun c d ↦ digit? c = some d) (Nat.toDigits radix n) values ∧
      Nat.ofDigits radix values.reverse = n := by
  induction n using Nat.strong_induction_on with
  | _ n ih =>
    obtain hlt | hle := Nat.lt_or_ge n radix
    · rw [Nat.toDigits_of_lt_base hlt]
      exact ⟨[n], .cons (hdigit n hlt) .nil, Nat.ofDigits_singleton⟩
    · obtain ⟨values, hvalues, hvalue⟩ := ih (n / radix) (Nat.div_lt_self (by omega) hradix)
      have hlast : digit? (n % radix).digitChar = some (n % radix) :=
        hdigit _ (Nat.mod_lt n (by omega))
      refine ⟨values ++ [n % radix], ?_, ?_⟩
      · rw [Nat.toDigits_of_base_le hradix hle]
        exact List.rel_append hvalues (.cons hlast .nil)
      · rw [List.reverse_append, List.reverse_singleton, List.singleton_append, Nat.ofDigits_cons,
          hvalue]
        exact Nat.mod_add_div n radix

theorem exists_digitChar_of_mem_toDigits (hradix : 1 < radix) {n : Nat} {c : Char}
    (h : c ∈ Nat.toDigits radix n) : ∃ d < radix, d.digitChar = c := by
  induction n using Nat.strong_induction_on with
  | _ n ih =>
    obtain hlt | hle := Nat.lt_or_ge n radix
    · rw [Nat.toDigits_of_lt_base hlt, List.mem_singleton] at h
      exact ⟨n, hlt, h.symm⟩
    · rw [Nat.toDigits_of_base_le hradix hle, List.mem_append, List.mem_singleton] at h
      obtain hfront | hlast := h
      · exact ih (n / radix) (Nat.div_lt_self (by omega) hradix) hfront
      · exact ⟨n % radix, Nat.mod_lt n (by omega), hlast.symm⟩

theorem toDigits_ne_zero_cons (hradix : 1 < radix) {n : Nat} (h : 0 < n) (rest : List Char) :
    Nat.toDigits radix n ≠ '0' :: rest := by
  induction n using Nat.strong_induction_on generalizing rest with
  | _ n ih =>
    rw [Nat.toDigits_eq_if hradix]
    split
    · intro hzero
      rw [List.cons.injEq] at hzero
      have hn := Nat.zero_eq_digitChar.mp hzero.1.symm
      omega
    · rename_i hle
      have hpos : 0 < n / radix := Nat.div_pos (by omega) (by omega)
      intro hzero
      obtain ⟨hnil, -⟩ | ⟨tail, hhead, -⟩ := List.append_eq_cons_iff.mp hzero
      · exact Nat.toDigits_ne_nil hnil
      · exact ih (n / radix) (Nat.div_lt_self h hradix) hpos tail hhead

end Numeral

end ExecState

namespace ExecState.Unsigned

/-!
## What an unsigned number is written as

Settings, flags and bytes are read by one reader, which takes a plus sign in front and at least one
digit (`Unsigned.Spells`). It gives up where the number reaches the bound, before it has looked at
the digits that follow. They cannot make the number smaller, so a text is read exactly if it spells
a number below the bound (`Unsigned.read_eq_ok_iff`).
-/

/-- Whether characters have these values as digits in a radix. -/
def HasValues (radix : Nat) (cs : List Char) (values : List Nat) : Prop :=
  List.Forall₂ (fun c d ↦ digit? radix c = some d) cs values

/-- Whether a text spells a number by its digits in a radix, of which there is at least one, perhaps
behind a plus sign. -/
def Spells (radix : Nat) (cs : List Char) (n : Nat) : Prop :=
  ∃ body values, (cs = body ∨ cs = '+' :: body) ∧ body ≠ [] ∧ HasValues radix body values ∧
    n = Nat.ofDigits radix values.reverse

variable {radix bound : Nat} {cs : List Char}

/-- Digits are appended to the value as long as the whole number stays below the bound. -/
theorem digits_eq_ok_iff (hradix : 0 < radix) {value n : Nat} (hvalue : value < bound) :
    digits radix bound cs value = .ok n
      ↔ ∃ values, HasValues radix cs values ∧
        n = value * radix ^ values.length + Nat.ofDigits radix values.reverse ∧ n < bound := by
  induction cs generalizing value with
  | nil =>
    simp only [digits, HasValues, List.forall₂_nil_left_iff, Except.ok.injEq, exists_eq_left,
      List.length_nil, Nat.pow_zero, Nat.mul_one, List.reverse_nil, Nat.ofDigits_nil, Nat.add_zero]
    constructor
    · rintro rfl
      exact ⟨rfl, hvalue⟩
    · exact fun h ↦ h.1.symm
  | cons c rest ih =>
    have hcons : ∀ values, HasValues radix (c :: rest) values
        ↔ ∃ d more, digit? radix c = some d ∧ HasValues radix rest more ∧ values = d :: more :=
      fun values ↦ List.forall₂_cons_left_iff
    simp only [hcons]
    rw [digits]
    cases hd : digit? radix c with
    | none => simp
    | some d =>
      dsimp only
      split
      · rename_i hlt
        rw [ih hlt]
        constructor
        · rintro ⟨values, hvalues, hn, hbound⟩
          rw [← Numeral.mul_pow_length_cons_add] at hn
          exact ⟨d :: values, ⟨d, values, rfl, hvalues, rfl⟩, hn, hbound⟩
        · rintro ⟨_, ⟨d', values, hd', hvalues, rfl⟩, hn, hbound⟩
          obtain rfl := Option.some_inj.mp hd'
          rw [Numeral.mul_pow_length_cons_add] at hn
          exact ⟨values, hvalues, hn, hbound⟩
      · -- what is too large already does not become smaller
        rename_i hlarge
        simp only [reduceCtorEq, false_iff]
        rintro ⟨_, ⟨d', values, hd', hvalues, rfl⟩, hn, hbound⟩
        obtain rfl := Option.some_inj.mp hd'
        rw [Numeral.mul_pow_length_cons_add] at hn
        have hone : 1 ≤ radix ^ values.length := Nat.one_le_pow _ _ hradix
        have hle := Nat.le_mul_of_pos_right (value * radix + d) hone
        omega

theorem digit?_plus (radix : Nat) : digit? radix '+' = none := by
  rw [digit?, if_neg]
  rw [if_neg (by decide), if_neg (by decide), if_neg (by decide)]
  exact Nat.lt_irrefl radix

theorem not_hasValues_plus {rest : List Char} {values : List Nat} :
    ¬ HasValues radix ('+' :: rest) values := by
  intro h
  obtain ⟨d, -, hd, -⟩ := List.forall₂_cons_left_iff.mp h
  rw [digit?_plus] at hd
  cases hd

theorem Spells.head_ne {n : Nat} (h : Spells 10 cs n) : cs.head? ≠ some '-' := by
  obtain ⟨body, values, rfl | rfl, hbody, hvalues, -⟩ := h
  · obtain ⟨c, rest, rfl⟩ := List.exists_cons_of_ne_nil hbody
    obtain ⟨d, -, hd, -⟩ := List.forall₂_cons_left_iff.mp hvalues
    rintro ⟨⟩
    have hnone : digit? 10 '-' = none := by decide
    rw [hnone] at hd
    cases hd
  · exact Option.some_injective _ |>.ne (by decide)

/-- **A number is read exactly from the texts that spell it**, if it lies below the bound. -/
theorem read_eq_ok_iff (hradix : 0 < radix) (hbound : 0 < bound) {n : Nat} :
    read radix bound cs = .ok n ↔ Spells radix cs n ∧ n < bound := by
  -- the body is what the digits are looked for in
  have hbody : ∀ body, digits radix bound body 0 = .ok n
      ↔ (∃ values, HasValues radix body values ∧ n = Nat.ofDigits radix values.reverse) ∧
        n < bound := by
    intro body
    rw [digits_eq_ok_iff hradix hbound]
    simp only [Nat.zero_mul, Nat.zero_add]
    constructor
    · rintro ⟨values, hvalues, hn, hlt⟩
      exact ⟨⟨values, hvalues, hn⟩, hlt⟩
    · rintro ⟨⟨values, hvalues, hn⟩, hlt⟩
      exact ⟨values, hvalues, hn, hlt⟩
  fun_cases read radix bound cs with
  | case1 =>
    simp only [reduceCtorEq, false_iff]
    rintro ⟨⟨body, values, rfl | h, hne, -⟩, -⟩
    · exact hne rfl
    · cases h
  | case2 =>
    simp only [reduceCtorEq, false_iff]
    rintro ⟨⟨body, values, rfl | h, hne, hvalues, -⟩, -⟩
    · exact not_hasValues_plus hvalues
    · rw [List.cons.injEq] at h
      exact hne h.2.symm
  | case3 rest hrest =>
    have hne : rest ≠ [] := fun h ↦ hrest (by rw [h])
    rw [hbody rest]
    refine and_congr_left fun _ ↦ ⟨?_, ?_⟩
    · rintro ⟨values, hvalues, hn⟩
      exact ⟨rest, values, .inr rfl, hne, hvalues, hn⟩
    · rintro ⟨body, values, rfl | h, -, hvalues, hn⟩
      · exact absurd hvalues not_hasValues_plus
      · rw [List.cons.injEq] at h
        exact ⟨values, h.2 ▸ hvalues, hn⟩
  | case4 cs hnil hsign hplus =>
    rw [hbody cs]
    refine and_congr_left fun _ ↦ ⟨?_, ?_⟩
    · rintro ⟨values, hvalues, hn⟩
      exact ⟨cs, values, .inl rfl, hnil, hvalues, hn⟩
    · rintro ⟨body, values, rfl | h, -, hvalues, hn⟩
      · exact ⟨values, hvalues, hn⟩
      · exact absurd h (hplus body)

theorem readUInt64_eq_ok_iff {text : String} {n : UInt64} :
    readUInt64 text = .ok n ↔ Spells 10 text.toList n.toNat := by
  have hread : readUInt64 text = .ok n ↔ read 10 UInt64.size text.toList = .ok n.toNat := by
    rw [readUInt64]
    cases hresult : read 10 UInt64.size text.toList with
    | error e => simp [Except.map]
    | ok m =>
      have hm := ((read_eq_ok_iff (by decide) (by decide)).mp hresult).2
      simp [Except.map, ← UInt64.toNat_inj, UInt64.toNat_ofNat', Nat.mod_eq_of_lt hm]
  rw [hread, read_eq_ok_iff (by decide) (by decide)]
  exact and_iff_left n.toNat_lt

theorem readHexByte_eq_ok_iff {b : UInt8} :
    readHexByte cs = .ok b ↔ Spells 16 cs b.toNat := by
  have hread : readHexByte cs = .ok b ↔ read 16 UInt8.size cs = .ok b.toNat := by
    rw [readHexByte]
    cases hresult : read 16 UInt8.size cs with
    | error e => simp [Except.map]
    | ok m =>
      have hm := ((read_eq_ok_iff (by decide) (by decide)).mp hresult).2
      simp [Except.map, ← UInt8.toNat_inj, UInt8.toNat_ofNat', Nat.mod_eq_of_lt hm]
  rw [hread, read_eq_ok_iff (by decide) (by decide)]
  exact and_iff_left b.toNat_lt

end ExecState.Unsigned
