import ExecState.Json.Basic
import ExecState.Proofs.Toml.Rows

/-!
# What is printed reads back

A value is printed without blanks and read by functions that take the text from a value on and
return what follows it. So reading back is stated with something behind the value, at which a number
ends: nothing, or a separator (`Value.ReadsBack`). The fuel that bounds the depth of the calls is
counted against the characters, three for each of them.

Two things are not read as they were written. A string that spells out both halves of a surrogate
pair reads as the character of the pair, and a lexeme may be anything at all. Values without such
strings and with numerals for numbers are plain (`Value.IsPlain`), and every plain value reads back
(`Value.IsPlain.readsBack`), by induction on how it is made up.
-/

namespace ExecState.Json

/-! ## Strings -/

namespace Literal

/-- A character is written as an escape of one letter, as an escape of its code, or as it is. -/
theorem escape_cases (c : Char) :
    (∃ letter, escape c = ['\\', letter] ∧ escape? letter = some c) ∨
      (c.toNat < 0x20 ∧ escape c = escapeCode c.toNat) ∨
        (escape c = [c] ∧ c ≠ '"' ∧ c ≠ '\\' ∧ ¬c.val < 0x20) := by
  rw [escape]
  split_ifs with hquote hslash hback hfeed hline hreturn htab hcode
  · exact .inl ⟨'"', rfl, by rw [hquote]; rfl⟩
  · exact .inl ⟨'\\', rfl, by rw [hslash]; rfl⟩
  · exact .inl ⟨'b', rfl, by rw [hback]; rfl⟩
  · exact .inl ⟨'f', rfl, by rw [hfeed]; rfl⟩
  · exact .inl ⟨'n', rfl, by rw [hline]; rfl⟩
  · exact .inl ⟨'r', rfl, by rw [hreturn]; rfl⟩
  · exact .inl ⟨'t', rfl, by rw [htab]; rfl⟩
  · exact .inr (.inl ⟨UInt32.lt_iff_toNat_lt.mp hcode, rfl⟩)
  · exact .inr (.inr ⟨rfl, hquote, hslash, hcode⟩)

theorem scan_letter {letter c : Char} (h : escape? letter = some c) (rest : List Char) :
    scan ('\\' :: letter :: rest) = (scan rest).map fun p ↦ (.scalar c :: p.1, p.2) := by
  rw [scan, h]
  rintro a b c d more rfl
  cases h

theorem code?_digitChar {code : Nat} (h : code < 0x10000) :
    code? (Hex.digitChar (code / 4096 % 16)) (Hex.digitChar (code / 256 % 16))
      (Hex.digitChar (code / 16 % 16)) (Hex.digitChar (code % 16)) = some code := by
  have hdigit : ∀ n, Hex.digitValue? (Hex.digitChar (n % 16)) = some (n % 16) :=
    fun n ↦ Hex.digitValue?_digitChar (Nat.mod_lt n (by decide))
  have hvalue : ((code / 4096 % 16 * 16 + code / 256 % 16) * 16 + code / 16 % 16) * 16 + code % 16
      = code := by omega
  rw [code?, hdigit, hdigit, hdigit, hdigit]
  exact congrArg some hvalue

theorem scan_escapeCode {code : Nat} (h : code < 0x10000) (rest : List Char) :
    scan (escapeCode code ++ rest) = (scan rest).map fun p ↦ (ofCode code :: p.1, p.2) := by
  show scan ('\\' :: 'u' :: _ :: _ :: _ :: _ :: rest) = _
  rw [scan, code?_digitChar h]

/-- No character has the code of half a surrogate pair. -/
theorem ofCode_toNat (c : Char) : ofCode c.toNat = .scalar c := by
  have hvalid : c.toNat < 0xd800 ∨ 0xdfff < c.toNat ∧ c.toNat < 0x110000 := c.valid
  rw [ofCode, if_neg (by omega), Char.ofNat_toNat]

theorem scan_cons {c : Char} (hquote : c ≠ '"') (hslash : c ≠ '\\') (hcode : ¬c.val < 0x20)
    (rest : List Char) : scan (c :: rest) = (scan rest).map fun p ↦ (.scalar c :: p.1, p.2) := by
  rw [scan, if_neg hcode]
  · exact hquote
  · rintro _ _ _ _ _ heq _
    exact hslash heq
  · rintro _ _ heq _
    exact hslash heq

theorem scan_escape (c : Char) (rest : List Char) :
    scan (escape c ++ rest) = (scan rest).map fun p ↦ (.scalar c :: p.1, p.2) := by
  rcases escape_cases c with ⟨letter, hescape, hletter⟩ | ⟨hcode, hescape⟩ |
    ⟨hescape, hquote, hslash, hcode⟩
  · rw [hescape]
    exact scan_letter hletter rest
  · rw [hescape, scan_escapeCode (by omega), ofCode_toNat]
  · rw [hescape]
    exact scan_cons hquote hslash hcode rest

theorem scan_map_scalar (cs rest : List Char) :
    scan ((cs.map CodePoint.scalar).flatMap write ++ '"' :: rest)
      = some (cs.map .scalar, rest) := by
  induction cs with
  | nil => rfl
  | cons c cs ih =>
    rw [List.map_cons, List.flatMap_cons, List.append_assoc, write, scan_escape, ih]
    rfl

theorem pairUp_map_scalar (cs : List Char) : pairUp (cs.map .scalar) = cs.map .scalar := by
  induction cs with
  | nil => rfl
  | cons c rest ih =>
    rw [List.map_cons, pairUp, ih]
    rintro x y more heq
    cases heq

theorem read?_quote (s : String) (rest : List Char) :
    ∃ body, (ofString s).quote ++ rest = '"' :: body ∧ read? body = some (ofString s, rest) := by
  refine ⟨(ofString s).flatMap write ++ '"' :: rest, by simp [quote], ?_⟩
  rw [read?, ofString, scan_map_scalar, Option.map_some, pairUp_map_scalar]

end Literal

/-! ## Numbers -/

/-- Whether a text may stand behind a value: it is empty, or it begins with a separator. -/
def Closes (rest : List Char) : Prop :=
  rest = [] ∨ ∃ c tail, rest = c :: tail ∧ (c = ',' ∨ c = ']' ∨ c = '}')

section Numbers

variable {ds rest : List Char}

/-- What closes a number is none of its parts. -/
theorem Closes.ends (h : Closes rest) :
    rest.takeWhile isDigit = [] ∧ rest.dropWhile isDigit = rest ∧
      fraction? rest = some ([], rest) ∧ exponent? rest = some ([], rest) := by
  rcases h with rfl | ⟨c, tail, rfl, rfl | rfl | rfl⟩ <;> exact ⟨rfl, rfl, rfl, rfl⟩

theorem isDigit_of_mem (hds : ∀ d ∈ ds, d.isDigit = true) : ∀ d ∈ ds, isDigit d = true := by
  intro d hd
  have hrange := hds d hd
  rwa [Char.isDigit] at hrange

theorem digits?_append (hne : ds ≠ []) (hds : ∀ d ∈ ds, d.isDigit = true) (hrest : Closes rest) :
    digits? (ds ++ rest) = some (ds, rest) := by
  have hdigits := isDigit_of_mem hds
  obtain ⟨htake, hdrop, -⟩ := hrest.ends
  rw [digits?, List.takeWhile_append_of_pos hdigits, List.dropWhile_append_of_pos hdigits, htake,
    hdrop, List.append_nil]
  exact if_neg (by simpa using hne)

theorem whole?_append (h : Toml.IsNumeral ds) (hrest : Closes rest) :
    whole? (ds ++ rest) = some (ds, rest) := by
  obtain ⟨d, more, rfl, hd⟩ := h.exists_cons
  by_cases hzero : d = '0'
  · subst hzero
    rw [h.eq_nil_of_zero more rfl]
    rfl
  · rw [List.cons_append, whole?.eq_2 _ fun _ heq ↦ hzero (List.cons.inj heq).1]
    exact digits?_append h.ne_nil h.isDigit hrest

theorem number?_append (h : Toml.IsNumeral ds) (hrest : Closes rest) :
    number? (ds ++ rest) = some (ds, rest) := by
  obtain ⟨-, -, hfraction, hexponent⟩ := hrest.ends
  rw [number?.eq_2 _ fun _ ↦ h.append_ne_cons (by decide), unsigned?, whole?_append h hrest]
  simp [hfraction, hexponent]

end Numbers

theorem natural?_repr (n : Nat) : Value.natural? (.number (Nat.repr n).toList) = some n := by
  have hdigits := isDigit_of_mem (Toml.isNumeral_repr n).isDigit
  have hvalue : ∀ ds, natOfDigits ds = Nat.ofDigitChars 10 ds 0 := by
    intro ds
    rw [natOfDigits, Nat.ofDigitChars_eq_foldl]
    refine List.foldl_ext _ _ 0 fun m d _ ↦ ?_
    rw [Nat.mul_comm]
    rfl
  rw [Value.natural?, if_pos (List.all_eq_true.mpr hdigits), hvalue, Nat.toList_repr,
    Nat.ofDigitChars_toDigits (by decide) (by decide)]

/-! ## Values -/

theorem isBlank_of_isDigit {d : Char} (h : d.isDigit = true) : isBlank d = false := by
  have hne : ∀ c, c.isDigit = false → d ≠ c := fun c ↦ Toml.ne_of_isKind h
  simp [isBlank, hne]

theorem skipBlanks_cons {c : Char} (h : isBlank c = false) (cs : List Char) :
    skipBlanks (c :: cs) = c :: cs :=
  List.dropWhile_cons_of_neg (by simp [h])

namespace Value

/-- Whether the numbers of a value are numerals and its strings have texts. -/
inductive IsPlain : Value → Prop
  | null : IsPlain .null
  | bool (b : Bool) : IsPlain (.bool b)
  | number {ds : List Char} (h : Toml.IsNumeral ds) : IsPlain (.number ds)
  | text (s : String) : IsPlain (ofText s)
  | array {items : List Value} (h : ∀ v ∈ items, IsPlain v) : IsPlain (.array items)
  | object {members : List (Literal × Value)}
      (hkeys : ∀ m ∈ members, ∃ s, m.1 = Literal.ofString s)
      (hvalues : ∀ m ∈ members, IsPlain m.2) : IsPlain (.object members)

/-- Whether a value reads as it is printed, in front of whatever may follow. Three calls for each
character are deep enough. -/
def ReadsBack (v : Value) : Prop :=
  ∀ (fuel : Nat) (rest : List Char), Closes rest → 3 * v.print.length ≤ fuel →
    value? fuel (v.print ++ rest) = some (v, rest)

/-- What a value begins with is neither a blank nor the end of a list. -/
theorem exists_print_cons {v : Value} (h : v.IsPlain) :
    ∃ c tail, v.print = c :: tail ∧ isBlank c = false ∧ c ≠ ']' := by
  cases h with
  | null => exact ⟨'n', _, rfl, by decide, by decide⟩
  | bool b => cases b <;> exact ⟨_, _, rfl, by decide, by decide⟩
  | number h =>
    obtain ⟨d, more, hds, hd⟩ := h.exists_cons
    exact ⟨d, more, hds, isBlank_of_isDigit hd, Toml.ne_of_isKind hd (by decide)⟩
  | text s => exact ⟨'"', _, rfl, by decide, by decide⟩
  | @array items _ => cases items <;> exact ⟨'[', _, rfl, by decide, by decide⟩
  | @object members _ _ => cases members <;> exact ⟨'{', _, rfl, by decide, by decide⟩

/-- A value has a character, so there is a call to read it. -/
theorem readsBack_of_succ {v : Value} (h : v.IsPlain)
    (hread : ∀ (fuel : Nat) (rest : List Char), Closes rest → 3 * v.print.length ≤ fuel + 1 →
      value? (fuel + 1) (v.print ++ rest) = some (v, rest)) : v.ReadsBack := by
  intro fuel rest hrest hfuel
  obtain ⟨c, tail, hprint, -⟩ := exists_print_cons h
  have hlength : v.print.length = tail.length + 1 := by rw [hprint, List.length_cons]
  obtain ⟨fuel, rfl⟩ := Nat.exists_eq_succ_of_ne_zero (show fuel ≠ 0 by omega)
  exact hread fuel rest hrest hfuel

theorem readsBack_number {ds : List Char} (h : Toml.IsNumeral ds) : ReadsBack (.number ds) := by
  refine readsBack_of_succ (.number h) fun fuel rest hrest _ ↦ ?_
  obtain ⟨d, more, hds, hd⟩ := h.exists_cons
  have hskip : skipBlanks (ds ++ rest) = ds ++ rest := by
    rw [hds]
    exact skipBlanks_cons (isBlank_of_isDigit hd) _
  rw [print, value?, hskip]
  split
  -- nothing else begins with a digit
  iterate 6 next heq => exact absurd heq (h.append_ne_cons (by decide))
  rw [number?_append h hrest]
  rfl

theorem readsBack_text (s : String) : ReadsBack (ofText s) := by
  refine readsBack_of_succ (.text s) fun fuel rest _ _ ↦ ?_
  obtain ⟨body, hbody, hread⟩ := Literal.read?_quote s rest
  rw [ofText, print, hbody, value?, skipBlanks_cons (by decide)]
  simp only [hread, Option.map_some]

/-! ### Lists -/

section Lists

variable {v : Value} {items : List Value}

theorem closes_printItems (items : List Value) (rest : List Char) :
    Closes (printItems items ++ rest) := by
  cases items with
  | nil => exact .inr ⟨']', _, rfl, by simp⟩
  | cons v items => exact .inr ⟨',', _, rfl, by simp⟩

theorem items?_print (h : ∀ w ∈ v :: items, w.ReadsBack) (fuel : Nat) (rest : List Char)
    (hfuel : 3 * (v.print ++ printItems items).length ≤ fuel) :
    items? fuel (v.print ++ (printItems items ++ rest)) = some (v :: items, rest) := by
  induction items generalizing v fuel with
  | nil =>
    rw [printItems, List.length_append, List.length_singleton] at hfuel
    obtain ⟨fuel, rfl⟩ := Nat.exists_eq_succ_of_ne_zero (show fuel ≠ 0 by omega)
    have hv := h v List.mem_cons_self fuel _ (closes_printItems [] rest) (by omega)
    rw [items?, hv]
    rfl
  | cons w items ih =>
    rw [printItems, List.length_append, List.length_cons] at hfuel
    obtain ⟨fuel, rfl⟩ := Nat.exists_eq_succ_of_ne_zero (show fuel ≠ 0 by omega)
    have hv := h v List.mem_cons_self fuel _ (closes_printItems (w :: items) rest) (by omega)
    have hitems := ih (fun x hx ↦ h x (List.mem_cons_of_mem v hx)) fuel (by omega)
    rw [items?, hv]
    show (items? fuel (w.print ++ printItems items ++ rest)).map (fun p ↦ (v :: p.1, p.2)) = _
    rw [List.append_assoc, hitems]
    rfl

theorem readsBack_array (hplain : ∀ v ∈ items, v.IsPlain) (h : ∀ v ∈ items, v.ReadsBack) :
    ReadsBack (.array items) := by
  refine readsBack_of_succ (.array hplain) fun fuel rest _ hfuel ↦ ?_
  cases items with
  | nil => rfl
  | cons v items =>
    rw [print, List.length_cons] at hfuel
    have hitems := items?_print h fuel rest (by omega)
    obtain ⟨c, tail, hv, hblank, hc⟩ := exists_print_cons (hplain v List.mem_cons_self)
    have hskip : skipBlanks (v.print ++ (printItems items ++ rest))
        = v.print ++ (printItems items ++ rest) := by
      rw [hv]
      exact skipBlanks_cons hblank _
    rw [print, List.cons_append, List.append_assoc, value?, skipBlanks_cons (by decide)]
    simp only [hskip]
    split
    · next heq =>
      rw [hv] at heq
      exact absurd (List.cons.inj heq).1 hc
    · rw [hitems]
      rfl

end Lists

/-! ### Objects -/

section Objects

variable {m : Literal × Value} {members : List (Literal × Value)}

theorem closes_printMembers (members : List (Literal × Value)) (rest : List Char) :
    Closes (printMembers members ++ rest) := by
  cases members with
  | nil => exact .inr ⟨'}', _, rfl, by simp⟩
  | cons m members => exact .inr ⟨',', _, rfl, by simp⟩

theorem member?_print (hkey : ∃ s, m.1 = Literal.ofString s) (hvalue : m.2.ReadsBack)
    {rest : List Char} (hrest : Closes rest) (fuel : Nat)
    (hfuel : 3 * (printMember m).length ≤ fuel) :
    Json.member? fuel (printMember m ++ rest) = some (m, rest) := by
  obtain ⟨key, v⟩ := m
  obtain ⟨s, rfl⟩ := hkey
  rw [printMember, List.length_append, List.length_cons] at hfuel
  obtain ⟨fuel, rfl⟩ := Nat.exists_eq_succ_of_ne_zero (show fuel ≠ 0 by omega)
  obtain ⟨body, hbody, hread⟩ := Literal.read?_quote s (':' :: (v.print ++ rest))
  have hv : value? fuel (v.print ++ rest) = some (v, rest) :=
    hvalue fuel rest hrest (show 3 * v.print.length ≤ fuel by omega)
  rw [printMember, List.append_assoc, List.cons_append, hbody, Json.member?,
    skipBlanks_cons (by decide)]
  simp only [hread, skipBlanks_cons (show isBlank ':' = false by decide)]
  rw [hv]
  rfl

theorem members?_print (hkeys : ∀ p ∈ m :: members, ∃ s, p.1 = Literal.ofString s)
    (hvalues : ∀ p ∈ m :: members, p.2.ReadsBack) (fuel : Nat) (rest : List Char)
    (hfuel : 3 * (printMember m ++ printMembers members).length ≤ fuel) :
    members? fuel (printMember m ++ (printMembers members ++ rest))
      = some (m :: members, rest) := by
  induction members generalizing m fuel with
  | nil =>
    rw [printMembers, List.length_append, List.length_singleton] at hfuel
    obtain ⟨fuel, rfl⟩ := Nat.exists_eq_succ_of_ne_zero (show fuel ≠ 0 by omega)
    have hm := member?_print (hkeys m List.mem_cons_self) (hvalues m List.mem_cons_self)
      (closes_printMembers [] rest) fuel (by omega)
    rw [members?, hm]
    rfl
  | cons p members ih =>
    rw [printMembers, List.length_append, List.length_cons] at hfuel
    obtain ⟨fuel, rfl⟩ := Nat.exists_eq_succ_of_ne_zero (show fuel ≠ 0 by omega)
    have hm := member?_print (hkeys m List.mem_cons_self) (hvalues m List.mem_cons_self)
      (closes_printMembers (p :: members) rest) fuel (by omega)
    have hmembers := ih (fun q hq ↦ hkeys q (List.mem_cons_of_mem m hq))
      (fun q hq ↦ hvalues q (List.mem_cons_of_mem m hq)) fuel (by omega)
    rw [members?, hm]
    show (members? fuel (printMember p ++ printMembers members ++ rest)).map
      (fun q ↦ (m :: q.1, q.2)) = _
    rw [List.append_assoc, hmembers]
    rfl

theorem readsBack_object (hplain : IsPlain (.object members))
    (hkeys : ∀ m ∈ members, ∃ s, m.1 = Literal.ofString s) (h : ∀ m ∈ members, m.2.ReadsBack) :
    ReadsBack (.object members) := by
  refine readsBack_of_succ hplain fun fuel rest _ hfuel ↦ ?_
  cases members with
  | nil => rfl
  | cons m members =>
    rw [print, List.length_cons] at hfuel
    have hmembers := members?_print hkeys h fuel rest (by omega)
    -- a member begins with the quote of its key
    obtain ⟨body, hbody⟩ :
        ∃ body, printMember m ++ (printMembers members ++ rest) = '"' :: body := by
      obtain ⟨key, v⟩ := m
      exact ⟨_, rfl⟩
    have hskip : skipBlanks ('"' :: body) = '"' :: body := skipBlanks_cons (by decide) body
    rw [hbody] at hmembers
    rw [print, List.cons_append, List.append_assoc, hbody, value?, skipBlanks_cons (by decide)]
    simp only [hskip, hmembers, Option.map_some]
    rfl

end Objects

/-- **A plain value reads as it is printed.** -/
theorem IsPlain.readsBack {v : Value} (h : v.IsPlain) : v.ReadsBack := by
  induction h with
  | null => exact readsBack_of_succ .null fun _ _ _ _ ↦ rfl
  | bool b => exact readsBack_of_succ (.bool b) fun _ _ _ _ ↦ by cases b <;> rfl
  | number h => exact readsBack_number h
  | text s => exact readsBack_text s
  | array h ih => exact readsBack_array h ih
  | object hkeys hvalues ih => exact readsBack_object (.object hkeys hvalues) hkeys ih

end Value

theorem read?_print {v : Value} (h : v.IsPlain) : read? (String.ofList v.print) = some v := by
  have hvalue := h.readsBack (fuelFor v.print) [] (.inl rfl) (Nat.le_add_right _ _)
  rw [List.append_nil] at hvalue
  rw [read?, String.toList_ofList, hvalue]
  rfl

end ExecState.Json
