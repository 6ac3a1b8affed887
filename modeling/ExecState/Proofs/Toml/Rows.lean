import ExecState.Proofs.Text.Unsigned
import ExecState.Toml.Parser
import Mathlib.Algebra.Group.Nat.Defs
import Mathlib.Data.List.Basic
import Mathlib.Data.List.TakeWhile

/-!
# Reading plain lines of a TOML document

A document of the plainest kind has one line for each key, with a bare name, a value without parts
and nothing else. It is read as the table of these names and values in their order, if no name
stands twice (`Toml.read?_rows`).

A number is the one value here that several readers try. Digits in front of a line break begin
neither a date nor a time of day, since the character after a row of digits is no dash and no colon;
they are no float for want of a fraction and an exponent; and no mark of a radix follows the zero
where it is the first digit, because then it is the last one too.
-/

namespace ExecState.Toml

theorem ne_of_isKind {isKind : Char → Bool} {c d : Char} (hd : isKind d = true)
    (hc : isKind c = false) : d ≠ c := by
  rintro rfl
  rw [hd] at hc
  cases hc

/-! ## Digits in front of a line break -/

theorem digitValue?_of_isDigit {c : Char} (h : c.isDigit = true) :
    Hex.digitValue? c = some (c.toNat - '0'.toNat) := by
  rw [Char.isDigit, Bool.and_eq_true, decide_eq_true_eq, decide_eq_true_eq] at h
  exact if_pos h

theorem isDigitOf_of_isDigit {c : Char} (h : c.isDigit = true) : isDigitOf 10 c = true := by
  have hvalue : c.toNat - '0'.toNat < 10 := by
    rw [Char.isDigit, Bool.and_eq_true, decide_eq_true_eq, decide_eq_true_eq] at h
    have hlow : 48 ≤ c.toNat := UInt32.le_iff_toNat_le.mp h.1
    have hhigh : c.toNat ≤ 57 := UInt32.le_iff_toNat_le.mp h.2
    exact Nat.sub_lt_left_of_lt_add hlow (Nat.lt_succ_of_le hhigh)
  rw [isDigitOf, digitValue?_of_isDigit h]
  exact decide_eq_true hvalue

theorem valueOfDigits_eq {ds : List Char} (h : ∀ d ∈ ds, d.isDigit = true) :
    valueOfDigits 10 ds = Nat.ofDigitChars 10 ds 0 := by
  rw [valueOfDigits, Nat.ofDigitChars_eq_foldl]
  refine List.foldl_ext _ _ 0 fun n d hd ↦ ?_
  rw [digitValue?_of_isDigit (h d hd), Option.getD_some, Nat.mul_comm]

/-- A text that has nothing but digits in front of its first line break. -/
def DigitLine (cs : List Char) : Prop :=
  ∃ ds rest, cs = ds ++ '\n' :: rest ∧ ∀ d ∈ ds, d.isDigit = true

theorem DigitLine.exists_cons {cs : List Char} (h : DigitLine cs) :
    ∃ c rest, cs = c :: rest ∧ (c.isDigit = true ∧ DigitLine rest ∨ c = '\n') := by
  obtain ⟨ds, rest, rfl, hds⟩ := h
  cases ds with
  | nil => exact ⟨'\n', rest, rfl, .inr rfl⟩
  | cons d ds =>
    rw [List.forall_mem_cons] at hds
    exact ⟨d, ds ++ '\n' :: rest, rfl, .inl ⟨hds.1, ds, rest, rfl, hds.2⟩⟩

theorem DigitLine.after?_eq_none {cs : List Char} {mark : Char} (h : DigitLine cs)
    (hdigit : mark.isDigit = false) (hbreak : mark ≠ '\n') : after? mark cs = none := by
  obtain ⟨c, rest, rfl, ⟨hc, -⟩ | rfl⟩ := h.exists_cons
  · exact if_neg (ne_of_isKind hc hdigit)
  · exact if_neg hbreak.symm

theorem DigitLine.of_fixed? {count : Nat} {cs ds rest : List Char} (h : DigitLine cs)
    (hread : fixed? count cs = some (ds, rest)) : DigitLine rest := by
  induction count generalizing cs ds with
  | zero =>
    cases hread
    exact h
  | succ count ih =>
    obtain ⟨c, more, rfl, ⟨-, hmore⟩ | rfl⟩ := h.exists_cons
    · rw [fixed?, Option.ite_none_right_eq_some, Option.map_eq_some_iff] at hread
      obtain ⟨-, p, hp, hrest⟩ := hread
      cases hrest
      exact ih hmore hp
    · cases hread

theorem DigitLine.of_bounded? {count low high : Nat} {cs ds rest : List Char} (h : DigitLine cs)
    (hread : bounded? count low high cs = some (ds, rest)) : DigitLine rest := by
  rw [bounded?] at hread
  cases hfixed : fixed? count cs with
  | none =>
    rw [hfixed] at hread
    cases hread
  | some p =>
    rw [hfixed, Option.ite_none_right_eq_some] at hread
    obtain ⟨-, hp⟩ := hread
    cases hp
    exact h.of_fixed? hfixed

theorem DigitLine.moment?_eq_none {cs : List Char} (h : DigitLine cs) : moment? cs = none := by
  have hdate : date? cs = none := by
    rw [date?]
    refine Option.bind_eq_none_iff.mpr ?_
    rintro ⟨y, rest⟩ hyear
    exact Option.bind_eq_none_iff.mpr fun _ hdash ↦ by
      rw [(h.of_fixed? hyear).after?_eq_none (by decide) (by decide)] at hdash
      cases hdash
  have htime : time? cs = none := by
    rw [time?]
    refine Option.bind_eq_none_iff.mpr ?_
    rintro ⟨hour, rest⟩ hhour
    exact Option.bind_eq_none_iff.mpr fun _ hcolon ↦ by
      rw [(h.of_bounded? hhour).after?_eq_none (by decide) (by decide)] at hcolon
      cases hcolon
  rw [moment?, hdate, htime]
  rfl

/-! ## Numbers -/

theorem moreDigits_append {ds rest : List Char} (h : ∀ d ∈ ds, d.isDigit = true) :
    moreDigits (isDigitOf 10) (ds ++ '\n' :: rest) = (ds, '\n' :: rest) := by
  induction ds with
  | nil => cases rest <;> rfl
  | cons d ds ih =>
    rw [List.forall_mem_cons] at h
    have hsep : d ≠ '_' := ne_of_isKind h.1 (by decide)
    rw [List.cons_append, moreDigits.eq_3 _ _ _ (fun _ _ hd ↦ absurd hd hsep),
      if_pos (isDigitOf_of_isDigit h.1), ih h.2]

/-- Digits that stand for a number as they are written: there is one at least, and the first is a
zero only where it is the only one. -/
structure IsNumeral (ds : List Char) : Prop where
  ne_nil : ds ≠ []
  isDigit : ∀ d ∈ ds, d.isDigit = true
  eq_nil_of_zero : ∀ rest, ds = '0' :: rest → rest = []

theorem isNumeral_repr (n : Nat) : IsNumeral (Nat.repr n).toList := by
  rw [Nat.toList_repr]
  refine ⟨Nat.toDigits_ne_nil, fun d ↦ Nat.isDigit_of_mem_toDigits (by decide) (by decide),
    fun rest hzero ↦ ?_⟩
  obtain rfl | hpos := Nat.eq_zero_or_pos n
  · rw [Nat.toDigits_zero] at hzero
    cases hzero
    rfl
  · exact absurd hzero (Numeral.toDigits_ne_zero_cons (by decide) hpos rest)

theorem valueOfDigits_repr (n : Nat) : valueOfDigits 10 (Nat.repr n).toList = n := by
  rw [valueOfDigits_eq (isNumeral_repr n).isDigit, Nat.toList_repr,
    Nat.ofDigitChars_toDigits (by decide) (by decide)]

namespace IsNumeral

variable {ds rest : List Char} (h : IsNumeral ds)

include h

theorem exists_cons : ∃ d more, ds = d :: more ∧ d.isDigit = true := by
  obtain ⟨d, more, rfl⟩ := List.exists_cons_of_ne_nil h.ne_nil
  exact ⟨d, more, rfl, h.isDigit d List.mem_cons_self⟩

/-- What begins with digits does not begin with anything else. -/
theorem append_ne_cons {c : Char} {tail : List Char} (hc : c.isDigit = false) :
    ds ++ rest ≠ c :: tail := by
  obtain ⟨d, more, rfl, hd⟩ := h.exists_cons
  rw [List.cons_append]
  exact fun heq ↦ ne_of_isKind hd hc (List.cons.inj heq).1

theorem sign_append : sign (ds ++ rest) = ([], ds ++ rest) :=
  sign.eq_3 _ (fun _ ↦ h.append_ne_cons (by decide)) fun _ ↦ h.append_ne_cons (by decide)

theorem whole?_append : whole? (ds ++ '\n' :: rest) = some (ds, '\n' :: rest) := by
  obtain ⟨d, more, rfl, hd⟩ := h.exists_cons
  obtain rfl | hzero := eq_or_ne d '0'
  · rw [h.eq_nil_of_zero more rfl]
    rfl
  · have hmore : ∀ d ∈ more, d.isDigit = true := (List.forall_mem_cons.mp h.isDigit).2
    rw [List.cons_append, whole?.eq_2 _ fun _ heq ↦ hzero (List.cons.inj heq).1, digits?,
      if_pos (isDigitOf_of_isDigit hd), moreDigits_append hmore]

theorem float?_append : float? (ds ++ '\n' :: rest) = none := by
  have hword : word? (ds ++ '\n' :: rest) = none :=
    word?.eq_3 _ (fun _ ↦ h.append_ne_cons (by decide)) fun _ ↦ h.append_ne_cons (by decide)
  rw [float?, h.sign_append]
  simp only [hword]
  rw [numeric?, h.sign_append]
  simp only [h.whole?_append]
  rfl

theorem decimal?_append :
    decimal? (ds ++ '\n' :: rest) = (fit? (valueOfDigits 10 ds)).map (·, '\n' :: rest) := by
  rw [decimal?, h.sign_append]
  simp only [h.whole?_append]
  rfl

theorem integer?_append :
    integer? (ds ++ '\n' :: rest) = (fit? (valueOfDigits 10 ds)).map (·, '\n' :: rest) := by
  obtain ⟨d, more, hds, hd⟩ := h.exists_cons
  have hmark : ∀ mark tail, ds ++ '\n' :: rest = '0' :: mark :: tail → mark = '\n' := by
    intro mark tail heq
    rw [hds, List.cons_append, List.cons.injEq] at heq
    obtain ⟨rfl, heq⟩ := heq
    rw [h.eq_nil_of_zero more hds, List.nil_append, List.cons.injEq] at heq
    exact heq.1.symm
  rw [integer?.eq_4, h.decimal?_append]
  · exact fun tail heq ↦ absurd (hmark _ tail heq) (by decide)
  · exact fun tail heq ↦ absurd (hmark _ tail heq) (by decide)
  · exact fun tail heq ↦ absurd (hmark _ tail heq) (by decide)

end IsNumeral

/-! ## Values that stand alone on the rest of their line -/

/-- Whether a text is read as a value where a line break follows. It does not begin with a blank,
nor as an array or an inline table does. -/
structure IsScalar (text : List Char) (v : Value) : Prop where
  opening : ∃ c rest, text = c :: rest ∧ isBlank c = false ∧ c ≠ '[' ∧ c ≠ '{'
  read : ∀ rest, scalar? (text ++ '\n' :: rest) = some (v, '\n' :: rest)

theorem isScalar_true : IsScalar "true".toList (.boolean true) :=
  ⟨⟨_, _, rfl, rfl, by decide, by decide⟩, fun _ ↦ rfl⟩

theorem isScalar_false : IsScalar "false".toList (.boolean false) :=
  ⟨⟨_, _, rfl, rfl, by decide, by decide⟩, fun _ ↦ rfl⟩

theorem isScalar_repr {n : Nat} (hn : n < 2 ^ 63) : IsScalar (Nat.repr n).toList (.integer n) := by
  have hnumeral := isNumeral_repr n
  refine ⟨?_, fun rest ↦ ?_⟩
  · obtain ⟨d, more, hds, hd⟩ := hnumeral.exists_cons
    have hblank : isBlank d = false := by
      rw [isBlank, Bool.or_eq_false_iff, decide_eq_false_iff_not, decide_eq_false_iff_not]
      exact ⟨ne_of_isKind hd (by decide), ne_of_isKind hd (by decide)⟩
    exact ⟨d, more, hds, hblank, ne_of_isKind hd (by decide), ne_of_isKind hd (by decide)⟩
  · have hline : DigitLine ((Nat.repr n).toList ++ '\n' :: rest) :=
      ⟨_, rest, rfl, hnumeral.isDigit⟩
    have hfit : fit? (n : Int) = some (.integer n) := by
      refine if_pos ⟨?_, ?_⟩
      · exact Int.le_trans (show Int64.minValue.toInt ≤ 0 by decide) (Int.natCast_nonneg n)
      · exact Int.le_of_lt_add_one (Int.ofNat_lt.mpr hn)
    rw [scalar?.eq_5 _ (fun _ ↦ hnumeral.append_ne_cons (by decide))
      (fun _ ↦ hnumeral.append_ne_cons (by decide)) (fun _ ↦ hnumeral.append_ne_cons (by decide))
      fun _ ↦ hnumeral.append_ne_cons (by decide)]
    rw [hline.moment?_eq_none, hnumeral.float?_append, hnumeral.integer?_append,
      valueOfDigits_repr, hfit]
    rfl

/-! ## Lines -/

/-- A line that puts a value without parts under a bare name. -/
structure Row where
  name : String
  text : String
  value : Value
  name_ne_nil : name.toList ≠ []
  isKeyChar : ∀ c ∈ name.toList, isKeyChar c = true
  isScalar : IsScalar text.toList value

namespace Row

def line (r : Row) : List Char := r.name.toList ++ " = ".toList ++ r.text.toList ++ ['\n']

def member (r : Row) : String × Value := (r.name, r.value)

variable (r : Row) {rest : List Char}

theorem line_append : r.line ++ rest
    = r.name.toList ++ ' ' :: '=' :: ' ' :: (r.text.toList ++ '\n' :: rest) := by
  simp [line]

theorem exists_cons : ∃ c tail, r.name.toList = c :: tail ∧ Toml.isKeyChar c = true := by
  obtain ⟨c, tail, hname⟩ := List.exists_cons_of_ne_nil r.name_ne_nil
  exact ⟨c, tail, hname, r.isKeyChar c (hname ▸ List.mem_cons_self)⟩

/-- A line begins with a character of its name. -/
theorem line_append_ne_cons {c : Char} {tail : List Char} (hc : Toml.isKeyChar c = false) :
    r.line ++ rest ≠ c :: tail := by
  obtain ⟨d, more, hname, hd⟩ := r.exists_cons
  rw [line_append, hname, List.cons_append]
  exact fun heq ↦ ne_of_isKind hd hc (List.cons.inj heq).1

theorem line_append_ne_nil : r.line ++ rest ≠ [] := by
  rw [line_append]
  exact List.append_ne_nil_of_right_ne_nil _ (List.cons_ne_nil _ _)

theorem skipBlanks_line_append : skipBlanks (r.line ++ rest) = r.line ++ rest := by
  obtain ⟨c, tail, hname, hc⟩ := r.exists_cons
  have hblank : ¬ isBlank c = true := by
    rw [isBlank, Bool.or_eq_true, decide_eq_true_eq, decide_eq_true_eq, not_or]
    exact ⟨ne_of_isKind hc (by decide), ne_of_isKind hc (by decide)⟩
  rw [line_append, hname, List.cons_append, skipBlanks, List.dropWhile_cons_of_neg hblank]

theorem name?_line_append : name? (r.line ++ rest)
    = some (r.name, ' ' :: '=' :: ' ' :: (r.text.toList ++ '\n' :: rest)) := by
  rw [name?.eq_3 _ (fun _ ↦ r.line_append_ne_cons (by decide))
    fun _ ↦ r.line_append_ne_cons (by decide)]
  have htake : (r.line ++ rest).takeWhile Toml.isKeyChar = r.name.toList := by
    rw [line_append, List.takeWhile_append_of_pos r.isKeyChar,
      List.takeWhile_cons_of_neg (by decide), List.append_nil]
  have hdrop : (r.line ++ rest).dropWhile Toml.isKeyChar
      = ' ' :: '=' :: ' ' :: (r.text.toList ++ '\n' :: rest) := by
    rw [line_append, List.dropWhile_append_of_pos r.isKeyChar,
      List.dropWhile_cons_of_neg (by decide)]
  simp only [htake, hdrop, List.isEmpty_iff, r.name_ne_nil, if_false, String.ofList_toList]

theorem key?_line_append : key? (r.line ++ rest)
    = some (([], r.name), '=' :: ' ' :: (r.text.toList ++ '\n' :: rest)) := by
  have hnames : names? maxDepth (r.line ++ rest)
      = some ([r.name], '=' :: ' ' :: (r.text.toList ++ '\n' :: rest)) := by
    rw [maxDepth, names?, skipBlanks_line_append, name?_line_append]
    rfl
  rw [key?, hnames]
  rfl

theorem value?_text_append {fuel levels : Nat} :
    value? (fuel + 1) levels (r.text.toList ++ '\n' :: rest) = some (r.value, '\n' :: rest) := by
  obtain ⟨c, tail, htext, -, harray, htable⟩ := r.isScalar.opening
  rw [← r.isScalar.read, htext, List.cons_append]
  rw [value?.eq_6]
  · exact fun _ _ heq ↦ harray (List.cons.inj heq).1
  · exact fun _ _ heq ↦ htable (List.cons.inj heq).1
  · exact fun _ _ _ heq ↦ harray (List.cons.inj heq).1
  · exact fun _ _ _ heq ↦ htable (List.cons.inj heq).1

theorem skipBlanks_text_append : skipBlanks (' ' :: (r.text.toList ++ '\n' :: rest))
    = r.text.toList ++ '\n' :: rest := by
  obtain ⟨c, tail, htext, hblank, -⟩ := r.isScalar.opening
  rw [skipBlanks, List.dropWhile_cons_of_pos (by decide), htext, List.cons_append,
    List.dropWhile_cons_of_neg (by rw [hblank]; decide)]

theorem statement?_line_append :
    statement? (r.line ++ rest) = some (.assign [] r.name r.value, '\n' :: rest) := by
  rw [statement?.eq_3 _ (fun _ ↦ r.line_append_ne_cons (by decide))
    fun _ ↦ r.line_append_ne_cons (by decide), fuelFor, pair?, key?_line_append]
  simp only [skipBlanks_text_append, value?_text_append]
  rfl

theorem lineEnd?_line_append : lineEnd? (r.line ++ rest) = none := by
  have hcomment : skipComment (r.line ++ rest) = r.line ++ rest :=
    skipComment.eq_2 _ fun _ ↦ r.line_append_ne_cons (by decide)
  have hnewline : newline? (r.line ++ rest) = none :=
    newline?.eq_3 _ (fun _ ↦ r.line_append_ne_cons (by decide))
      fun _ ↦ r.line_append_ne_cons (by decide)
  rw [lineEnd?, skipBlanks_line_append, hcomment]
  split
  · rename_i hnil
    exact absurd hnil r.line_append_ne_nil
  · exact hnewline

end Row

/-! ## Documents -/

theorem add_assign {ms : Members} {key : String} {v : Value} (h : ms.get? key = none) :
    Document.add ⟨[], ms⟩ (.assign [] key v) = some ⟨[], ms ++ [(key, v)]⟩ := by
  rw [Document.add, Members.within, Members.assign, Members.within, h]
  rfl

theorem statements?_line_append {fuel : Nat} {ms : Members} {r : Row} {rest : List Char}
    (h : ms.get? r.name = none) :
    statements? (fuel + 1) ⟨[], ms⟩ (r.line ++ rest)
      = statements? fuel ⟨[], ms ++ [r.member]⟩ rest := by
  rw [statements?, r.skipBlanks_line_append]
  split
  · rename_i hnil
    exact absurd hnil r.line_append_ne_nil
  · have hbreak : lineEnd? ('\n' :: rest) = some rest := rfl
    simp only [r.lineEnd?_line_append, r.statement?_line_append, add_assign h, hbreak,
      Option.bind_eq_bind, Option.bind_some]
    rfl

theorem statements?_rows {rows : List Row} {fuel : Nat} {ms : Members}
    (hfuel : rows.length < fuel) (hnames : (rows.map Row.name).Nodup)
    (hnew : ∀ r ∈ rows, ms.get? r.name = none) :
    statements? fuel ⟨[], ms⟩ (rows.flatMap Row.line) = some ⟨[], ms ++ rows.map Row.member⟩ := by
  induction rows generalizing fuel ms with
  | nil =>
    obtain ⟨fuel, rfl⟩ := Nat.exists_eq_succ_of_ne_zero (Nat.ne_of_gt hfuel)
    rw [List.map_nil, List.append_nil]
    rfl
  | cons r rows ih =>
    obtain ⟨fuel, rfl⟩ := Nat.exists_eq_succ_of_ne_zero (Nat.ne_of_gt (Nat.zero_lt_of_lt hfuel))
    rw [List.map_cons, List.nodup_cons] at hnames
    rw [List.forall_mem_cons] at hnew
    have hrest : ∀ s ∈ rows, Members.get? (ms ++ [r.member]) s.name = none := by
      intro s hs
      have hne : r.name ≠ s.name := fun heq ↦ hnames.1 (heq ▸ List.mem_map_of_mem hs)
      rw [Members.get?, List.lookup_append, ← Members.get?, hnew.2 s hs, Option.none_or, Row.member,
        List.lookup_cons, beq_eq_false_iff_ne.mpr hne.symm]
      rfl
    rw [List.flatMap_cons, statements?_line_append hnew.1,
      ih (Nat.lt_of_succ_lt_succ hfuel) hnames.2 hrest, List.map_cons, List.append_assoc,
      List.singleton_append]

theorem length_le_flatMap_line (rows : List Row) :
    rows.length ≤ (rows.flatMap Row.line).length := by
  induction rows with
  | nil => exact Nat.le_refl 0
  | cons r rows ih =>
    have hline : 0 < r.line.length := by
      refine List.length_pos_of_ne_nil ?_
      rw [← r.line.append_nil]
      exact r.line_append_ne_nil
    rw [List.flatMap_cons, List.length_append, List.length_cons]
    omega

/-- **Plain lines are read as the table of their names and values**, whatever stands in them, if no
name stands twice. -/
theorem read?_rows {rows : List Row} {text : String} (htext : text.toList = rows.flatMap Row.line)
    (hnames : (rows.map Row.name).Nodup) : read? text = some (rows.map Row.member) := by
  have hfuel : rows.length < (rows.flatMap Row.line).length + 1 :=
    Nat.lt_succ_of_le (length_le_flatMap_line rows)
  have hstatements : statements? ((rows.flatMap Row.line).length + 1) Document.empty
      (rows.flatMap Row.line) = some ⟨[], rows.map Row.member⟩ :=
    statements?_rows hfuel hnames fun _ _ ↦ rfl
  rw [read?, htext]
  split
  · rename_i rest hmark
    cases rows with
    | nil => cases hmark
    | cons r rows => exact absurd hmark (r.line_append_ne_cons (by decide))
  · rw [hstatements]
    rfl

end ExecState.Toml
