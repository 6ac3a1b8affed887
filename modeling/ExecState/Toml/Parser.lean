import ExecState.Bytes.Hex
import ExecState.Toml.Basic

/-!
# TOML text

From characters to statements, and from statements to a document.
-/

namespace ExecState.Toml

/-!
## The words of a TOML document

Blanks, line ends, comments, strings and keys. Every reader takes the text that starts with what
it reads and returns it with the text that follows.
-/

/-! ### Blanks and lines -/

/-- The characters that may stand between the words of a line. -/
def isBlank (c : Char) : Bool := c = ' ' || c = '\t'

/-- A text without the blanks before it. -/
def skipBlanks (cs : List Char) : List Char := cs.dropWhile isBlank

/-- The characters of comments and strings: the tab and all but the control characters. -/
def isPlain (c : Char) : Bool := c = '\t' || (0x20 ≤ c.val && c.val ≤ 0x7e) || 0x80 ≤ c.val

/-- What follows a line break. -/
def newline? : List Char → Option (List Char)
  | '\n' :: rest => some rest
  | '\r' :: '\n' :: rest => some rest
  | _ => none

/-- A text without the comment before it. -/
def skipComment : List Char → List Char
  | '#' :: rest => rest.dropWhile isPlain
  | cs => cs

/-- What follows the rest of a line that holds no more than blanks and a comment. -/
def lineEnd? (cs : List Char) : Option (List Char) :=
  match skipComment (skipBlanks cs) with
  | [] => some []
  | cs => newline? cs

/-- A text without the blanks, line breaks and comments before it; `inComment` tells whether it
starts inside of a comment. -/
def skipLines : (inComment : Bool) → List Char → List Char
  | _, [] => []
  | _, '\r' :: '\n' :: rest => skipLines false rest
  | _, '\n' :: rest => skipLines false rest
  | false, c :: rest =>
    if isBlank c then skipLines false rest
    else if c = '#' then skipLines true rest
    else c :: rest
  | true, c :: rest => if isPlain c then skipLines true rest else c :: rest

/-! ### Strings -/

/-- The character that a one-letter escape stands for. -/
def escape? : Char → Option Char
  | 'b' => some '\x08'
  | 't' => some '\t'
  | 'n' => some '\n'
  | 'f' => some '\x0c'
  | 'r' => some '\r'
  | '"' => some '"'
  | '\\' => some '\\'
  | _ => none

/-- The character whose number hexadecimal digits denote. -/
def charOfDigits? (ds : List Char) : Option Char := do
  let values ← ds.mapM Hex.digitValue?
  let n := values.foldl (fun n d ↦ n * 16 + d) 0
  if n.isValidChar then some (Char.ofNat n) else none

/-- A reading with one more character in front. -/
def cons (c : Char) (r : Option (List Char × List Char)) : Option (List Char × List Char) :=
  r.map fun p ↦ (c :: p.1, p.2)

/-- The content of a string with escapes on one line, whose opening quote is gone already. -/
def basic? : List Char → Option (List Char × List Char)
  | [] => none
  | '"' :: rest => some ([], rest)
  | '\\' :: 'u' :: a :: b :: c :: d :: rest =>
    (charOfDigits? [a, b, c, d]).bind fun x ↦ cons x (basic? rest)
  | '\\' :: 'U' :: a :: b :: c :: d :: e :: f :: g :: h :: rest =>
    (charOfDigits? [a, b, c, d, e, f, g, h]).bind fun x ↦ cons x (basic? rest)
  | '\\' :: c :: rest => (escape? c).bind fun x ↦ cons x (basic? rest)
  | c :: rest => if isPlain c && c != '\\' then cons c (basic? rest) else none

/-- The content of a string without escapes on one line, whose opening quote is gone already. -/
def literal? : List Char → Option (List Char × List Char)
  | [] => none
  | '\'' :: rest => some ([], rest)
  | c :: rest => if isPlain c then cons c (literal? rest) else none

/-- Whether only blanks are left on a line that a line break ends. -/
def isLineRest (cs : List Char) : Bool := (newline? (skipBlanks cs)).isSome

/-- The content of a string with escapes on several lines, whose opening quotes are gone already.
A backslash at the end of a line takes away the line break and all blanks and line breaks after
it, which is what `trimming` tells to do. -/
def longBasic? : (trimming : Bool) → List Char → Option (List Char × List Char)
  | _, [] => none
  | true, '\r' :: '\n' :: rest => longBasic? true rest
  | true, '\n' :: rest => longBasic? true rest
  | true, ' ' :: rest => longBasic? true rest
  | true, '\t' :: rest => longBasic? true rest
  | _, '"' :: '"' :: '"' :: '"' :: '"' :: rest => some (['"', '"'], rest)
  | _, '"' :: '"' :: '"' :: '"' :: rest => some (['"'], rest)
  | _, '"' :: '"' :: '"' :: rest => some ([], rest)
  | _, '\\' :: 'u' :: a :: b :: c :: d :: rest =>
    (charOfDigits? [a, b, c, d]).bind fun x ↦ cons x (longBasic? false rest)
  | _, '\\' :: 'U' :: a :: b :: c :: d :: e :: f :: g :: h :: rest =>
    (charOfDigits? [a, b, c, d, e, f, g, h]).bind fun x ↦ cons x (longBasic? false rest)
  | _, '\\' :: c :: rest =>
    if isLineRest (c :: rest) then longBasic? true (c :: rest)
    else (escape? c).bind fun x ↦ cons x (longBasic? false rest)
  | _, '\r' :: '\n' :: rest => cons '\n' (longBasic? false rest)
  | _, '\n' :: rest => cons '\n' (longBasic? false rest)
  | _, c :: rest => if isPlain c && c != '\\' then cons c (longBasic? false rest) else none

/-- The content of a string without escapes on several lines, whose opening quotes are gone
already. -/
def longLiteral? : List Char → Option (List Char × List Char)
  | [] => none
  | '\'' :: '\'' :: '\'' :: '\'' :: '\'' :: rest => some (['\'', '\''], rest)
  | '\'' :: '\'' :: '\'' :: '\'' :: rest => some (['\''], rest)
  | '\'' :: '\'' :: '\'' :: rest => some ([], rest)
  | '\r' :: '\n' :: rest => cons '\n' (longLiteral? rest)
  | '\n' :: rest => cons '\n' (longLiteral? rest)
  | c :: rest => if isPlain c then cons c (longLiteral? rest) else none

/-- A text without the line break before it, if there is one. -/
def dropNewline (cs : List Char) : List Char := (newline? cs).getD cs

/-- A string of any form, with its quotes. -/
def string? (cs : List Char) : Option (String × List Char) :=
  let content :=
    match cs with
    | '"' :: '"' :: '"' :: rest => longBasic? false (dropNewline rest)
    | '\'' :: '\'' :: '\'' :: rest => longLiteral? (dropNewline rest)
    | '"' :: rest => basic? rest
    | '\'' :: rest => literal? rest
    | _ => none
  content.map fun p ↦ (String.ofList p.1, p.2)

/-! ### Keys -/

/-- The characters of a key without quotes. -/
def isKeyChar (c : Char) : Bool :=
  ('A' ≤ c && c ≤ 'Z') || ('a' ≤ c && c ≤ 'z') || ('0' ≤ c && c ≤ '9') || c = '-' || c = '_'

def name? : List Char → Option (String × List Char)
  | '"' :: rest => (basic? rest).map fun p ↦ (String.ofList p.1, p.2)
  | '\'' :: rest => (literal? rest).map fun p ↦ (String.ofList p.1, p.2)
  | cs =>
    let name := cs.takeWhile isKeyChar
    if name.isEmpty then none else some (String.ofList name, cs.dropWhile isKeyChar)

/-- The most names a key may have, and the most arrays and inline tables that may stand inside of
one another. -/
def maxDepth : Nat := 127

/-- The names of a dotted key, with the blanks around them; there are at most `count`. -/
def names? : (count : Nat) → List Char → Option (List String × List Char)
  | 0, _ => none
  | count + 1, cs =>
    match name? (skipBlanks cs) with
    | none => none
    | some (name, cs) =>
      match skipBlanks cs with
      | '.' :: rest => (names? count rest).map fun p ↦ (name :: p.1, p.2)
      | cs => some ([name], cs)

/-- A dotted key: the path to its last name, and that name. -/
def key? (cs : List Char) : Option ((List String × String) × List Char) :=
  match names? maxDepth cs with
  | none => none
  | some (names, rest) => names.getLast?.map fun last ↦ ((names.dropLast, last), rest)

/-!
## Numbers and points in time in a TOML document

Integers have 64 bits with a sign and are written in four radixes; floats have a fraction, an
exponent or both, or are one of the words `inf` and `nan`. Single underscores may stand between
digits. A date has a month of the year and a day from 1 to 31, whatever the month; a time of day may
have a leap second.

Every reader returns what it read as it is written, without underscores, and the text after it.
-/

/-! ### Digits -/

/-- Digits after the first one, which underscores may separate. -/
def moreDigits (isDigit : Char → Bool) : List Char → List Char × List Char
  | [] => ([], [])
  | '_' :: c :: rest =>
    if isDigit c then
      let (ds, rest) := moreDigits isDigit rest
      (c :: ds, rest)
    else ([], '_' :: c :: rest)
  | c :: rest =>
    if isDigit c then
      let (ds, rest) := moreDigits isDigit rest
      (c :: ds, rest)
    else ([], c :: rest)

/-- One or more digits, which underscores may separate. -/
def digits? (isDigit : Char → Bool) : List Char → Option (List Char × List Char)
  | [] => none
  | c :: rest =>
    if isDigit c then
      let (ds, rest) := moreDigits isDigit rest
      some (c :: ds, rest)
    else none

/-- Whether a character is a digit of a radix of at most sixteen. -/
def isDigitOf (radix : Nat) (c : Char) : Bool :=
  match Hex.digitValue? c with
  | some d => d < radix
  | none => false

/-- The number that digits of a radix denote. -/
def valueOfDigits (radix : Nat) (ds : List Char) : Nat :=
  ds.foldl (fun n c ↦ n * radix + (Hex.digitValue? c).getD 0) 0

/-- Decimal digits, the first of which is a zero only where it is the only one. -/
def whole? : List Char → Option (List Char × List Char)
  | '0' :: rest => some (['0'], rest)
  | cs => digits? (isDigitOf 10) cs

/-- The sign of a number, which may be absent. -/
def sign : List Char → List Char × List Char
  | '+' :: rest => (['+'], rest)
  | '-' :: rest => (['-'], rest)
  | cs => ([], cs)

/-! ### Integers -/

/-- An integer, if it has at most 64 bits. -/
def fit? (n : Int) : Option Value :=
  if Int64.minValue.toInt ≤ n ∧ n ≤ Int64.maxValue.toInt then some (.integer n) else none

/-- An integer after the mark of its radix. -/
def marked? (radix : Nat) (cs : List Char) : Option (Value × List Char) :=
  match digits? (isDigitOf radix) cs with
  | none => none
  | some (ds, rest) => (fit? (valueOfDigits radix ds)).map (·, rest)

/-- A decimal integer with its sign. -/
def decimal? (cs : List Char) : Option (Value × List Char) :=
  let (s, cs) := sign cs
  match whole? cs with
  | none => none
  | some (ds, rest) =>
    let n : Int := valueOfDigits 10 ds
    (fit? (if s = ['-'] then -n else n)).map (·, rest)

def integer? : List Char → Option (Value × List Char)
  | '0' :: 'x' :: rest => marked? 16 rest
  | '0' :: 'o' :: rest => marked? 8 rest
  | '0' :: 'b' :: rest => marked? 2 rest
  | cs => decimal? cs

/-! ### Floats -/

/-- Whether `digits * 10 ^ exponent` rounds to infinity in the binary format of 64 bits. Only
numbers of 300 to 310 digits before the point need to be worked out. -/
def overflows (digits : Nat) (exponent : Int) : Bool :=
  let size : Int := (Nat.repr digits).length + exponent
  if digits = 0 then false
  else if size ≤ 300 then false
  else if 310 < size then true
  else
    let bound := Nat.pow 2 1024 - Nat.pow 2 970
    if 0 ≤ exponent then bound ≤ digits * Nat.pow 10 exponent.toNat
    else bound * Nat.pow 10 (-exponent).toNat ≤ digits

/-- The exponent of a float: its lexeme and its value. -/
def exponent? : List Char → Option ((List Char × Int) × List Char)
  | c :: rest =>
    if c = 'e' ∨ c = 'E' then
      let (s, rest) := sign rest
      (digits? (isDigitOf 10) rest).map fun p ↦
        let n : Int := valueOfDigits 10 p.1
        ((c :: (s ++ p.1), if s = ['-'] then -n else n), p.2)
    else none
  | [] => none

/-- The words that are floats. -/
def word? : List Char → Option (List Char × List Char)
  | 'i' :: 'n' :: 'f' :: rest => some (['i', 'n', 'f'], rest)
  | 'n' :: 'a' :: 'n' :: rest => some (['n', 'a', 'n'], rest)
  | _ => none

/-- The fraction of a float, which may be absent. -/
def fraction? : List Char → Option (List Char × List Char)
  | '.' :: rest => digits? (isDigitOf 10) rest
  | cs => some ([], cs)

/-- A float in digits. One that rounds to infinity is refused, unless it is negative. -/
def numeric? (cs : List Char) : Option (Value × List Char) := do
  let (s, cs) := sign cs
  let (w, cs) ← whole? cs
  let (f, cs) ← fraction? cs
  let ((e, n), cs) := (exponent? cs).getD (([], 0), cs)
  if f.isEmpty && e.isEmpty then none
  else if s != ['-'] && overflows (valueOfDigits 10 (w ++ f)) (n - f.length) then none
  else return (.float (s ++ w ++ (if f.isEmpty then [] else '.' :: f) ++ e), cs)

def float? (cs : List Char) : Option (Value × List Char) :=
  let (s, rest) := sign cs
  match word? rest with
  | some (w, rest) => some (.float (s ++ w), rest)
  | none => numeric? cs

/-! ### Points in time -/

/-- A number of exactly `count` digits. -/
def fixed? : (count : Nat) → List Char → Option (List Char × List Char)
  | 0, cs => some ([], cs)
  | count + 1, c :: rest =>
    if isDigitOf 10 c then (fixed? count rest).map fun p ↦ (c :: p.1, p.2) else none
  | _ + 1, [] => none

/-- A number of exactly `count` digits between two bounds. -/
def bounded? (count low high : Nat) (cs : List Char) : Option (List Char × List Char) :=
  match fixed? count cs with
  | none => none
  | some (ds, rest) =>
    let n := valueOfDigits 10 ds
    if low ≤ n ∧ n ≤ high then some (ds, rest) else none

/-- What follows a character. -/
def after? (c : Char) : List Char → Option (List Char)
  | d :: rest => if d = c then some rest else none
  | [] => none

def date? (cs : List Char) : Option (List Char × List Char) := do
  let (y, cs) ← fixed? 4 cs
  let cs ← after? '-' cs
  let (m, cs) ← bounded? 2 1 12 cs
  let cs ← after? '-' cs
  let (d, cs) ← bounded? 2 1 31 cs
  return (y ++ '-' :: m ++ '-' :: d, cs)

/-- The fraction of a second, which may be absent. -/
def secondFraction (cs : List Char) : List Char × List Char :=
  match cs with
  | '.' :: rest =>
    let ds := rest.takeWhile (isDigitOf 10)
    if ds.isEmpty then ([], cs) else ('.' :: ds, rest.dropWhile (isDigitOf 10))
  | _ => ([], cs)

def time? (cs : List Char) : Option (List Char × List Char) := do
  let (h, cs) ← bounded? 2 0 23 cs
  let cs ← after? ':' cs
  let (m, cs) ← bounded? 2 0 59 cs
  let cs ← after? ':' cs
  let (s, cs) ← bounded? 2 0 60 cs
  let (f, cs) := secondFraction cs
  return (h ++ ':' :: m ++ ':' :: s ++ f, cs)

/-- The distance from universal time, which may be absent. -/
def offset (cs : List Char) : List Char × List Char :=
  match cs with
  | 'Z' :: rest => (['Z'], rest)
  | 'z' :: rest => (['Z'], rest)
  | c :: rest =>
    let distance := do
      let (h, cs) ← bounded? 2 0 23 rest
      let cs ← after? ':' cs
      let (m, cs) ← bounded? 2 0 59 cs
      return (c :: (h ++ ':' :: m), cs)
    if c = '+' ∨ c = '-' then distance.getD ([], cs) else ([], cs)
  | [] => ([], [])

/-- The time of day after a date, which may be absent. -/
def timeOfDate (cs : List Char) : List Char × List Char :=
  match cs with
  | c :: rest =>
    if c = 'T' ∨ c = 't' ∨ c = ' ' then
      match time? rest with
      | some (t, rest) =>
        let (o, rest) := offset rest
        ('T' :: (t ++ o), rest)
      | none => ([], cs)
    else ([], cs)
  | [] => ([], [])

/-- A date, a time of day, or a date with a time of day. -/
def moment? (cs : List Char) : Option (Value × List Char) :=
  match date? cs with
  | some (d, rest) =>
    let (t, rest) := timeOfDate rest
    some (.moment (d ++ t), rest)
  | none => (time? cs).map fun p ↦ (.moment p.1, p.2)

/-! ### Scalars -/

/-- A value that holds no other values. -/
def scalar? (cs : List Char) : Option (Value × List Char) :=
  match cs with
  | '"' :: _ => (string? cs).map fun p ↦ (.string p.1, p.2)
  | '\'' :: _ => (string? cs).map fun p ↦ (.string p.1, p.2)
  | 't' :: 'r' :: 'u' :: 'e' :: rest => some (.boolean true, rest)
  | 'f' :: 'a' :: 'l' :: 's' :: 'e' :: rest => some (.boolean false, rest)
  | _ => (moment? cs).or ((float? cs).or (integer? cs))

/-!
## Reading TOML text

A document is read line by line. It fails as a whole or not at all; where the fault is, is not
told.
-/

/-! ### Values -/

mutual
/-- A value that holds at most `levels` arrays and inline tables inside of one another. The fuel
bounds the depth of the calls. -/
def value? : (fuel levels : Nat) → List Char → Option (Value × List Char)
  | 0, _, _ => none
  | _ + 1, 0, '[' :: _ => none
  | _ + 1, 0, '{' :: _ => none
  | fuel + 1, levels + 1, '[' :: rest =>
    (items? fuel levels rest).map fun p ↦ (.array p.1, p.2)
  | fuel + 1, levels + 1, '{' :: rest =>
    match skipBlanks rest with
    | '}' :: rest => some (.table .inline [], rest)
    | _ => (members? fuel levels [] rest).map fun p ↦ (.table .inline p.1, p.2)
  | _ + 1, _, cs => scalar? cs

/-- The items of an array with the closing bracket, which a comma may precede. -/
def items? : (fuel levels : Nat) → List Char → Option (List Value × List Char)
  | 0, _, _ => none
  | fuel + 1, levels, cs =>
    match skipLines false cs with
    | ']' :: rest => some ([], rest)
    | cs =>
      match value? fuel levels cs with
      | none => none
      | some (v, cs) =>
        match skipLines false cs with
        | ']' :: rest => some ([v], rest)
        | ',' :: rest => (items? fuel levels rest).map fun p ↦ (v :: p.1, p.2)
        | _ => none

/-- The members of an inline table, of which there is at least one, with the closing brace. -/
def members? : (fuel levels : Nat) → Members → List Char → Option (Members × List Char)
  | 0, _, _, _ => none
  | fuel + 1, levels, ms, cs =>
    match pair? fuel levels cs with
    | none => none
    | some (((path, key), v), cs) =>
      match ms.assignInline key v path with
      | none => none
      | some ms =>
        match skipBlanks cs with
        | '}' :: rest => some (ms, rest)
        | ',' :: rest => members? fuel levels ms rest
        | _ => none

def pair? : (fuel levels : Nat) → List Char →
    Option (((List String × String) × Value) × List Char)
  | 0, _, _ => none
  | fuel + 1, levels, cs =>
    match key? cs with
    | none => none
    | some (key, cs) =>
      match cs with
      | '=' :: rest => (value? fuel levels (skipBlanks rest)).map fun p ↦ ((key, p.1), p.2)
      | _ => none
end

/-- A bound on the depth of the calls: every third one at the latest takes a character. -/
def fuelFor (cs : List Char) : Nat := 3 * cs.length + 3

/-! ### Statements -/

/-- A statement, without the rest of its line. -/
def statement? : List Char → Option (Statement × List Char)
  | '[' :: '[' :: rest =>
    match key? rest with
    | some ((path, key), ']' :: ']' :: rest) => some (.openElement path key, rest)
    | _ => none
  | '[' :: rest =>
    match key? rest with
    | some ((path, key), ']' :: rest) => some (.openTable path key, rest)
    | _ => none
  | cs => (pair? (fuelFor cs) maxDepth cs).map fun p ↦ (.assign p.1.1.1 p.1.1.2 p.1.2, p.2)

/-- A document with the statements of a text added. The fuel bounds the number of lines. -/
def statements? : (fuel : Nat) → Document → List Char → Option Document
  | 0, _, _ => none
  | fuel + 1, d, cs =>
    match skipBlanks cs with
    | [] => some d
    | cs =>
      match lineEnd? cs with
      | some rest => statements? fuel d rest
      | none => do
        let (s, rest) ← statement? cs
        let d ← d.add s
        statements? fuel d (← lineEnd? rest)

/-- The members of the table that a text describes. A mark of the byte order before it is passed
over. -/
def read? (text : String) : Option Members :=
  let cs :=
    match text.toList with
    | '\ufeff' :: rest => rest
    | cs => cs
  (statements? (cs.length + 1) Document.empty cs).map Document.members

end ExecState.Toml
