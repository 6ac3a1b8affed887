import ExecState.Bytes.Hex
import Std.Data.ExtTreeMap

/-!
# JSON

Values, the strings in them, reading, and writing. Reading is kept apart from what is made of a
value, so that a text that is no JSON and a value of the wrong kind are different faults.
-/

namespace ExecState.Json

/-!
## JSON values

A value is a tree of lists and of objects, whose members keep their order and may repeat a key.
Numbers are kept as they are written, since no use of them here needs a rounding.

The escapes of a string may name one half of a surrogate pair without the other. Such a string is
well formed but has no text, so strings are rows of code points, and a row has a text only where
no half stands alone.
-/

/-- What a position of a string stands for: a character, or half of a surrogate pair. -/
inductive CodePoint
  | scalar (c : Char)
  | surrogate (code : Nat)
deriving DecidableEq

/-- The content of a string. -/
abbrev Literal := List CodePoint

namespace Literal

/-- The content that has the given text. -/
def ofString (s : String) : Literal := s.toList.map .scalar

/-- The characters of a content without lone surrogates. -/
def chars? : Literal → Option (List Char)
  | [] => some []
  | .scalar c :: rest => (chars? rest).map (c :: ·)
  | .surrogate _ :: _ => none

/-- The text of a content without lone surrogates. -/
def toString? (l : Literal) : Option String := l.chars?.map String.ofList

theorem chars?_map_scalar (cs : List Char) : chars? (cs.map .scalar) = some cs := by
  induction cs with
  | nil => rfl
  | cons c rest ih => simp [chars?, ih]

theorem toString?_ofString (s : String) : (ofString s).toString? = some s := by
  simp [toString?, ofString, chars?_map_scalar]

end Literal

/-- A value. -/
inductive Value
  | null
  | bool (b : Bool)
  | number (lexeme : List Char)
  | string (content : Literal)
  | array (items : List Value)
  | object (members : List (Literal × Value))

def isDigit (c : Char) : Bool := '0' ≤ c && c ≤ '9'

def natOfDigits (ds : List Char) : Nat := ds.foldl (fun n c ↦ n * 10 + (c.toNat - 48)) 0

namespace Value

def text? : Value → Option String
  | .string content => content.toString?
  | _ => none

/-- The natural number of a lexeme that has neither sign, fraction nor exponent. -/
def natural? : Value → Option Nat
  | .number lexeme => if lexeme.all isDigit then some (natOfDigits lexeme) else none
  | _ => none

end Value

end ExecState.Json

namespace ExecState.Json.Literal

/-!
## Strings in JSON text

Reading goes on after the opening quote. Characters below the blank have to be escaped; two
escapes that name the halves of a surrogate pair stand for one character. Writing escapes the
quote, the backslash and the characters below the blank, and nothing else.
-/

/-! ### Reading -/

/-- The character that a one-letter escape stands for. -/
def escape? : Char → Option Char
  | '"' => some '"'
  | '\\' => some '\\'
  | '/' => some '/'
  | 'b' => some '\x08'
  | 'f' => some '\x0c'
  | 'n' => some '\n'
  | 'r' => some '\r'
  | 't' => some '\t'
  | _ => none

/-- The code of four hexadecimal digits. -/
def code? (a b c d : Char) : Option Nat := do
  let w ← Hex.digitValue? a
  let x ← Hex.digitValue? b
  let y ← Hex.digitValue? c
  let z ← Hex.digitValue? d
  return ((w * 16 + x) * 16 + y) * 16 + z

/-- What a code below `2 ^ 16` stands for. -/
def ofCode (code : Nat) : CodePoint :=
  if 0xd800 ≤ code ∧ code ≤ 0xdfff then .surrogate code else .scalar (Char.ofNat code)

/-- What stands between the opening quote, which is gone already, and the closing one, and what
follows that. -/
def scan : List Char → Option (Literal × List Char)
  | [] => none
  | '"' :: rest => some ([], rest)
  | '\\' :: 'u' :: a :: b :: c :: d :: rest =>
    match code? a b c d with
    | some code => (scan rest).map fun p ↦ (ofCode code :: p.1, p.2)
    | none => none
  | '\\' :: e :: rest =>
    match escape? e with
    | some c => (scan rest).map fun p ↦ (.scalar c :: p.1, p.2)
    | none => none
  | c :: rest =>
    if c.val < 0x20 then none else (scan rest).map fun p ↦ (.scalar c :: p.1, p.2)

/-- The character of a surrogate pair. -/
def combine (first second : Nat) : Char :=
  Char.ofNat (0x10000 + (first - 0xd800) * 0x400 + (second - 0xdc00))

/-- A content whose surrogate pairs have become characters. -/
def pairUp : Literal → Literal
  | .surrogate x :: .surrogate y :: rest =>
    if x < 0xdc00 ∧ 0xdc00 ≤ y then .scalar (combine x y) :: pairUp rest
    else .surrogate x :: pairUp (.surrogate y :: rest)
  | p :: rest => p :: pairUp rest
  | [] => []

/-- The content of a string whose opening quote is gone already, and what follows it. -/
def read? (cs : List Char) : Option (Literal × List Char) :=
  (scan cs).map fun p ↦ (pairUp p.1, p.2)

/-! ### Writing -/

/-- The escape of a code below `2 ^ 16`. -/
def escapeCode (code : Nat) : List Char :=
  ['\\', 'u', Hex.digitChar (code / 4096 % 16), Hex.digitChar (code / 256 % 16),
    Hex.digitChar (code / 16 % 16), Hex.digitChar (code % 16)]

/-- A character as it stands in a string. -/
def escape (c : Char) : List Char :=
  if c = '"' then ['\\', '"']
  else if c = '\\' then ['\\', '\\']
  else if c = '\x08' then ['\\', 'b']
  else if c = '\x0c' then ['\\', 'f']
  else if c = '\n' then ['\\', 'n']
  else if c = '\r' then ['\\', 'r']
  else if c = '\t' then ['\\', 't']
  else if c.val < 0x20 then escapeCode c.toNat
  else [c]

/-- A code point as it stands in a string. -/
def write : CodePoint → List Char
  | .scalar c => escape c
  | .surrogate code => escapeCode code

/-- A string with its quotes. -/
def quote (l : Literal) : List Char := '"' :: (l.flatMap write ++ ['"'])

end ExecState.Json.Literal

namespace ExecState.Json

/-!
## Reading JSON text

A text holds one value with blanks around it. Reading is strict: no comma before a closing
bracket, no leading zeros, no blanks other than the four of JSON. It fails as a whole or not at
all; where the fault is, is not told.

Every function takes the text from a value on and returns the value with the text after it.
-/

/-- Whether a character may stand between the tokens. -/
def isBlank (c : Char) : Bool := c = ' ' || c = '\t' || c = '\n' || c = '\r'

/-- A text without the blanks before it. -/
def skipBlanks (cs : List Char) : List Char := cs.dropWhile isBlank

/-! ### Numbers -/

def digits? (cs : List Char) : Option (List Char × List Char) :=
  let ds := cs.takeWhile isDigit
  if ds.isEmpty then none else some (ds, cs.dropWhile isDigit)

/-- The whole part of a number, which has no leading zero. -/
def whole? : List Char → Option (List Char × List Char)
  | '0' :: rest => some (['0'], rest)
  | cs => digits? cs

/-- The fraction of a number, which may be absent. -/
def fraction? : List Char → Option (List Char × List Char)
  | '.' :: rest => (digits? rest).map fun p ↦ ('.' :: p.1, p.2)
  | cs => some ([], cs)

/-- The sign of an exponent, which may be absent. -/
def exponentSign : List Char → List Char × List Char
  | '+' :: rest => (['+'], rest)
  | '-' :: rest => (['-'], rest)
  | cs => ([], cs)

/-- The exponent of a number, which may be absent. -/
def exponent? : List Char → Option (List Char × List Char)
  | c :: rest =>
    if c = 'e' ∨ c = 'E' then
      let (sign, rest) := exponentSign rest
      (digits? rest).map fun p ↦ (c :: (sign ++ p.1), p.2)
    else some ([], c :: rest)
  | [] => some ([], [])

/-- A number without its sign. -/
def unsigned? (cs : List Char) : Option (List Char × List Char) := do
  let (w, cs) ← whole? cs
  let (f, cs) ← fraction? cs
  let (e, cs) ← exponent? cs
  return (w ++ f ++ e, cs)

/-- The lexeme of a number. -/
def number? : List Char → Option (List Char × List Char)
  | '-' :: rest => (unsigned? rest).map fun p ↦ ('-' :: p.1, p.2)
  | cs => unsigned? cs

/-! ### Values -/

mutual
/-- A value. The fuel bounds the depth of the calls. -/
def value? : (fuel : Nat) → List Char → Option (Value × List Char)
  | 0, _ => none
  | fuel + 1, cs =>
    match skipBlanks cs with
    | 'n' :: 'u' :: 'l' :: 'l' :: rest => some (.null, rest)
    | 't' :: 'r' :: 'u' :: 'e' :: rest => some (.bool true, rest)
    | 'f' :: 'a' :: 'l' :: 's' :: 'e' :: rest => some (.bool false, rest)
    | '"' :: rest => (Literal.read? rest).map fun p ↦ (.string p.1, p.2)
    | '[' :: rest =>
      match skipBlanks rest with
      | ']' :: rest => some (.array [], rest)
      | _ => (items? fuel rest).map fun p ↦ (.array p.1, p.2)
    | '{' :: rest =>
      match skipBlanks rest with
      | '}' :: rest => some (.object [], rest)
      | _ => (members? fuel rest).map fun p ↦ (.object p.1, p.2)
    | cs => (number? cs).map fun p ↦ (.number p.1, p.2)

/-- The items of an array, of which there is at least one, with the closing bracket. -/
def items? : (fuel : Nat) → List Char → Option (List Value × List Char)
  | 0, _ => none
  | fuel + 1, cs =>
    match value? fuel cs with
    | none => none
    | some (v, cs) =>
      match skipBlanks cs with
      | ']' :: rest => some ([v], rest)
      | ',' :: rest => (items? fuel rest).map fun p ↦ (v :: p.1, p.2)
      | _ => none

/-- The members of an object, of which there is at least one, with the closing brace. -/
def members? : (fuel : Nat) → List Char → Option (List (Literal × Value) × List Char)
  | 0, _ => none
  | fuel + 1, cs =>
    match member? fuel cs with
    | none => none
    | some (m, cs) =>
      match skipBlanks cs with
      | '}' :: rest => some ([m], rest)
      | ',' :: rest => (members? fuel rest).map fun p ↦ (m :: p.1, p.2)
      | _ => none

def member? : (fuel : Nat) → List Char → Option ((Literal × Value) × List Char)
  | 0, _ => none
  | fuel + 1, cs =>
    match skipBlanks cs with
    | '"' :: rest =>
      match Literal.read? rest with
      | none => none
      | some (key, cs) =>
        match skipBlanks cs with
        | ':' :: rest => (value? fuel rest).map fun p ↦ ((key, p.1), p.2)
        | _ => none
    | _ => none
end

/-- A bound on the depth of the calls: every third one at the latest takes a character. -/
def fuelFor (cs : List Char) : Nat := 3 * cs.length + 3

def read? (text : String) : Option Value :=
  let cs := text.toList
  match value? (fuelFor cs) cs with
  | some (v, rest) => if (skipBlanks rest).isEmpty then some v else none
  | none => none

end ExecState.Json

namespace ExecState.Json.Value

/-!
## Values and data

How texts, optional data and maps are written as JSON values, and how values are read as such.
Each reader undoes the writer beside it.
-/

variable {α : Type}

/-- A text as a value; `Value.text?` reads it. -/
def ofText (s : String) : Value := .string (Literal.ofString s)

theorem text?_ofText (s : String) : (ofText s).text? = some s := Literal.toString?_ofString s

/-- A value that may be null. -/
def nullable? (read? : Value → Option α) (v : Value) : Option (Option α) :=
  match v with
  | .null => some none
  | v => (read? v).map some

def orNull (write : α → Value) : Option α → Value
  | none => .null
  | some a => write a

/-- A map with the members of an object added, of which the last of equal keys wins. -/
def addMembers? (read? : Value → Option α) :
    List (Literal × Value) → Std.ExtTreeMap String α → Option (Std.ExtTreeMap String α)
  | [], m => some m
  | (key, v) :: rest, m =>
    match key.toString?, read? v with
    | some key, some a => addMembers? read? rest (m.insert key a)
    | _, _ => none

def toMap? (read? : Value → Option α) (v : Value) : Option (Std.ExtTreeMap String α) :=
  match v with
  | .object members => addMembers? read? members ∅
  | _ => none

/-- The object of a map, by ascending keys. -/
def ofMap (write : α → Value) (m : Std.ExtTreeMap String α) : Value :=
  .object (m.toList.map fun p ↦ (Literal.ofString p.1, write p.2))

end ExecState.Json.Value

namespace ExecState.Json.Value

/-!
## Writing JSON text

Values are written without blanks.
-/

mutual
def print : Value → List Char
  | .null => ['n', 'u', 'l', 'l']
  | .bool true => ['t', 'r', 'u', 'e']
  | .bool false => ['f', 'a', 'l', 's', 'e']
  | .number lexeme => lexeme
  | .string content => content.quote
  | .array [] => ['[', ']']
  | .array (v :: rest) => '[' :: (v.print ++ printItems rest)
  | .object [] => ['{', '}']
  | .object (m :: rest) => '{' :: (printMember m ++ printMembers rest)

/-- The items of an array after the first one, with the closing bracket. -/
def printItems : List Value → List Char
  | [] => [']']
  | v :: rest => ',' :: (v.print ++ printItems rest)

/-- The members of an object after the first one, with the closing brace. -/
def printMembers : List (Literal × Value) → List Char
  | [] => ['}']
  | m :: rest => ',' :: (printMember m ++ printMembers rest)

def printMember : Literal × Value → List Char
  | (key, v) => key.quote ++ ':' :: v.print
end

end ExecState.Json.Value
