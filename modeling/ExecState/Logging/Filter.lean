import ExecState.Logging.Pattern
import ExecState.Numeral.Quantity
import ExecState.Text.Characters

/-!
# Log filters

A filter is a list of directives between commas. A directive is a level, or it names a target, a
span between square brackets or both, and perhaps a level after an equality sign. A span may hold
the name of a field between braces, perhaps with a value after an equality sign.

A directive is read without the blanks around it, by one character after the other. What is
between two marks is then cut out of the directive with its blanks, by the same numbers of bytes.
Where there are blanks in front, it is therefore some other stretch that is looked at, and it may
begin or end within a character, which breaks the reading off.
-/

namespace ExecState.Logging

/-- How much is logged. -/
inductive Level
  | off | error | warn | info | debug | trace
deriving DecidableEq

def Level.name : Level → String
  | .off => "off"
  | .error => "error"
  | .warn => "warn"
  | .info => "info"
  | .debug => "debug"
  | .trace => "trace"

/-- All levels, by rising number. -/
def Level.all : List Level := [.off, .error, .warn, .info, .debug, .trace]

/-- Whether a text is a level: its name in any case of the letters, or its number. -/
def isLevel (cs : List Char) : Bool :=
  Level.all.any (fun l ↦ l.name.toList = cs.map Char.toLower) ||
    (match Unsigned.read 10 UInt64.size cs with
    | .ok n => n < Level.all.length
    | .error _ => false)

/-- Why a text is no filter. -/
inductive FilterFault
  /-- A part is no directive. -/
  | malformed
  /-- A part is cut within a character. -/
  | splitCharacter
deriving DecidableEq

/-! ## Fields -/

/-- Decimal digits, as many as there are, and what follows them. -/
def spanDigits (cs : List Char) : List Char × List Char := cs.span Char.isDigit

/-- Whether a text is empty or the exponent of a decimal number. -/
def isExponent : List Char → Bool
  | [] => true
  | c :: rest =>
    let digits := match rest with
      | '+' :: digits | '-' :: digits => digits
      | digits => digits
    (c = 'e' || c = 'E') && !digits.isEmpty && digits.all Char.isDigit

/-- Whether a text without a sign is a decimal number. -/
def isDecimal (cs : List Char) : Bool :=
  let (whole, rest) := spanDigits cs
  let (fraction, rest) := match rest with
    | '.' :: rest => spanDigits rest
    | rest => ([], rest)
  !(whole ++ fraction).isEmpty && isExponent rest

/-- Whether a text is a number with a plus sign. -/
def isPositive : List Char → Bool
  | '+' :: cs =>
    isDecimal cs ||
      ["inf", "infinity", "nan"].any fun word ↦ word.toList = cs.map Char.toLower
  | _ => false

/-- Whether a text can be the value of a field. Truth values and numbers without a plus sign are
patterns, too. -/
def isFieldValue (cs : List Char) : Bool := isPositive cs || Pattern.isPattern cs

/-- Whether a text names a field, perhaps with a value, which ends at another equality sign. -/
def isField (cs : List Char) : Bool :=
  match cs.dropWhile (· ≠ '=') with
  | [] => !cs.isEmpty
  | _ :: value => isFieldValue (value.takeWhile (· ≠ '='))

/-! ## Directives -/

/-- How far a directive was read. Positions are numbers of bytes. -/
inductive Progress
  | start
  | levelOrTarget
  | span (first : Nat)
  | field (first : Nat)
  | fields
  | target
  | level (first : Nat)
deriving DecidableEq

/-- What is left of a text after a number of bytes, if no character is split. -/
def dropBytes? : (count : Nat) → List Char → Option (List Char)
  | 0, cs => some cs
  | _ + 1, [] => none
  | n + 1, c :: rest =>
    if c.utf8Size ≤ n + 1 then dropBytes? (n + 1 - c.utf8Size) rest else none
termination_by _ cs => cs.length

/-- The beginning of a text of a number of bytes, if no character is split. -/
def takeBytes? (count : Nat) (cs : List Char) : Option (List Char) :=
  (dropBytes? count cs).map fun rest ↦ cs.take (cs.length - rest.length)

/-- The stretch of a text between two positions. -/
def slice (cs : List Char) (first last : Nat) : Except FilterFault (List Char) :=
  match (dropBytes? first cs).bind (takeBytes? (last - first)) with
  | some part => .ok part
  | none => .error .splitCharacter

/-- Reads one more character of a directive at a position. -/
def Progress.step (directive : List Char) (position : Nat) (p : Progress) (c : Char) :
    Except FilterFault Progress :=
  match p with
  | .start =>
    if c = '[' then .ok (.span (position + 1))
    else if c = '-' ∨ c = ':' ∨ c = '_' ∨ Text.isAlphanumeric c then .ok .levelOrTarget
    else .error .malformed
  | .levelOrTarget =>
    if c = '=' then (slice directive 0 position).map fun _ ↦ .level (position + 1)
    else if c = '[' then (slice directive 0 position).map fun _ ↦ .span (position + 1)
    else .ok .levelOrTarget
  | .span first =>
    if c = ']' then (slice directive first position).map fun _ ↦ .target
    else if c = '{' then (slice directive first position).map fun _ ↦ .field (position + 1)
    else .ok (.span first)
  | .field first =>
    if c = '}' then
      match slice directive first position with
      | .error e => .error e
      | .ok part => if isField part then .ok .fields else .error .malformed
    else .ok (.field first)
  | .fields => if c = ']' then .ok .target else .error .malformed
  | .target => if c = '=' then .ok (.level (position + 1)) else .error .malformed
  | .level first => .ok (.level first)

/-- Reads the characters of a directive from a position on. -/
def Progress.run (directive : List Char) (position : Nat) (p : Progress) :
    List Char → Except FilterFault Progress
  | [] => .ok p
  | c :: rest =>
    match p.step directive position c with
    | .error e => .error e
    | .ok p => p.run directive (position + c.utf8Size) rest

/-- What is wrong with a directive that is read to its end. -/
def Progress.close (directive : List Char) : Progress → Except FilterFault Unit
  | .levelOrTarget | .target => .ok ()
  | .level first =>
    match dropBytes? first directive with
    | none => .error .splitCharacter
    | some [] => .ok ()
    | some part => if isLevel part then .ok () else .error .malformed
  | .start | .span _ | .field _ | .fields => .error .malformed

def readDirective (cs : List Char) : Except FilterFault Unit :=
  match Progress.start.run cs 0 (Text.trim cs) with
  | .error e => .error e
  | .ok p => p.close cs

/-- Reads directives up to the first fault. -/
def readDirectives : List String → Except FilterFault Unit
  | [] => .ok ()
  | part :: rest =>
    match readDirective part.toList with
    | .error e => .error e
    | .ok () => readDirectives rest

/-- Reads directives and passes over those that are malformed. -/
def readWellFormed : List String → Except FilterFault Unit
  | [] => .ok ()
  | part :: rest =>
    match readDirective part.toList with
    | .error .splitCharacter => .error .splitCharacter
    | .error .malformed | .ok () => readWellFormed rest

/-- The directives of a filter. Empty parts between commas are none. -/
def directives (text : String) : List String :=
  (text.splitOn ",").filter fun part ↦ !part.isEmpty

/-- The directives that go in front of every filter, which silence what is noisy. -/
def standingDirectives : List String := ["hyper::proto::h1=off", "mio=off"]

def readFilter (text : String) : Except FilterFault Unit :=
  readDirectives (standingDirectives ++ directives text)

end ExecState.Logging
