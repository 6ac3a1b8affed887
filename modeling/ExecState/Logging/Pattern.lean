import ExecState.Bytes.Hex
import ExecState.Text.Characters

/-!
# Patterns in filters

Whether a text is a pattern is decided by a single walk through it. The parts of the walk come
first: how a part is read, what a backslash and the two kinds of brackets begin, and how deep parts
are put into each other.
-/

namespace ExecState.Logging.Pattern

/-!
## Modes of patterns

How a part of a pattern is read. Flags in front of the part change it.

Patterns know nothing of languages: classes of letters, digits and blanks and the edges of words
exist for ASCII alone, and so does a comparison that ignores the case of letters. Where a part of
a pattern works on all characters, as it does unless a flag says otherwise, it cannot use them.

A part may be spaced out: then blanks and comments, from a number sign to the end of the line,
are passed over between its signs.
-/

/-- How a part of a pattern is read. -/
structure Mode where
  /-- Whether it works on all characters, and not on bytes. -/
  unicode : Bool
  /-- Whether the case of letters is ignored. -/
  ignoreCase : Bool
  /-- Whether blanks and comments between its signs are passed over. -/
  spaced : Bool
deriving DecidableEq

/-- What follows blanks and comments; `comment` tells whether the text begins within a comment. -/
def afterSpace : (comment : Bool) → List Char → List Char
  | _, [] => []
  | true, c :: rest => afterSpace (c ≠ '\n') rest
  | false, c :: rest =>
    if Text.isBlank c then afterSpace false rest
    else if c = '#' then afterSpace true rest
    else c :: rest

namespace Mode

/-- How a pattern is read as long as no flag is set. -/
def standard : Mode := ⟨true, false, false⟩

/-- Whether characters can be compared. -/
def canCompare (m : Mode) : Bool := !(m.unicode && m.ignoreCase)

/-- The text from its next sign on. -/
def skip (m : Mode) (cs : List Char) : List Char := if m.spaced then afterSpace false cs else cs

/-- The sign that is seen from a dash within a class. The look passes over blanks and over the
sign that begins a comment, but not over the comment itself. -/
def ahead? (m : Mode) (cs : List Char) : Option Char :=
  if m.spaced then
    match cs.dropWhile Text.isBlank with
    | '#' :: rest => (rest.dropWhile Text.isBlank).head?
    | rest => rest.head?
  else cs.head?

def flags : List Char := ['i', 'm', 's', 'U', 'u', 'R', 'x']

/-- The mode after flags, if no flag is given twice and none is missing after the dash. Those
before the dash are set and those after it cleared. -/
def withFlags? (m : Mode) (cs : List Char) : Option Mode :=
  let on := cs.takeWhile (· ≠ '-')
  let off := (cs.dropWhile (· ≠ '-')).drop 1
  if !(on ++ off).all flags.contains || !(on ++ off).Nodup || (off.isEmpty && cs.contains '-') then
    none
  else
    let value (flag : Char) (usual : Bool) : Bool :=
      if on.contains flag then true else if off.contains flag then false else usual
    some ⟨value 'u' m.unicode, value 'i' m.ignoreCase, value 'x' m.spaced⟩

end Mode

/-!
## Escapes in patterns

A backslash gives the characters after it another meaning: a sign stands for itself, a letter or a
number for a character, a class of characters or an edge.
-/

/-- What a backslash and the characters after it stand for. -/
inductive Escape
  | literal (c : Char)
  /-- A character that is given by two digits, which is a byte where a part works on bytes. -/
  | byte (c : Char)
  /-- Digits, blanks or letters, or all but those. -/
  | shorthand (negated : Bool)
  | edgeOfWord
  | edgeOfText
deriving DecidableEq

/-- What a character after a backslash stands for. -/
def escapeOf? : Char → Option Escape
  | 'a' => some (.literal '\x07')
  | 'f' => some (.literal '\x0c')
  | 't' => some (.literal '\t')
  | 'n' => some (.literal '\n')
  | 'r' => some (.literal '\r')
  | 'v' => some (.literal '\x0b')
  | 'A' | 'z' => some .edgeOfText
  | 'b' | 'B' | '<' | '>' => some .edgeOfWord
  | 'd' | 's' | 'w' => some (.shorthand false)
  | 'D' | 'S' | 'W' => some (.shorthand true)
  | c => if c.val < 0x80 && !c.isAlphanum then some (.literal c) else none

namespace Mode

/-- The number in `count` hexadecimal digits that follow those of `number`. -/
def digits? (m : Mode) : (count number : Nat) → List Char → Option (Nat × List Char)
  | 0, number, cs => some (number, cs)
  | count + 1, number, cs =>
    match m.skip cs with
    | [] => none
    | c :: rest =>
      match Hex.digitValue? c with
      | none => none
      | some d => m.digits? count (number * 16 + d) rest

/-- The character of a number in `count` hexadecimal digits. -/
def numbered? (m : Mode) (count : Nat) (cs : List Char) : Option (Char × List Char) :=
  match m.digits? count 0 cs with
  | none => none
  | some (n, rest) => if n.isValidChar then some (Char.ofNat n, rest) else none

/-- What the characters after a backslash stand for, and what follows them. -/
def escape? (m : Mode) : List Char → Option (Escape × List Char)
  | [] => none
  | 'x' :: rest => (m.numbered? 2 rest).map fun p ↦ (.byte p.1, p.2)
  | 'u' :: rest => (m.numbered? 4 rest).map fun p ↦ (.literal p.1, p.2)
  | 'U' :: rest => (m.numbered? 8 rest).map fun p ↦ (.literal p.1, p.2)
  | c :: rest => (escapeOf? c).map (·, rest)

/-- Whether an escape has a meaning outside of a class. -/
def admits (m : Mode) : Escape → Bool
  | .literal _ => m.canCompare
  | .byte c => m.canCompare && (m.unicode || c.val < 0x80)
  | .shorthand negated => !m.unicode && !negated
  | .edgeOfWord => !m.unicode
  | .edgeOfText => true

end Mode

end ExecState.Logging.Pattern

namespace ExecState.Logging.Pattern

/-!
## Nesting of patterns

A part of a pattern that others are put into is deeper than they are: a repetition, a group, a
class, a choice, an operation between classes, and also a row of several parts. How deep a pattern
may be is limited, so a reader keeps the depths of what it has read.
-/

def maxDepth : Nat := 250

/-- The depth of parts next to each other. One part alone makes nothing deeper. -/
def enclosing : List Nat → Nat
  | [] => 0
  | [d] => d
  | ds => ds.foldl max 0 + 1

/-- The depths of what was read of a group or a class. -/
structure Nesting where
  /-- Those of the choices that are complete, or that of the operand of an operation. -/
  before : List Nat
  /-- Those of the parts since then, the last one first. -/
  parts : List Nat
deriving DecidableEq

namespace Nesting

def empty : Nesting := ⟨[], []⟩

def depth (n : Nesting) : Nat := enclosing (enclosing n.parts :: n.before)

def add (n : Nesting) (depth : Nat) : Nesting := { n with parts := depth :: n.parts }

/-- The parts form a choice, and another one begins. -/
def choose (n : Nesting) : Nesting := ⟨enclosing n.parts :: n.before, []⟩

/-- All that was read is the operand of an operation. -/
def operate (n : Nesting) : Nesting := ⟨[n.depth], []⟩

/-- The last part is put into another one. -/
def wrapLast (n : Nesting) : Nesting :=
  match n.parts with
  | [] => n
  | d :: rest => { n with parts := (d + 1) :: rest }

end Nesting

/-!
## Classes of characters

A class between square brackets holds characters, ranges of characters and other classes, and it
may be what two of them share, the first without the second, or what one of them alone holds.
Where a part of a pattern works on bytes, its classes hold ASCII alone.
-/

/-- The classes that have a name. -/
def classNames : List String :=
  ["alnum", "alpha", "ascii", "blank", "cntrl", "digit", "graph", "lower", "print", "punct",
    "space", "upper", "word", "xdigit"]

/-- A class that is given by its name, after the bracket: whether all but its characters are meant,
and what follows it. -/
def namedClass? : List Char → Option (Bool × List Char)
  | ':' :: cs =>
    let (negated, cs) := match cs with | '^' :: rest => (true, rest) | rest => (false, rest)
    let name := String.ofList (cs.takeWhile (· ≠ ':'))
    match cs.dropWhile (· ≠ ':') with
    | ':' :: ']' :: rest => if classNames.contains name then some (negated, rest) else none
    | _ => none
  | _ => none

namespace Mode

/-- Whether a class can hold a character. -/
def holds (m : Mode) (c : Char) : Bool := m.canCompare && (m.unicode || c.val < 0x80)

/-- Whether a class can hold another one that is given by its name. -/
def holdsNamed (m : Mode) (negated : Bool) : Bool := m.canCompare && (m.unicode || !negated)

/-- A member of a class: a character, or none where it is a class itself. -/
def member? (m : Mode) : List Char → Option (Option Char × List Char)
  | [] => none
  | '\\' :: rest =>
    match m.escape? rest with
    | some (.literal c, rest) | some (.byte c, rest) =>
      if m.holds c then some (some c, rest) else none
    | some (.shorthand negated, rest) =>
      if m.admits (.shorthand negated) then some (none, rest) else none
    | some (.edgeOfWord, _) | some (.edgeOfText, _) | none => none
  | c :: rest => if m.holds c then some (some c, rest) else none

/-- What follows a member of a class or a range of characters. -/
def range? (m : Mode) (cs : List Char) : Option (List Char) :=
  match m.member? cs with
  | none => none
  | some (low, rest) =>
    match m.skip rest with
    | '-' :: after =>
      if m.ahead? after = some ']' ∨ m.ahead? after = some '-' then some ('-' :: after)
      else
        match low, m.member? (m.skip after) with
        | some low, some (some high, rest) => if low ≤ high then some rest else none
        | _, _ => none
    | rest => some rest

end Mode

/-- A class that was read in part. -/
structure OpenClass where
  nesting : Nesting
  /-- Whether the next dash stands for itself, since nothing but dashes came before it. -/
  dashes : Bool
deriving DecidableEq

namespace OpenClass

def add (o : OpenClass) (depth : Nat) : OpenClass := ⟨o.nesting.add depth, false⟩

/-- All that was read is the operand of an operation. -/
def operate (o : OpenClass) : OpenClass := ⟨o.nesting.operate, false⟩

end OpenClass

namespace Mode

/-- The beginning of a class, after the bracket, with what follows it. All but a class of bytes are
no characters. A closing bracket stands for itself there. -/
def classStart? (m : Mode) (cs : List Char) : Option (OpenClass × List Char) :=
  let (negated, cs) :=
    match m.skip cs with
    | '^' :: rest => (true, m.skip rest)
    | cs => (false, cs)
  if negated && !m.unicode then none
  else
    match cs with
    | ']' :: rest => if m.holds ']' then some (⟨Nesting.empty.add 0, false⟩, rest) else none
    | cs => some (⟨Nesting.empty, true⟩, cs)

/-- The depth of a class that was read in part, with what follows it; the classes around it are
given from the nearest on. The fuel bounds the number of members. -/
def classRest? (m : Mode) : (fuel : Nat) → (outer : List OpenClass) → OpenClass → List Char →
    Option (Nat × List Char)
  | 0, _, _, _ => none
  | fuel + 1, outer, o, cs =>
    match m.skip cs with
    | ']' :: rest =>
      match outer with
      | [] => some (o.nesting.depth + 1, rest)
      | o' :: outer => m.classRest? fuel outer (o'.add (o.nesting.depth + 1)) rest
    | '[' :: rest =>
      match namedClass? rest with
      | some (negated, rest) =>
        if m.holdsNamed negated then m.classRest? fuel outer (o.add 0) rest else none
      | none =>
        match m.classStart? rest with
        | none => none
        | some (inner, rest) => m.classRest? fuel (o :: outer) inner rest
    | '&' :: '&' :: rest => m.classRest? fuel outer o.operate rest
    | '~' :: '~' :: rest => m.classRest? fuel outer o.operate rest
    | '-' :: rest =>
      match o.dashes, rest with
      | true, rest =>
        if m.holds '-' then m.classRest? fuel outer ⟨o.nesting.add 0, true⟩ rest else none
      | false, '-' :: rest => m.classRest? fuel outer o.operate rest
      | false, _ => (m.range? ('-' :: rest)).bind (m.classRest? fuel outer (o.add 0))
    | cs => (m.range? cs).bind (m.classRest? fuel outer (o.add 0))

/-- The depth of a class, after the bracket that opens it, and what follows it. -/
def class? (m : Mode) (cs : List Char) : Option (Nat × List Char) :=
  match m.classStart? cs with
  | none => none
  | some (o, rest) => m.classRest? (cs.length + 1) [] o rest

end Mode

end ExecState.Logging.Pattern

namespace ExecState.Logging.Pattern

/-!
## Groups in patterns

A group between round brackets may have a name, or flags that hold for the group alone. Brackets
with flags and nothing else are no group: the flags hold for what follows them, up to the end of
the group around them.
-/

/-- Whether a text can be the name of a group. -/
def isGroupName : List Char → Bool
  | [] => false
  | c :: rest =>
    (c = '_' || Text.isAlphabetic c) &&
      rest.all fun c ↦ Text.isAlphanumeric c || ['_', '.', '[', ']'].contains c

/-- What stands at the beginning of a group. -/
inductive Opening
  /-- A group that is read in a mode. -/
  | group (m : Mode)
  | named (name : List Char)
  /-- No group at all, but flags for what follows. -/
  | flags (m : Mode)
deriving DecidableEq

/-- The name of a group with what follows it. -/
def groupName? (cs : List Char) : Option (Opening × List Char) :=
  let name := cs.takeWhile (· ≠ '>')
  match cs.dropWhile (· ≠ '>') with
  | _ :: rest => if isGroupName name then some (.named name, rest) else none
  | [] => none

/-- The beginning of a group, after the bracket, with what follows it. -/
def Mode.opening? (m : Mode) (cs : List Char) : Option (Opening × List Char) :=
  match m.skip cs with
  | '?' :: 'P' :: '<' :: rest => groupName? rest
  | '?' :: '<' :: rest => groupName? rest
  | '?' :: rest =>
    let flags := rest.takeWhile fun c ↦ c ≠ ':' ∧ c ≠ ')'
    match m.withFlags? flags, rest.drop flags.length with
    | some m, ':' :: rest => some (.group m, rest)
    | some m, ')' :: rest => if flags.isEmpty then none else some (.flags m, rest)
    | _, _ => none
  | cs => some (.group m, cs)

/-!
## Patterns

A pattern describes texts by characters, classes of characters, repetition, choice and groups.
Filters compare the values of fields with patterns. Nothing is matched here; what matters is
whether a text is a pattern at all.

The reader walks through the text once and keeps the groups that are open. A pattern that is
nested too deep is none.
-/

/-- A group that was read in part. -/
structure OpenGroup where
  mode : Mode
  nesting : Nesting
  /-- Whether a sign of repetition has something before it. -/
  repeatable : Bool
deriving DecidableEq

namespace OpenGroup

/-- A group of which nothing was read. -/
def start (m : Mode) : OpenGroup := ⟨m, Nesting.empty, false⟩

def add (o : OpenGroup) (depth : Nat) : OpenGroup := ⟨o.mode, o.nesting.add depth, true⟩

/-- Flags count as a part that cannot be repeated. -/
def setMode (o : OpenGroup) (m : Mode) : OpenGroup := ⟨m, o.nesting.add 0, false⟩

/-- Another choice begins. -/
def choose (o : OpenGroup) : OpenGroup := ⟨o.mode, o.nesting.choose, false⟩

/-- The last part is repeated, if there is one. -/
def repeatLast? (o : OpenGroup) : Option OpenGroup :=
  if o.repeatable then some ⟨o.mode, o.nesting.wrapLast, true⟩ else none

end OpenGroup

/-- Whether a character is a sign of repetition. -/
def isRepetition (c : Char) : Bool := c = '*' || c = '+' || c = '?'

/-- The depth of a part that is no group, and what follows it. Numbers of repetitions between
braces are not among the parts, since filters give braces a meaning of their own. -/
def Mode.part? (m : Mode) : List Char → Option (Nat × List Char)
  | [] => none
  | '[' :: cs => m.class? cs
  | '\\' :: cs =>
    match m.escape? cs with
    | none => none
    | some (e, cs) => if m.admits e then some (0, cs) else none
  | '.' :: cs => if m.unicode then some (0, cs) else none
  | '^' :: cs | '$' :: cs => some (0, cs)
  | '{' :: _ => none
  | _ :: cs => if m.canCompare then some (0, cs) else none

/-- The depth of a pattern from a place on where a group was read in part; the groups around it are
given from the nearest on, and `names` are those of all groups so far. The fuel bounds the number
of parts. -/
def rest? : (fuel : Nat) → (names : List (List Char)) → (outer : List OpenGroup) → OpenGroup →
    List Char → Option Nat
  | 0, _, _, _, _ => none
  | fuel + 1, names, outer, o, cs =>
    match o.mode.skip cs with
    | [] => if outer.isEmpty then some o.nesting.depth else none
    | '(' :: cs =>
      match o.mode.opening? cs with
      | none => none
      | some (.flags m, cs) => rest? fuel names outer (o.setMode m) cs
      | some (.group m, cs) => rest? fuel names (o :: outer) (.start m) cs
      | some (.named name, cs) =>
        if names.contains name then none
        else rest? fuel (name :: names) (o :: outer) (.start o.mode) cs
    | ')' :: cs =>
      match outer with
      | [] => none
      | o' :: outer => rest? fuel names outer (o'.add (o.nesting.depth + 1)) cs
    | '|' :: cs => rest? fuel names outer o.choose cs
    | c :: cs =>
      if isRepetition c then
        let after := match cs with | '?' :: cs => cs | cs => cs
        match o.repeatLast? with
        | none => none
        | some o => rest? fuel names outer o after
      else
        match o.mode.part? (c :: cs) with
        | none => none
        | some (depth, cs) => rest? fuel names outer (o.add depth) cs

/-- The depth of a text as a pattern, if it is one. -/
def depth? (cs : List Char) : Option Nat := rest? (cs.length + 1) [] [] (.start .standard) cs

def isPattern (cs : List Char) : Bool :=
  match depth? cs with
  | some depth => depth ≤ maxDepth
  | none => false

end ExecState.Logging.Pattern
