/-!
# Options of a command

The words after a command's name are options and plain words. An option is named by a long name
after two dashes or by a letter after one; letters may be joined. A value follows its option as
the next word, after an equality sign, or directly after the letter. After a word of two dashes
alone all words are plain.

Words are taken in from left to right. A value is checked when the next option or plain word is
taken in, so that of two faults the later one may be told: a name that is unknown is told at once.
-/

namespace ExecState.Options

/-- Why the words of a command are refused, or why it ends without doing its work. -/
inductive UsageError
  | unknownArgument
  | invalidValue
  | valueValidation
  | argumentConflict
  | tooManyValues
  | missingRequiredArgument
  | missingSubcommand
  | invalidSubcommand
  | displayHelp
  | displayVersion
deriving DecidableEq

def UsageError.name : UsageError → String
  | .unknownArgument => "UnknownArgument"
  | .invalidValue => "InvalidValue"
  | .valueValidation => "ValueValidation"
  | .argumentConflict => "ArgumentConflict"
  | .tooManyValues => "TooManyValues"
  | .missingRequiredArgument => "MissingRequiredArgument"
  | .missingSubcommand => "MissingSubcommand"
  | .invalidSubcommand => "InvalidSubcommand"
  | .displayHelp => "DisplayHelp"
  | .displayVersion => "DisplayVersion"

/-- What an option does. -/
inductive Shape
  /-- It is given or not, and not twice. -/
  | switch
  /-- It may be given any number of times. -/
  | count
  /-- It takes a value, once. -/
  | value
  /-- It ends the reading. -/
  | stop (reason : UsageError)
deriving DecidableEq

/-- The options and plain words that a command takes. -/
structure Grammar (ι : Type) where
  longs : List (String × ι)
  shorts : List (Char × ι)
  shape : ι → Shape
  /-- What is wrong with a value of an option. -/
  fault : ι → String → Option UsageError
  /-- The greatest number of plain words, if there is one. -/
  maxWords : Option Nat
  /-- Whether a plain word names a command that takes over all further words. -/
  handsOver : String → Bool

/-- What was taken in so far. -/
structure Taken (ι : Type) where
  /-- The options with their values, the last one first. -/
  options : List (ι × Option String)
  /-- The plain words, the last one first. -/
  words : List String
  /-- An option whose value is not checked yet and may not have come yet. -/
  pending : Option (ι × Option String)

namespace Taken

variable {ι : Type} [DecidableEq ι]

def empty : Taken ι := ⟨[], [], none⟩

def has (t : Taken ι) (o : ι) : Bool := t.options.any (·.1 = o)

def count (t : Taken ι) (o : ι) : Nat := t.options.countP (·.1 = o)

def value? (t : Taken ι) (o : ι) : Option String := (t.options.find? (·.1 = o)).bind Prod.snd

def accept (g : Grammar ι) (t : Taken ι) (o : ι) (v : Option String) :
    Except UsageError (Taken ι) :=
  let accepted : Taken ι := { t with options := (o, v) :: t.options }
  match g.shape o, v with
  | .stop reason, _ => .error reason
  | .count, _ => .ok accepted
  | .switch, _ => if t.has o then .error .argumentConflict else .ok accepted
  | .value, none => .error .invalidValue
  | .value, some text =>
    if t.has o then .error .argumentConflict
    else
      match g.fault o text with
      | some e => .error e
      | none => .ok accepted

/-- Checks the value that is not checked yet. -/
def settle (g : Grammar ι) (t : Taken ι) : Except UsageError (Taken ι) :=
  match t.pending with
  | none => .ok t
  | some (o, v) => accept g { t with pending := none } o v

/-- Takes in an option by its name, with the value that the same word holds. -/
def option (g : Grammar ι) (t : Taken ι) (o : ι) (attached : Option String) :
    Except UsageError (Taken ι) :=
  match g.shape o, attached with
  | .value, none => do return { ← t.settle g with pending := some (o, none) }
  | .value, some v => do (← t.settle g).accept g o (some v)
  | _, some _ => .error .tooManyValues
  | _, none => do (← t.settle g).accept g o none

/-- Takes in joined letters. A letter that takes a value ends them; an equality sign may stand
between it and its value. -/
def letters (g : Grammar ι) : Taken ι → List Char → Except UsageError (Taken ι)
  | t, [] => .ok t
  | t, c :: rest =>
    match g.shorts.lookup c with
    | none => .error .unknownArgument
    | some o =>
      match g.shape o, rest with
      | .value, [] => t.option g o none
      | .value, '=' :: v => t.option g o (some (String.ofList v))
      | .value, v => t.option g o (some (String.ofList v))
      | _, _ => do (← t.option g o none).letters g rest

/-- Takes in a word after two dashes: a long name and perhaps a value. -/
def long (g : Grammar ι) (t : Taken ι) (cs : List Char) : Except UsageError (Taken ι) :=
  let name := String.ofList (cs.takeWhile (· ≠ '='))
  let attached :=
    match cs.dropWhile (· ≠ '=') with
    | [] => none
    | _ :: v => some (String.ofList v)
  match g.longs.lookup name with
  | none => .error .unknownArgument
  | some o => t.option g o attached

def word (g : Grammar ι) (t : Taken ι) (text : String) : Except UsageError (Taken ι) :=
  match g.maxWords with
  | some n =>
    if t.words.length < n then do
      let t ← t.settle g
      return { t with words := text :: t.words }
    else .error .unknownArgument
  | none => do
    let t ← t.settle g
    return { t with words := text :: t.words }

end Taken

/-! ## Reading -/

/-- What the words of a command come to: what was taken in, and the command that takes over with
the words after its name. -/
structure Reading (ι : Type) where
  taken : Taken ι
  handed : Option (String × List String)

variable {ι : Type} [DecidableEq ι]

def readPlain (g : Grammar ι) : Taken ι → List String → Except UsageError (Taken ι)
  | t, [] => .ok t
  | t, text :: rest => do readPlain g (← t.word g text) rest

/-- Takes in words, without checking the last value. -/
def readFrom (g : Grammar ι) : Taken ι → List String → Except UsageError (Reading ι)
  | t, [] => .ok ⟨t, none⟩
  | t, text :: rest =>
    match text.toList, t.pending with
    | ['-', '-'], _ => do return ⟨← readPlain g t rest, none⟩
    | '-' :: '-' :: cs, _ => do readFrom g (← t.long g cs) rest
    | '-' :: c :: cs, _ => do readFrom g (← t.letters g (c :: cs)) rest
    | _, some (o, none) => readFrom g { t with pending := some (o, some text) } rest
    | _, _ =>
      if g.handsOver text then .ok ⟨t, some (text, rest)⟩
      else do readFrom g (← t.word g text) rest

/-- Reads the words of a command that hands over to no other. -/
def read (g : Grammar ι) (texts : List String) : Except UsageError (Taken ι) := do
  (← readFrom g Taken.empty texts).taken.settle g

end ExecState.Options
