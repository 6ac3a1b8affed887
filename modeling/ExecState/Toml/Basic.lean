/-!
# TOML documents

A document is a table built up by statements: a header opens a table or another element of an
array of tables, and an assignment puts a value under a key of the table that is open. A key may
be a path; the tables on the way are created where they are absent.

No key may be given twice, and what counts as giving it again depends on how a table came to be.
A header may name a table once, and only after it was at most passed through on the way to another
header. A dotted key may pass through tables that no header has named. Between the braces of an
inline table a dotted key may pass through every inline table before it; from outside, an inline
table is complete as it stands.
-/

namespace ExecState.Toml

/-- How a table came to be. -/
inductive TableKind
  /-- Written between braces. -/
  | inline
  /-- Named by a header. -/
  | header
  /-- On the way to what a header names. -/
  | implied
  /-- On the way to what a dotted key names. -/
  | dotted
deriving DecidableEq

/-- A value. Floats and points in time are kept as they are written. -/
inductive Value
  | string (text : String)
  | integer (n : Int)
  | float (lexeme : List Char)
  | boolean (b : Bool)
  | moment (lexeme : List Char)
  | array (items : List Value)
  | table (kind : TableKind) (members : List (String × Value))
  | tables (elements : List (List (String × Value)))

/-- The members of a table. -/
abbrev Members := List (String × Value)

namespace Members

def get? (ms : Members) (key : String) : Option Value := List.lookup key ms

/-- The members with another value under a key that is present. -/
def replace (ms : Members) (key : String) (v : Value) : Members :=
  ms.map fun m ↦ if m.1 = key then (key, v) else m

/-- Whether a path that creates tables of one kind may pass through a table of another. -/
def mayPass (creates : TableKind) : TableKind → Bool
  | .inline => false
  | .header => creates != .dotted
  | .implied | .dotted => true

/-- Changes the table at the end of a path. Tables that are absent are created; of an array of
tables the last element is meant. -/
def within (creates : TableKind) (change : TableKind → Members → Option Members) :
    (path : List String) → TableKind → Members → Option Members
  | [], kind, ms => change kind ms
  | key :: path, _, ms =>
    match ms.get? key with
    | none =>
      (within creates change path creates []).map fun sub ↦ ms ++ [(key, .table creates sub)]
    | some (.table kind sub) =>
      if mayPass creates kind then
        (within creates change path kind sub).map fun sub ↦ ms.replace key (.table kind sub)
      else none
    | some (.tables elements) =>
      match elements.reverse with
      | [] => none
      | last :: before =>
        (within creates change path .header last).map fun last ↦
          ms.replace key (.tables (last :: before).reverse)
    | some _ => none

/-- Puts a value under a dotted key between the braces of an inline table. The last name of the key
is given apart from the path to it; tables that are absent are created. -/
def assignInline (key : String) (v : Value) : (path : List String) → Members → Option Members
  | [], ms => if (ms.get? key).isSome then none else some (ms ++ [(key, v)])
  | name :: path, ms =>
    match ms.get? name with
    | none => (assignInline key v path []).map fun sub ↦ ms ++ [(name, .table .inline sub)]
    | some (.table kind sub) =>
      (assignInline key v path sub).map fun sub ↦ ms.replace name (.table kind sub)
    | some _ => none

/-- Puts a value under a dotted key, whose last name is given apart from the path to it. -/
def assign (path : List String) (key : String) (v : Value) :
    TableKind → Members → Option Members :=
  within .dotted
    (fun kind ms ↦
      if (ms.get? key).isSome then none
      else if !path.isEmpty && kind != .dotted then none
      else some (ms ++ [(key, v)]))
    path

def openTable (key : String) (_ : TableKind) (ms : Members) : Option Members :=
  match ms.get? key with
  | none => some (ms ++ [(key, .table .header [])])
  | some (.table .implied sub) => some (ms.replace key (.table .header sub))
  | some _ => none

/-- Opens another element of an array of tables. -/
def openElement (key : String) (_ : TableKind) (ms : Members) : Option Members :=
  match ms.get? key with
  | none => some (ms ++ [(key, .tables [[]])])
  | some (.tables elements) => some (ms.replace key (.tables (elements ++ [[]])))
  | some _ => none

end Members

/-! ## Statements -/

/-- A line of a document. The last name of a key or a header is given apart from the path. -/
inductive Statement
  | assign (path : List String) (key : String) (v : Value)
  | openTable (path : List String) (key : String)
  | openElement (path : List String) (key : String)

/-- A document as far as it was read. -/
structure Document where
  /-- The path of the table that is open. -/
  current : List String
  members : Members

def Document.empty : Document := ⟨[], []⟩

def Document.add (d : Document) : Statement → Option Document
  | .assign path key v =>
    (Members.within .implied (Members.assign path key v) d.current .header d.members).map
      fun members ↦ { d with members }
  | .openTable path key =>
    (Members.within .implied (Members.openTable key) path .header d.members).map
      fun members ↦ ⟨path ++ [key], members⟩
  | .openElement path key =>
    (Members.within .implied (Members.openElement key) path .header d.members).map
      fun members ↦ ⟨path ++ [key], members⟩

end ExecState.Toml
