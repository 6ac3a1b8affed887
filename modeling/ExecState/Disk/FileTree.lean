import ExecState.Basic

/-!
# Places for files

What the program asks of a disk, and one that is a plain value.
-/

namespace ExecState

/-!
## Disks

The operations that the program needs from the place where files are kept. They are gathered in a
record over a monad, so that the same program runs on the files of a machine and on a tree of
files that is a plain value.
-/

/-- Why a file operation fails. -/
inductive DiskError
  | notFound
  | alreadyExists
  | notDirectory
  | isDirectory
  | nameTooLong
  /-- The name holds the character zero. -/
  | nulCharacter
  /-- The content is no text. -/
  | notText
  /-- The path has no directory that could be created. -/
  | noParent
  | other (text : String)
deriving DecidableEq

def DiskError.message : DiskError → String
  | .notFound => "No such file or directory (os error 2)"
  | .alreadyExists => "File exists (os error 17)"
  | .notDirectory => "Not a directory (os error 20)"
  | .isDirectory => "Is a directory (os error 21)"
  | .nameTooLong => "File name too long (os error 36)"
  | .nulCharacter => "file name contained an unexpected NUL byte"
  | .notText => "stream did not contain valid UTF-8"
  | .noParent => "unable to create directory"
  | .other text => text

/-- A place where files are kept. -/
structure Disk (m : Type → Type) where
  /-- Whether there is a file or a directory at a path. -/
  isPresent : (path : String) → m Bool
  /-- The text of a file. -/
  read : (path : String) → m (Except DiskError String)
  /-- Replaces the text of a file, which is created with its directories where it is absent. -/
  write : (path text : String) → m (Except DiskError Unit)
  /-- Adds to the text of a file, which is created with its directories where it is absent. -/
  append : (path text : String) → m (Except DiskError Unit)
  /-- Creates a directory and those above it. -/
  makeDirectories : (path : String) → m (Except DiskError Unit)
  /-- Removes a file, or a directory with all it holds, and tells whether it is gone. -/
  delete : (path : String) → m Bool

/-!
## File trees

A file tree is a disk as a plain value: directories with named entries, from the root down. A path
is walked name by name; every name but the last has to lead to a directory. A path that ends in a
slash can lead to a directory only.

A walk keeps the way back, so that a place in the tree can be left again and what was changed
there is part of the whole tree.
-/

/-- What a name leads to. -/
inductive FileNode
  | file (text : String)
  | directory (entries : List (String × FileNode))

/-- What a directory holds, by name. -/
abbrev Entries := List (String × FileNode)

namespace Entries

/-- What a name leads to. -/
def get? (entries : Entries) (name : String) : Option FileNode := List.lookup name entries

/-- The entries with something under a name. -/
def put (name : String) (node : FileNode) : Entries → Entries
  | [] => [(name, node)]
  | e :: rest => if e.1 = name then (name, node) :: rest else e :: put name node rest

/-- The entries without a name. -/
def remove (name : String) (entries : Entries) : Entries := entries.filter fun e ↦ e.1 ≠ name

end Entries

/-- A tree of files. -/
structure FileTree where
  /-- What the root holds. -/
  entries : Entries

namespace FileTree

def empty : FileTree := ⟨[]⟩

/-! ### Paths -/

/-- A path as it is written. -/
structure Path where
  /-- The names that are walked from the root, the last one first. -/
  names : List String
  /-- The number of bytes of the path. -/
  size : Nat
  /-- Whether a slash follows the last name. -/
  slash : Bool

/-- The parts of a text between slashes; there is at least one. -/
def parts : List Char → List (List Char)
  | [] => [[]]
  | c :: rest =>
    match parts rest with
    | [] => [[c]]
    | p :: ps => if c = '/' then [] :: p :: ps else (c :: p) :: ps

def Path.ofString (text : String) : Path :=
  let ps := parts text.toList
  { names := ((ps.filter fun p ↦ !p.isEmpty).map String.ofList).reverse
    size := text.utf8ByteSize
    slash := ps.getLast? == some [] }

/-- The paths that end in one of the parts of a path, where the parts begin at a number of bytes
from its start. Further ones come earlier. -/
def Path.leading (start : Nat) (names : List String) : (ps : List String) → List Path
  | [] => []
  | p :: ps =>
    let finish := start + p.utf8ByteSize
    if p.isEmpty then leading (finish + 1) names ps
    else leading (finish + 1) (p :: names) ps ++ [⟨p :: names, finish, false⟩]

/-- The directories that a path lies in, the nearest first. A name that stays where it is does not
count as a name. -/
def Path.above (text : String) : List Path :=
  let ps := (parts text.toList).map String.ofList
  ((leading 0 [] ps).filter fun p ↦ p.names.head? != some ".").drop 1

def maxNameSize : Nat := 255

def maxPathSize : Nat := 4095

/-- Whether a name holds the character zero. -/
def hasNul (name : String) : Bool := name.toList.contains '\x00'

/-- Why a path is refused before it is walked. -/
def Path.fault? (p : Path) : Option DiskError :=
  if p.names.any hasNul then some .nulCharacter
  else if maxPathSize < p.size then some .nameTooLong
  else if p.size = 0 then some .notFound
  else none

/-! ### Places -/

/-- A directory and the way back to the root. -/
structure Place where
  /-- What the directory holds. -/
  here : Entries
  /-- The directories above, the nearest first, each with the name that leads down from it. -/
  above : List (String × Entries)

namespace Place

def root (t : FileTree) : Place := ⟨t.entries, []⟩

/-- The directory above; the root is above itself. -/
def up (p : Place) : Place :=
  match p.above with
  | [] => p
  | (name, entries) :: above => ⟨entries.put name (.directory p.here), above⟩

/-- What a name of the directory leads to. -/
def look (p : Place) (name : String) : Except DiskError (Option FileNode) :=
  if name.utf8ByteSize ≤ maxNameSize then .ok (p.here.get? name) else .error .nameTooLong

def enter (p : Place) (name : String) : Except DiskError Place :=
  if name = "." then .ok p
  else if name = ".." then .ok p.up
  else
    match p.look name with
    | .error e => .error e
    | .ok none => .error .notFound
    | .ok (some (.file _)) => .error .notDirectory
    | .ok (some (.directory entries)) => .ok ⟨entries, (name, p.here) :: p.above⟩

/-- The directory that names lead to, one after the other. -/
def walk (p : Place) : List String → Except DiskError Place
  | [] => .ok p
  | name :: rest =>
    match p.enter name with
    | .error e => .error e
    | .ok p' => p'.walk rest

/-- The place with something under a name. -/
def put (p : Place) (name : String) (node : FileNode) : Place :=
  { p with here := p.here.put name node }

/-- The place without a name. -/
def remove (p : Place) (name : String) : Place := { p with here := p.here.remove name }

def tree (p : Place) : FileTree :=
  ⟨p.above.foldl (fun here step ↦ step.2.put step.1 (.directory here)) p.here⟩

end Place

/-- Whether a name moves to a directory that is known already. -/
def isDots (name : String) : Bool := name = "." || name = ".."

/-- What a path leads to. -/
def find (t : FileTree) (p : Path) : Except DiskError FileNode :=
  match p.fault? with
  | some e => .error e
  | none =>
    match p.names with
    | [] => .ok (.directory t.entries)
    | name :: above =>
      match (Place.root t).walk above.reverse with
      | .error e => .error e
      | .ok place =>
        if isDots name then (place.enter name).map fun p ↦ .directory p.here
        else
          match place.look name with
          | .error e => .error e
          | .ok none => .error .notFound
          | .ok (some (.file text)) => if p.slash then .error .notDirectory else .ok (.file text)
          | .ok (some (.directory entries)) => .ok (.directory entries)

/-! ### Operations -/

def isPresent (t : FileTree) (path : String) : Bool := (t.find (Path.ofString path)).isOk

def read (t : FileTree) (path : String) : Except DiskError String :=
  match t.find (Path.ofString path) with
  | .error e => .error e
  | .ok (.file text) => .ok text
  | .ok (.directory _) => .error .isDirectory

def isDirectory (t : FileTree) (p : Path) : Bool :=
  match t.find p with
  | .ok (.directory _) => true
  | _ => false

def makeDirectory (t : FileTree) (p : Path) : Except DiskError FileTree :=
  match p.fault? with
  | some e => .error e
  | none =>
    match p.names with
    | [] => .error .alreadyExists
    | name :: above =>
      match (Place.root t).walk above.reverse with
      | .error e => .error e
      | .ok place =>
        if isDots name then .error .alreadyExists
        else
          match place.look name with
          | .error e => .error e
          | .ok (some _) => .error .alreadyExists
          | .ok none => .ok (place.put name (.directory [])).tree

/-- Creates a directory, after those it lies in where they are absent. -/
def makeEach (t : FileTree) : (paths : List Path) → Outcome DiskError Unit FileTree
  | [] => .done () t
  | p :: above =>
    match t.makeDirectory p with
    | .ok t' => .done () t'
    | .error .notFound =>
      match t.makeEach above with
      | (.error e, t') => .failed e t'
      | (.ok (), t') =>
        match t'.makeDirectory p with
        | .ok t'' => .done () t''
        | .error e => if t'.isDirectory p then .done () t' else .failed e t'
    | .error e => if t.isDirectory p then .done () t else .failed e t

/-- Creates a directory and those it lies in. -/
def makeDirectories (t : FileTree) (path : String) : Outcome DiskError Unit FileTree :=
  if path.isEmpty then .done () t else t.makeEach (Path.ofString path :: Path.above path)

/-- Changes the text of a file in a directory that is there already. An absent file has no text
before. -/
def changeFile (t : FileTree) (p : Path) (change : String → String) :
    Outcome DiskError Unit FileTree :=
  match p.fault? with
  | some e => .failed e t
  | none =>
    match p.names with
    | [] => .failed .isDirectory t
    | name :: above =>
      match (Place.root t).walk above.reverse with
      | .error e => .failed e t
      | .ok place =>
        if isDots name || p.slash then .failed .isDirectory t
        else
          match place.look name with
          | .error e => .failed e t
          | .ok (some (.directory _)) => .failed .isDirectory t
          | .ok (some (.file text)) => .done () (place.put name (.file (change text))).tree
          | .ok none => .done () (place.put name (.file (change ""))).tree

/-- Changes the text of a file, which is created with its directories where it is absent. -/
def changeOrCreate (t : FileTree) (path : String) (change : String → String) :
    Outcome DiskError Unit FileTree :=
  if path.isEmpty then .failed .noParent t
  else
    match t.makeEach (Path.above path) with
    | (.error e, t') => .failed e t'
    | (.ok (), t') => t'.changeFile (Path.ofString path) change

/-- Replaces the text of a file, which is created with its directories where it is absent. -/
def write (t : FileTree) (path text : String) : Outcome DiskError Unit FileTree :=
  t.changeOrCreate path fun _ ↦ text

/-- Adds to the text of a file, which is created with its directories where it is absent. -/
def append (t : FileTree) (path text : String) : Outcome DiskError Unit FileTree :=
  t.changeOrCreate path fun old ↦ old ++ text

/-- Removes an empty directory or a file, given by its path, and tells whether it is gone. One
that the path does not lead to counts as gone; the root, and a directory that the path names by
dots, stay. -/
def removeLast (t : FileTree) (p : Path) : Bool × FileTree :=
  match p.names with
  | [] => (false, t)
  | name :: above =>
    match (Place.root t).walk above.reverse with
    | .error _ => (true, t)
    | .ok place => if isDots name then (false, t) else (true, (place.remove name).tree)

/-- Removes a file, or a directory after all it holds, and tells whether it is gone. The path is
walked once more when the directory is empty: where it led through what the directory held, the
directory stays. -/
def delete (t : FileTree) (path : String) : Bool × FileTree :=
  let p := Path.ofString path
  match t.find p with
  | .error _ => (true, t)
  | .ok (.file _) => t.removeLast p
  | .ok (.directory _) =>
    match (Place.root t).walk p.names.reverse with
    | .error _ => (true, t)
    | .ok place => Place.tree { place with here := [] } |>.removeLast p

/-- The disk that keeps its files in a tree. -/
def disk : Disk (StateM FileTree) where
  isPresent path := do return (← get).isPresent path
  read path := do return (← get).read path
  write path text := fun t ↦ t.write path text
  append path text := fun t ↦ t.append path text
  makeDirectories path := fun t ↦ t.makeDirectories path
  delete path := fun t ↦ t.delete path

end FileTree

end ExecState
