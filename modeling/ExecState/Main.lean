import ExecState.Program.Run

/-!
# The program

Runs on the files of the machine, with the settings where the environment says.
-/

namespace ExecState

/-- The cause of a file operation that failed on the machine. -/
def DiskError.ofError : IO.Error → DiskError
  | .noFileOrDirectory .. => .notFound
  | .alreadyExists .. => .alreadyExists
  | .inappropriateType _ code _ => if code = 20 then .notDirectory else .isDirectory
  | e => .other e.toString

/-- A file operation whose failure is an answer. -/
def attempt {α : Type} (action : IO α) : IO (Except DiskError α) := do
  try
    return .ok (← action)
  catch e =>
    return .error (DiskError.ofError e)

/-- Whether there is something at a path of the machine. -/
def isOnMachine (path : String) : IO Bool := do
  try
    (← IO.FS.realPath path).pathExists
  catch _ =>
    return false

/-- The path of the directory that holds a file. -/
def parentPath (path : String) : String := String.intercalate "/" (path.splitOn "/").dropLast

/-- Changes a file of the machine after the directory that holds it was created. -/
def putOnMachine (path : String) (change : IO Unit) : IO (Except DiskError Unit) := do
  if path.isEmpty then return .error .noParent
  else
    let parent := parentPath path
    attempt do
      if !parent.isEmpty then IO.FS.createDirAll parent
      change

def machineDisk : Disk IO where
  isPresent := isOnMachine
  read path := attempt (IO.FS.readFile path)
  write path text := putOnMachine path (IO.FS.writeFile path text)
  append path text := putOnMachine path do (← IO.FS.Handle.mk path .append).putStr text
  makeDirectories path := attempt (IO.FS.createDirAll path)
  delete path := do
    if ← isOnMachine path then
      try
        if ← (← IO.FS.realPath path).isDir then IO.FS.removeDirAll path
        else IO.FS.removeFile path
        return true
      catch _ =>
        return false
    else return true

end ExecState

open ExecState in
/-- Runs the program on the words of a call. -/
def main (arguments : List String) : IO UInt32 := do
  let path := Configuration.path (← IO.getEnv "EVMSTATE_CONFIG_PATH") (← IO.getEnv "HOME")
  let journal ← isOnMachine "/run/systemd/journal/socket"
  let host := ⟨journal, (← IO.getEnv "RUST_LOG").getD ""⟩
  let finish ← Program.run machineDisk path arguments host
  IO.print finish.stdout
  IO.eprint finish.stderr
  return UInt32.ofNat finish.exit
