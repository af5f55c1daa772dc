import RouteTree.CommandLine

/-!
# The program

The machine as a host: its files and its standard output.  What the operations mean is
said in `RouteTree.Host`.
-/

namespace RouteTree

/-- The cause of a failed operation. -/
def FileFault.ofError : IO.Error → FileFault
  | .noFileOrDirectory .. => .notFound
  | .alreadyExists .. => .alreadyExists
  | .inappropriateType _ code details => ofCode code details
  | error => .other (toString error)
where
  /-- A file in place of a directory, or the other way round. -/
  ofCode (code : UInt32) (details : String) : FileFault :=
    if code = 20 then .notDirectory else if code = 21 then .isDirectory else .other details

/-- Performs an operation on a file. -/
def attempt {α : Type} (operation : IO α) : IO (Except FileFault α) := do
  match ← operation.toBaseIO with
  | .ok value => return .ok value
  | .error error => return .error (.ofError error)

/-- The text of a file on the machine. -/
def readMachineText (path : String) : IO (Except FileFault String) := do
  match ← attempt (IO.FS.readBinFile path) with
  | .error fault => return .error fault
  | .ok bytes =>
    match String.fromUTF8? bytes with
    | some text => return .ok text
    | none => return .error .notText

/-- The machine on which the program runs. -/
def machine : Host IO where
  readText := readMachineText
  writeText path text := attempt (IO.FS.writeFile path text)
  createDirectories path := if path = "" then return .ok () else attempt (IO.FS.createDirAll path)
  isFile path := return (← attempt (IO.FS.readBinFile path)) matches .ok _
  canonical path := attempt do
    let found ← IO.FS.realPath path
    return found.toString
  print := IO.print
  printError := IO.eprint

end RouteTree

/-- Runs the program on the machine. -/
def main (arguments : List String) : IO UInt32 := do
  let ending ← RouteTree.runProgram RouteTree.machine arguments
  return ending.code.toUInt32
