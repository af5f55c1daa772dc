/-!
# The host of a command

A command reads and writes files and prints texts.  It does so through a *host*, which
may be the machine or, to reason about commands, a value that stands for its files.

An operation on a file may fail, for one of a few causes.
-/

namespace RouteTree

/-- Why an operation on a file failed. -/
inductive FileFault where
  /-- there is nothing at the path -/
  | notFound
  /-- a file was asked for and there is a directory -/
  | isDirectory
  /-- the path goes on below a file -/
  | notDirectory
  /-- a directory was to be created where there is a file -/
  | alreadyExists
  /-- the file holds no text -/
  | notText
  /-- the path can name no file -/
  | invalidPath
  /-- anything else, in the words of the host -/
  | other (words : String)
  deriving DecidableEq, Repr, Inhabited

/-- The cause in words. -/
def FileFault.message : FileFault → String
  | .notFound => "No such file or directory (os error 2)"
  | .isDirectory => "Is a directory (os error 21)"
  | .notDirectory => "Not a directory (os error 20)"
  | .alreadyExists => "File exists (os error 17)"
  | .notText => "stream did not contain valid UTF-8"
  | .invalidPath => "file name contained an unexpected NUL byte"
  | .other words => words

/-- What a command can do in its surroundings. -/
structure Host (m : Type → Type) where
  /-- the text of a file -/
  readText : String → m (Except FileFault String)
  /-- gives a file a text; the file is created if it is missing -/
  writeText : String → String → m (Except FileFault Unit)
  /-- creates a directory and those above it, as far as they are missing -/
  createDirectories : String → m (Except FileFault Unit)
  /-- whether there is a file at a path -/
  isFile : String → m Bool
  /-- the absolute path of a file or directory, without detours -/
  canonical : String → m (Except FileFault String)
  /-- prints to the standard output -/
  print : String → m Unit
  /-- prints to the standard error output -/
  printError : String → m Unit

end RouteTree
