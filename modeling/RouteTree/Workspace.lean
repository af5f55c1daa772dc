import RouteTree.FilePath
import RouteTree.Host

/-!
# Files as a value

A workspace holds all that a command can see and change: files and directories by their
place, the working directory, and what has been printed.  A place is the list of names
from the root.

A path is followed name by name.  Each step needs a directory to start from; an empty
name and a single dot stay, and two dots go up.
-/

namespace RouteTree

/-- What can be at a place. -/
inductive FileEntry where
  | directory
  /-- a file that holds a text -/
  | text (content : String)
  /-- a file that holds no text -/
  | binary
  deriving DecidableEq, Repr, Inhabited

/-- The files, the working directory, and what has been printed. -/
structure Workspace where
  /-- what is at each place below the root -/
  entries : List (List String × FileEntry) := []
  /-- where relative paths start -/
  workingDirectory : List String := []
  output : String := ""
  errors : String := ""
  deriving Repr, Inhabited

namespace Workspace

/-! ## Places -/

/-- What is at a place.  The root is always a directory. -/
def entry? (workspace : Workspace) (place : List String) : Option FileEntry :=
  if place = [] then some .directory else workspace.entries.lookup place

/-- The workspace with something else at a place. -/
def setEntry (workspace : Workspace) (place : List String) (entry : FileEntry) : Workspace :=
  { workspace with
    entries := (place, entry) :: workspace.entries.filter (·.1 ≠ place) }

/-- Makes a directory of every place above one where nothing is yet. -/
def addAbove (workspace : Workspace) (place : List String) : Workspace :=
  (List.range place.length).foldl (fun workspace length =>
    let above := place.take length
    match workspace.entry? above with
    | none => workspace.setEntry above .directory
    | some _ => workspace) workspace

/-- The workspace with something at a place, and with the directories above it. -/
def add (workspace : Workspace) (place : List String) (entry : FileEntry) : Workspace :=
  (workspace.addAbove place).setEntry place entry

/-! ## Paths -/

/-- The place that names lead to from another one, whether or not anything is there. -/
def descend (place : List String) : List String → List String
  | [] => place
  | name :: rest =>
    if name = "" ∨ name = "." then descend place rest
    else if name = ".." then descend place.dropLast rest
    else descend (place ++ [name]) rest

/-- Follows names from a place on, through what exists. -/
def follow (workspace : Workspace) (place : List String) :
    List String → Except FileFault (List String)
  | [] => .ok place
  | name :: rest =>
    match workspace.entry? place with
    | some .directory =>
      if name = "" ∨ name = "." then workspace.follow place rest
      else if name = ".." then workspace.follow place.dropLast rest
      else
        match workspace.entry? (place ++ [name]) with
        | none => .error .notFound
        | some _ => workspace.follow (place ++ [name]) rest
    | some _ => .error .notDirectory
    | none => .error .notFound

/-- Where a path starts. -/
def start (workspace : Workspace) (path : String) : List String :=
  if FilePath.isAbsolute path then [] else workspace.workingDirectory

/-- Whether a path can name a file at all. -/
def isValid (path : String) : Bool :=
  !path.toList.contains '\x00'

/-- The place of what exists at a path. -/
def resolve (workspace : Workspace) (path : String) : Except FileFault (List String) :=
  if !isValid path then .error .invalidPath
  else if path = "" then .error .notFound
  else workspace.follow (workspace.start path) (FilePath.pieces path)

/-- The workspace with the directory at a path as its working directory. -/
def changeDirectory (workspace : Workspace) (path : String) : Except FileFault Workspace :=
  match workspace.resolve path with
  | .error fault => .error fault
  | .ok place =>
    if workspace.entry? place = some .directory then
      .ok { workspace with workingDirectory := place }
    else .error .notDirectory

/-- The place that a path names in a directory that exists.  `none` stands for a path
that does not end in a name. -/
def resolveNew (workspace : Workspace) (path : String) : Except FileFault (Option (List String)) :=
  if !isValid path then .error .invalidPath
  else
    let pieces := FilePath.pieces path
    match pieces.getLast? with
    | none => .ok none
    | some name =>
      if name = "" ∨ name = "." ∨ name = ".." then .ok none
      else
        match workspace.follow (workspace.start path) pieces.dropLast with
        | .error fault => .error fault
        | .ok above =>
          match workspace.entry? above with
          | some .directory => .ok (some (above ++ [name]))
          | some _ => .error .notDirectory
          | none => .error .notFound

/-! ## Operations -/

/-- The text of a file. -/
def readText (workspace : Workspace) (path : String) : Except FileFault String :=
  match workspace.resolve path with
  | .error fault => .error fault
  | .ok place =>
    match workspace.entry? place with
    | some (.text content) => .ok content
    | some .binary => .error .notText
    | some .directory => .error .isDirectory
    | none => .error .notFound

/-- Whether there is a file at a path. -/
def isFile (workspace : Workspace) (path : String) : Bool :=
  match workspace.resolve path with
  | .error _ => false
  | .ok place => workspace.entry? place ≠ some .directory

/-- Whether there is a directory at a path. -/
def isDirectory (workspace : Workspace) (path : String) : Bool :=
  match workspace.resolve path with
  | .error _ => false
  | .ok place => workspace.entry? place = some .directory

/-- The absolute path of a place. -/
def absolute (place : List String) : String :=
  "/" ++ String.intercalate "/" place

/-- The absolute path of what exists at a path. -/
def canonical (workspace : Workspace) (path : String) : Except FileFault String :=
  (workspace.resolve path).map absolute

/-- Gives a file a text. -/
def writeText (workspace : Workspace) (path content : String) :
    Except FileFault Unit × Workspace :=
  match workspace.resolveNew path with
  | .error fault => (.error fault, workspace)
  | .ok none =>
    match workspace.resolve path with
    | .error fault => (.error fault, workspace)
    | .ok _ => (.error .isDirectory, workspace)
  | .ok (some place) =>
    if workspace.entry? place = some .directory then (.error .isDirectory, workspace)
    else (.ok (), workspace.setEntry place (.text content))

/-- The path without the slashes at its end, down to its first character. -/
def dropTrailingSlashes (path : String) : String :=
  match path.toList.reverse.dropWhile (· = '/') with
  | [] => if path = "" then "" else "/"
  | rest => String.ofList rest.reverse

/-- Creates a directory in one that exists. -/
def createDirectory (workspace : Workspace) (path : String) :
    Except FileFault Unit × Workspace :=
  match workspace.resolveNew (dropTrailingSlashes path) with
  | .error fault => (.error fault, workspace)
  | .ok none =>
    match workspace.resolve path with
    | .error fault => (.error fault, workspace)
    | .ok _ => (.error .alreadyExists, workspace)
  | .ok (some place) =>
    match workspace.entry? place with
    | some _ => (.error .alreadyExists, workspace)
    | none => (.ok (), workspace.setEntry place .directory)

/-- Creates a directory unless it exists. -/
def ensureDirectory (workspace : Workspace) (path : String) :
    Except FileFault Unit × Workspace :=
  match workspace.createDirectory path with
  | (.ok (), workspace) => (.ok (), workspace)
  | (.error fault, workspace) =>
    if workspace.isDirectory path then (.ok (), workspace) else (.error fault, workspace)

/-- Creates the first directory of a list; where it has nothing to be created in, those
behind it are created before. -/
def createFrom (workspace : Workspace) : List String → Except FileFault Unit × Workspace
  | [] => (.error .notFound, workspace)
  | path :: above =>
    if path = "" then (.ok (), workspace)
    else
      match workspace.ensureDirectory path with
      | (.error .notFound, workspace) =>
        match workspace.createFrom above with
        | (.ok (), workspace) => workspace.ensureDirectory path
        | failed => failed
      | done => done

/-- Creates a directory and those above it, as far as they are missing. -/
def createDirectories (workspace : Workspace) (path : String) :
    Except FileFault Unit × Workspace :=
  workspace.createFrom (FilePath.ancestors path)

/-! ## The workspace as a host -/

/-- Commands that change a workspace and nothing else. -/
def host : Host (StateM Workspace) where
  readText path := fun workspace => (workspace.readText path, workspace)
  writeText path content := fun workspace => workspace.writeText path content
  createDirectories path := fun workspace => workspace.createDirectories path
  isFile path := fun workspace => (workspace.isFile path, workspace)
  canonical path := fun workspace => (workspace.canonical path, workspace)
  print text := fun workspace => ((), { workspace with output := workspace.output ++ text })
  printError text := fun workspace => ((), { workspace with errors := workspace.errors ++ text })

end Workspace
end RouteTree
