import RouteTree.CompileError
import RouteTree.Host

/-!
# Why a command fails

Each failure says what could not be done; where something below it went wrong, that is
its cause.
-/

namespace RouteTree

/-- What kept a command from its end. -/
inductive Failure where
  /-- no group is declared -/
  | noGroups
  /-- a group has no name -/
  | unnamedGroup
  /-- two groups have one name -/
  | duplicateGroup (name : String)
  /-- no group has the name; those that are declared have the others -/
  | unknownGroup (name : String) (available : List String)
  /-- not exactly one group can be meant -/
  | ambiguousGroup
  /-- no directory from here upward holds a project file -/
  | projectNotFound (start : String)
  /-- the directory to start from cannot be told -/
  | cannotStart (start : String) (fault : FileFault)
  /-- a file cannot be read -/
  | cannotRead (path : String) (fault : FileFault)
  /-- the project file is none -/
  | badProject (path : String)
  /-- a file of routes is none -/
  | badRoutes (path : String)
  /-- the directory for the artifacts cannot be made -/
  | cannotCreate (path : String) (fault : FileFault)
  /-- an artifact cannot be written -/
  | cannotWrite (path : String) (fault : FileFault)
  /-- a group cannot be compiled -/
  | cannotCompile (group : String) (error : CompileError)
  deriving DecidableEq, Repr, Inhabited

/-- What lies below a failure. -/
inductive Cause where
  | file (fault : FileFault)
  /-- a text is no JSON, or not the JSON of what is asked for -/
  | json
  /-- a text is no TOML, or not the TOML of what is asked for -/
  | toml
  | compile (error : CompileError)
  deriving DecidableEq, Repr, Inhabited

/-- The cause in words. -/
def Cause.message : Cause → String
  | .file fault => fault.message
  | .json => "not a group of routes in JSON"
  | .toml => "not a project in TOML"
  | .compile error => error.message

namespace Failure

/-- The name of the project file. -/
def projectFile : String := "ejecta.toml"

/-- The failure in words, without its cause. -/
def message : Failure → String
  | .noGroups => "at least one [[group]] must be declared"
  | .unnamedGroup => "group.name must not be empty"
  | .duplicateGroup name => "duplicate group name: " ++ name
  | .unknownGroup name available =>
    "unknown group \"" ++ name ++ "\"\navailable groups: " ++ String.intercalate ", " available
  | .ambiguousGroup => "multiple route groups declared, pass --group to pick one"
  | .projectNotFound start =>
    projectFile ++ " not found (searched upward from " ++ start ++ ")"
  | .cannotStart start _ => "failed to canonicalize " ++ start
  | .cannotRead path _ => "failed to read " ++ path
  | .badProject path => "failed to parse " ++ path
  | .badRoutes path => "failed to parse " ++ path
  | .cannotCreate path _ => "failed to create " ++ path
  | .cannotWrite path _ => "failed to write " ++ path
  | .cannotCompile group _ => "group \"" ++ group ++ "\" failed to compile"

/-- What lies below the failure, if anything. -/
def cause? : Failure → Option Cause
  | .noGroups | .unnamedGroup | .duplicateGroup _ | .unknownGroup .. | .ambiguousGroup
  | .projectNotFound _ => none
  | .cannotStart _ fault | .cannotRead _ fault | .cannotCreate _ fault | .cannotWrite _ fault =>
    some (.file fault)
  | .badProject _ => some .toml
  | .badRoutes _ => some .json
  | .cannotCompile _ error => some (.compile error)

/-- The lines that introduce a cause. -/
def causedBy : String := "\n\nCaused by:\n"

/-- A text with every line indented. -/
def indented (text : String) : String :=
  String.intercalate "\n" ((text.splitOn "\n").map ("    " ++ ·))

/-- What is printed when a command fails. -/
def report (failure : Failure) : String :=
  "Error: " ++ failure.message ++
    (match failure.cause? with
      | none => ""
      | some cause => causedBy ++ indented cause.message) ++ "\n"

end Failure
end RouteTree
