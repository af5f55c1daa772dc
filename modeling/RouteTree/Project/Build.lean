import RouteTree.FilePath
import RouteTree.Json.Tree
import RouteTree.Project
import RouteTree.Terminal

/-!
# Building a project

Every group is compiled by itself, in the order in which it is declared: its file is
read, the reservations and hooks of the project are added, and the compiled group is
written to an artifact.  The first group that fails ends the build; the artifacts
before it are there by then.
-/

namespace RouteTree

namespace Project

variable {m : Type → Type} [Monad m]

/-- The group of routes to compile: that of the file, with what the project adds to
it. -/
def routesOf (project : Project) (group : ProjectGroup) (routes : RouteGroup) : RouteGroup :=
  { routes with
    reserved := routes.reserved ++ group.reserved
    hooks := project.hooksFor group }

/-- Compiles the routes of a group. -/
def compileRoutes (project : Project) (group : ProjectGroup) (path text : String) :
    Except Failure Compiled :=
  match RouteGroup.parse? text with
  | none => .error (.badRoutes path)
  | some routes =>
    match (project.routesOf group routes).compile with
    | .error error => .error (.cannotCompile group.name error)
    | .ok compiled => .ok compiled

/-- Reads and compiles a group, whose file is seen from `base`. -/
def compileGroup (host : Host m) (project : Project) (base : String) (group : ProjectGroup) :
    ExceptT Failure m Compiled := do
  let path := FilePath.join base group.routesFile
  match ← host.readText path with
  | .error fault => throw (.cannotRead path fault)
  | .ok text => liftExcept (project.compileRoutes group path text)
where
  /-- What has failed here fails the command. -/
  liftExcept {α : Type} : Except Failure α → ExceptT Failure m α
    | .ok value => pure value
    | .error failure => throw failure

/-- The directory of the artifacts, seen from `base`. -/
def outPath (project : Project) (base : String) : String :=
  FilePath.join base project.outDir

/-- The artifact of a group. -/
def artifactPath (project : Project) (base : String) (group : ProjectGroup) : String :=
  FilePath.join (project.outPath base) (group.name ++ ".json")

/-- What is printed about declarations that were lost. -/
def warningLines (compiled : Compiled) : String :=
  String.join (compiled.warnings.map fun overwrite => Terminal.warning overwrite.message)

/-- What is printed about an artifact. -/
def summary (path : String) (compiled : Compiled) : String :=
  Terminal.detail (toString compiled.tree.size ++ " nodes") ++
    (match compiled.hooks.enabled with
      | [] => ""
      | hooks => Terminal.detail ("hooks: " ++ String.intercalate ", " hooks)) ++
    Terminal.made path

/-- Builds one group of several: the path of its artifact. -/
def buildGroup (host : Host m) (project : Project) (base : String) (number total : Nat)
    (group : ProjectGroup) : ExceptT Failure m String := do
  host.print (Terminal.step number total ("group " ++ group.name))
  let compiled ← compileGroup host project base group
  host.printError (warningLines compiled)
  let path := project.artifactPath base group
  match ← host.writeText path (compiled.artifact project.pretty) with
  | .error fault => throw (.cannotWrite path fault)
  | .ok () =>
    host.print (summary path compiled)
    return path

/-- Builds groups from a number on: the paths of their artifacts. -/
def buildGroups (host : Host m) (project : Project) (base : String) (total : Nat) (number : Nat) :
    List ProjectGroup → ExceptT Failure m (List String)
  | [] => return []
  | group :: rest => do
    let path ← buildGroup host project base number total group
    let paths ← buildGroups host project base total (number + 1) rest
    return path :: paths

/-- Builds the groups that are meant: the paths of their artifacts. -/
def build (host : Host m) (project : Project) (base : String) (only : Option String) :
    ExceptT Failure m (List String) := do
  match project.select only with
  | .error failure => throw failure
  | .ok groups =>
    let outPath := project.outPath base
    match ← host.createDirectories outPath with
    | .error fault => throw (.cannotCreate outPath fault)
    | .ok () =>
      host.print <| Terminal.arrow <|
        "compiling " ++ toString groups.length ++ " route group(s) for " ++ project.name
      let paths ← buildGroups host project base groups.length 1 groups
      host.print ("\n" ++ Terminal.done "build complete")
      return paths

end Project
end RouteTree
