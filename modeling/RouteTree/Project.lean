import RouteTree.Failure
import RouteTree.Hooks

/-!
# Projects

A project names the groups to compile, each with a file of routes, and where the
artifacts go.  The hooks of the project hold for every group that has none of its own.
-/

namespace RouteTree

/-- A group of a project. -/
structure ProjectGroup where
  name : String
  /-- the file of its routes, seen from the project file -/
  routesFile : String
  /-- path keys reserved beside those that the file of routes reserves -/
  reserved : List String := []
  /-- the hooks of this group, if it does not share those of the project -/
  hooks : Option Hooks := none
  deriving DecidableEq, Repr, Inhabited

/-- Where artifacts go if a project does not say it. -/
def defaultOutDir : String := ".ejecta/output"

/-- A project. -/
structure Project where
  name : String
  /-- where the artifacts go, seen from the project file -/
  outDir : String := defaultOutDir
  /-- whether artifacts are indented -/
  pretty : Bool := false
  /-- the hooks that groups share -/
  hooks : Hooks := .none
  groups : List ProjectGroup := []
  deriving DecidableEq, Repr, Inhabited

namespace Project

/-- The first fault in the names of groups, given the names before them. -/
def faultInNames (before : List String) : List String → Option Failure
  | [] => none
  | name :: rest =>
    if name = "" then some .unnamedGroup
    else if name ∈ before then some (.duplicateGroup name)
    else faultInNames (name :: before) rest

/-- What is wrong with the groups of a project: it needs one at least, and their names
tell them apart. -/
def fault? (project : Project) : Option Failure :=
  if project.groups.isEmpty then some .noGroups
  else faultInNames [] (project.groups.map (·.name))

/-- The groups that are meant: all of them, or the first of a name. -/
def select (project : Project) : Option String → Except Failure (List ProjectGroup)
  | none => .ok project.groups
  | some name =>
    match project.groups.find? (·.name = name) with
    | some group => .ok [group]
    | none => .error (.unknownGroup name (project.groups.map (·.name)))

/-- The hooks of a group: its own, or those of the project. -/
def hooksFor (project : Project) (group : ProjectGroup) : Hooks :=
  group.hooks.getD project.hooks

end Project
end RouteTree
