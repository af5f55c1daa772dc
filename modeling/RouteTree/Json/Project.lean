import RouteTree.Json.Route
import RouteTree.Project

/-!
# Projects written as records

The parts of a project are records, in JSON as well as in TOML.  The two differ only in
what may stand beside the fields of a record.
-/

namespace RouteTree

/-- Reads a group of a project. -/
def ProjectGroup.ofJson? (format : Json.Format) (value : Json) : Option ProjectGroup := do
  match ← Json.fields? format ["name", "routes", "reserved", "hooks"] value with
  | [name, routes, reserved, hooks] =>
    return {
      name := ← Json.required Json.str? name
      routesFile := ← Json.required Json.str? routes
      reserved := ← Json.withDefault [] (Json.listOf Json.str?) reserved
      hooks := ← Json.withDefault none (Json.nullable (Hooks.ofJson? format)) hooks }
  | _ => none

namespace Project

/-- Reads the section that names the project. -/
def nameOfJson? (format : Json.Format) (value : Json) : Option String := do
  match ← Json.fields? format ["name"] value with
  | [name] => Json.required Json.str? name
  | _ => none

/-- Reads the section on artifacts: where they go, and whether they are indented. -/
def buildOfJson? (format : Json.Format) (value : Json) : Option (String × Bool) := do
  match ← Json.fields? format ["out_dir", "pretty"] value with
  | [outDir, pretty] =>
    return (← Json.withDefault defaultOutDir Json.str? outDir,
      ← Json.withDefault false Json.bool? pretty)
  | _ => none

/-- Reads a project. -/
def ofJson? (format : Json.Format) (value : Json) : Option Project := do
  match ← Json.fields? format ["project", "build", "hooks", "group"] value with
  | [project, build, hooks, groups] =>
    let name ← Json.required (nameOfJson? format) project
    let (outDir, pretty) ←
      Json.withDefault (defaultOutDir, false) (buildOfJson? format) build
    return {
      name, outDir, pretty
      hooks := ← Json.withDefault .none (Hooks.ofJson? format) hooks
      groups := ← Json.withDefault [] (Json.listOf (ProjectGroup.ofJson? format)) groups }
  | _ => none

end Project
end RouteTree
