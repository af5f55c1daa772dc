import RouteTree.Project.Build
import RouteTree.Json.Resolution

/-!
# Inspecting a request

A request path is resolved against one compiled group, and the answer is printed.
-/

namespace RouteTree.Project

variable {m : Type → Type} [Monad m]

/-- Resolves a request path against the group that is meant. -/
def resolve (host : Host m) (project : Project) (base path : String) (only : Option String) :
    ExceptT Failure m Resolution := do
  match project.select only with
  | .error failure => throw failure
  | .ok [group] =>
    let compiled ← compileGroup host project base group
    return compiled.resolve path
  | .ok _ => throw .ambiguousGroup

/-- The answer as it is printed. -/
def inspection (resolution : Resolution) : String :=
  resolution.toJson.indented ++ "\n"

/-- Resolves a request path and prints the answer. -/
def inspect (host : Host m) (project : Project) (base path : String) (only : Option String) :
    ExceptT Failure m Unit := do
  let resolution ← project.resolve host base path only
  host.print (inspection resolution)

end RouteTree.Project
