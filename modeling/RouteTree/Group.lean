import RouteTree.Hooks
import RouteTree.Tree.Construction
import RouteTree.Tree.Resolve

/-!
# Groups of routes

A group is what is compiled as one: its routes, the path keys that are reserved for
something else, and its hooks.  Routes are declared first and reservations after
them, so a reservation wins over a route of the same address.
-/

namespace RouteTree

/-- Routes that are compiled together. -/
structure RouteGroup where
  /-- what each path key leads to -/
  routes : List (String × Endpoint) := []
  /-- path keys taken by something outside the routes -/
  reserved : List String := []
  hooks : Hooks := .none

/-- A group made ready to resolve requests. -/
structure Compiled where
  tree : Tree
  hooks : Hooks
  /-- the declarations that replaced a different one -/
  warnings : List Overwrite

namespace RouteGroup

/-- Everything that the group declares, in the order in which it is written. -/
def declarations (group : RouteGroup) : List (String × Slot) :=
  group.routes.map Registry.routeEntry ++ group.reserved.map Registry.reservation

/-- Compiles the group. -/
def compile (group : RouteGroup) : Except CompileError Compiled := do
  let registry ← Registry.ofDeclarations group.declarations
  let tree ← registry.toTree
  return { tree, hooks := group.hooks, warnings := registry.warnings }

end RouteGroup

/-- Resolves a request path with a runtime that takes no forward and carries out
every rewrite and redirect. -/
def Compiled.resolve (compiled : Compiled) (path : String) : Resolution :=
  (compiled.tree.evaluate path .passthrough ()).1

end RouteTree
