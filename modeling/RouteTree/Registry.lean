import RouteTree.Registry.Node

/-!
# The registry of declared routes

Declarations are written to the registry one after another, each under a path key.
The last one to an address wins.  Whenever it replaces a different one, a warning
is kept, so the registry tells both what is declared and what was lost.

A write that fails leaves every declaration and every warning as it was; the nodes
on the way to the fault may have been created.
-/

namespace RouteTree

/-- A declaration that replaced a different one. -/
structure Overwrite where
  /-- the path key of the new declaration, as spelled -/
  key : String
  /-- whether a reservation was replaced, and not a route -/
  replacedReservation : Bool
  deriving DecidableEq, Repr, Inhabited

/-- The warning in words. -/
def Overwrite.message (overwrite : Overwrite) : String :=
  (if overwrite.replacedReservation then "reserved path " else "route ") ++ overwrite.key ++
    " declared more than once, the last declaration wins"

/-- Everything declared so far, with the warnings in the order in which they came up. -/
structure Registry where
  root : Node := .empty
  warnings : List Overwrite := []

namespace Registry

/-- Nothing is declared. -/
def empty : Registry := {}

/-- The warnings about replacing one declaration by another: none when there was none,
or the same. -/
def overwrites (key : String) (old : Option Slot) (new : Slot) : List Overwrite :=
  match old with
  | none => []
  | some old => if old = new then [] else [⟨key, decide (old = .reserved)⟩]

/-- Declares `slot` under a path key, or says why the key is no good. -/
def write (registry : Registry) (key : String) (slot : Slot) : Registry × Option CompileError :=
  let walk := Walk.ofKey key
  match walk.ending with
  | .error fault =>
    ({ registry with root := registry.root.update id walk.steps },
      some (.malformed key fault))
  | .ok place =>
    let old := registry.root.find? ⟨walk.steps, place⟩
    ({ root := registry.root.update (·.setSlot place slot) walk.steps,
       warnings := registry.warnings ++ overwrites key old slot },
      none)

/-- Writes one declaration after another, up to the first that fails. -/
def writeAll (registry : Registry) : List (String × Slot) → Registry × Option CompileError
  | [] => (registry, none)
  | (key, slot) :: rest =>
    match registry.write key slot with
    | (registry, none) => registry.writeAll rest
    | (registry, some error) => (registry, some error)

/-! ## The two sorts of declaration -/

/-- The declaration of an endpoint under a path key. -/
def routeEntry (entry : String × Endpoint) : String × Slot :=
  (entry.1, .route entry.2.toRoute)

/-- The reservation of a path key. -/
def reservation (key : String) : String × Slot :=
  (key, .reserved)

/-- Declares one endpoint. -/
def insert (registry : Registry) (key : String) (endpoint : Endpoint) :
    Registry × Option CompileError :=
  registry.write key (.route endpoint.toRoute)

/-- Reserves path keys, up to the first that is no good. -/
def reserve (registry : Registry) (keys : List String) : Registry × Option CompileError :=
  registry.writeAll (keys.map reservation)

/-- The registry that holds a list of declarations. -/
def ofDeclarations (declarations : List (String × Slot)) : Except CompileError Registry :=
  match empty.writeAll declarations with
  | (registry, none) => .ok registry
  | (_, some error) => .error error

/-- The registry that holds a list of endpoints. -/
def ofRoutes (entries : List (String × Endpoint)) : Except CompileError Registry :=
  ofDeclarations (entries.map routeEntry)

end Registry
end RouteTree
