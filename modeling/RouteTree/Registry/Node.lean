import RouteTree.NamedList
import RouteTree.Registry.Address
import RouteTree.Route

/-!
# The nodes of the registry

A node holds up to three declarations, one for each place, and its children: one
for each literal, in the order in which they were first declared, and at most one
for any text.

`Node.update` changes the node at the end of a list of steps and creates the nodes
that are missing on the way; `Node.at?` looks a node up.
-/

namespace RouteTree

/-- What is declared in one place of the registry. -/
inductive Slot where
  /-- the place is taken by something outside the routes -/
  | reserved
  /-- the place leads to a route -/
  | route (route : Route)
  deriving DecidableEq

/-- A node of the prefix tree of path keys. -/
structure Node where
  /-- declared for requests that end here -/
  exact : Option Slot := none
  /-- the child for any text -/
  dynamic : Option Node := none
  /-- declared for requests that go on below -/
  catchAll : Option Slot := none
  /-- declared in place of the whole node -/
  override : Option Slot := none
  /-- the children by literal, oldest first -/
  statics : List (String × Node) := []

namespace Node

/-- The node without declarations and children. -/
def empty : Node := {}

/-! ## Places -/

/-- What is declared in a place. -/
def slot? (node : Node) : Place → Option Slot
  | .exact => node.exact
  | .catchAll => node.catchAll
  | .override => node.override

/-- The node with a declaration in a place. -/
def setSlot (node : Node) (place : Place) (slot : Slot) : Node :=
  match place with
  | .exact => { node with exact := some slot }
  | .catchAll => { node with catchAll := some slot }
  | .override => { node with override := some slot }

/-- A declaration stands in its own place only. -/
@[simp]
theorem slot?_setSlot (node : Node) (place other : Place) (slot : Slot) :
    (node.setSlot place slot).slot? other =
      if other = place then some slot else node.slot? other := by
  cases place <;> cases other <;> rfl

/-! ## Children -/

/-- The node one step down. -/
def child? (node : Node) : Step → Option Node
  | .literal text => node.statics.lookup text
  | .dynamic => node.dynamic

/-- The node with another child one step down. -/
def setChild (node : Node) (step : Step) (child : Node) : Node :=
  match step with
  | .literal text => { node with statics := assign text child node.statics }
  | .dynamic => { node with dynamic := some child }

@[simp]
theorem child?_empty (step : Step) : empty.child? step = none := by
  cases step <;> rfl

@[simp]
theorem child?_setSlot (node : Node) (place : Place) (slot : Slot) (step : Step) :
    (node.setSlot place slot).child? step = node.child? step := by
  cases place <;> cases step <;> rfl

/-- A child stands at its own step only. -/
@[simp]
theorem child?_setChild (node child : Node) (step other : Step) :
    (node.setChild step child).child? other =
      if other = step then some child else node.child? other := by
  cases step with
  | dynamic => cases other <;> simp [setChild, child?]
  | literal text =>
    cases other with
    | dynamic => simp [setChild, child?]
    | literal otherText => simp [setChild, child?, lookup_assign]

@[simp]
theorem slot?_setChild (node child : Node) (step : Step) (place : Place) :
    (node.setChild step child).slot? place = node.slot? place := by
  cases step <;> cases place <;> rfl

/-! ## Nodes below -/

/-- The node at the end of the steps. -/
def at? (node : Node) : List Step → Option Node
  | [] => some node
  | step :: steps => (node.child? step).bind (·.at? steps)

/-- Changes the node at the end of the steps; a missing node is created empty
first. -/
def update (change : Node → Node) (node : Node) : List Step → Node
  | [] => change node
  | step :: steps =>
    node.setChild step (((node.child? step).getD empty).update change steps)

/-- What is declared at an address. -/
def find? (node : Node) (address : Address) : Option Slot :=
  (node.at? address.steps).bind (·.slot? address.place)

end Node
end RouteTree
