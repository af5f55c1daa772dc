import RouteTree.Registry
import RouteTree.Scope

/-!
# From declarations to decision trees

A route becomes a chain: the bindings of its pattern, then its action, then its
continuations with everything bound so far in scope.  The two continuations of a
forward are bound independently of each other.  A missing continuation ends without
an answer.

A node of the registry becomes a switch on the component at its depth.  Its exact
declaration is the branch for the end of the path, which is written as the label
`""`; then come its literal children, the child for any text, and the catch-all.  An
override takes the place of all of them.
-/

namespace RouteTree

/-! ## Pages and routes -/

namespace Page

/-- What is left of a page when it cannot be rewritten: a redirect with the page
itself behind it, or the page. -/
def redirectAction (page : Page) : Tree :=
  let served := Tree.next page.internalPath page.externalPath
  if page.redirect then
    .redirect page.location page.internalPath (if page.page then some served else none)
  else served

/-- What a page does once its parameters are bound. -/
def action (page : Page) : Tree :=
  if page.external then .external
  else if page.rewrite then
    .rewrite page.location page.internalPath
      (if page.redirect || page.page then some page.redirectAction else none)
  else page.redirectAction

/-- The tree of a page: the bindings that are not in scope yet, then its action. -/
def toTree (page : Page) (scope : Scope) : Except CompileError Tree := do
  let (bindings, _) ← scope.bind page.externalPath
  return Binding.allBefore bindings page.action

end Page

mutual

/-- The tree of a route. -/
def Route.toTree (scope : Scope) : Route → Except CompileError Tree
  | ⟨segment, kind, onward, forward⟩ => do
    let (bindings, scope) ← scope.bind segment.externalPath
    let action ← match kind with
      | .next => pure segment.action
      | .middleware => do
        let onward ← continuationTree scope onward
        pure (.middleware segment.internalPath segment.location onward)
      | .dynamicForward name => do
        let onward ← continuationTree scope onward
        let forward ← continuationTree scope forward
        pure (.dynamicForward name segment.internalPath segment.location onward forward)
      | .staticForward => do
        let onward ← continuationTree scope onward
        let forward ← continuationTree scope forward
        pure (.staticForward segment.internalPath segment.location onward forward)
    return Binding.allBefore bindings action
termination_by structural route => route

/-- The tree of a route or page. -/
def Endpoint.toTree (scope : Scope) : Endpoint → Except CompileError Tree
  | .route declared => declared.toTree scope
  | .page segment => segment.toTree scope
termination_by structural endpoint => endpoint

/-- The tree of a continuation that may be missing. -/
def continuationTree (scope : Scope) : Option Endpoint → Except CompileError Tree
  | none => .ok .notFound
  | some endpoint => endpoint.toTree scope
termination_by structural endpoint => endpoint

end

/-! ## Declarations and nodes -/

/-- The tree of a declaration, with nothing bound before it. -/
def Slot.toTree : Slot → Except CompileError Tree
  | .reserved => .ok .skip
  | .route declared => declared.toTree .empty

mutual

/-- The tree of a node at a depth.  Of several declarations that fail, the first in
the order of the switch is reported. -/
def Node.toTree (depth : Nat) : Node → Except CompileError Tree
  | ⟨exact, dynamic, catchAll, override, statics⟩ =>
    match override with
    | some slot => slot.toTree
    | none => do
      let exact ← match exact with
        | none => pure .notFound
        | some slot => slot.toTree
      let statics ← staticTrees (depth + 1) statics
      let dynamic ← dynamicTree (depth + 1) dynamic
      let catchAll ← match catchAll with
        | none => pure none
        | some slot => some <$> slot.toTree
      return .switch depth (("", exact) :: statics) dynamic catchAll
termination_by structural node => node

/-- The trees of the literal children, with their labels. -/
def staticTrees (depth : Nat) : List (String × Node) → Except CompileError (List (String × Tree))
  | [] => .ok []
  | (literal, child) :: rest => do
    let tree ← child.toTree depth
    let trees ← staticTrees depth rest
    return (literal, tree) :: trees
termination_by structural children => children

/-- The tree of the child for any text, which may be missing. -/
def dynamicTree (depth : Nat) : Option Node → Except CompileError Tree
  | none => .ok .notFound
  | some child => child.toTree depth
termination_by structural child => child

end

/-- The tree of everything declared. -/
def Registry.toTree (registry : Registry) : Except CompileError Tree :=
  registry.root.toTree 0

end RouteTree
