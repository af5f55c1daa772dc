import RouteTree.CompileError
import RouteTree.Pattern
import RouteTree.Tree

/-!
# The parameters in scope

On the way through a route and its continuations the parameters of every pattern
are bound to positions of the request path.  A parameter that a pattern shares with
an earlier one is bound once; at another position it is a collision.  At most one
catch-all is bound on the way.

`Scope.bind` goes through a pattern from left to right and lists the bindings that
it adds.  It stops at the first segment that is at fault.
-/

namespace RouteTree

/-- A parameter bound to a position of the request path. -/
inductive Binding where
  /-- to the one component there -/
  | dynamic (name : String) (index : Nat)
  /-- to the components from there on -/
  | catchAll (name : String) (index : Nat)
  deriving DecidableEq, Repr, Inhabited

/-- The tree that makes a binding and goes on. -/
def Binding.before (binding : Binding) (onward : Tree) : Tree :=
  match binding with
  | .dynamic name index => .dynamic name index onward
  | .catchAll name index => .catchAll name index onward

/-- The tree that makes bindings in order and goes on. -/
def Binding.allBefore (bindings : List Binding) (onward : Tree) : Tree :=
  bindings.foldr Binding.before onward

/-- What is bound so far. -/
structure Scope where
  /-- the position of every parameter, the latest binding first -/
  params : List (String × Nat) := []
  /-- whether a catch-all is among them -/
  hasCatchAll : Bool := false
  deriving DecidableEq, Repr, Inhabited

namespace Scope

/-- Nothing is bound. -/
def empty : Scope := {}

/-- The position to which a parameter is bound. -/
def index? (scope : Scope) (name : String) : Option Nat :=
  scope.params.lookup name

/-- The scope after one more binding. -/
def add (scope : Scope) : Binding → Scope
  | .dynamic name index => { scope with params := (name, index) :: scope.params }
  | .catchAll name index => { params := (name, index) :: scope.params, hasCatchAll := true }

/-- The binding that a segment at a position asks for, if it needs one.  `pattern` is
the whole pattern, for the error. -/
def bindingOf (scope : Scope) (pattern : String) (index : Nat) :
    Segment → Except CompileError (Option Binding)
  | .literal _ => .ok none
  | .dynamic name =>
    if name = "" then .error (.malformed pattern .unnamedDynamic)
    else match scope.index? name with
      | none => .ok (some (.dynamic name index))
      | some bound => if bound = index then .ok none else .error (.collision pattern name)
  | .catchAll name =>
    if scope.hasCatchAll then .ok none
    else if name = "" then .error (.malformed pattern .unnamedCatchAll)
    else match scope.index? name with
      | none => .ok (some (.catchAll name index))
      | some bound =>
        if bound = index then .ok (some (.catchAll name index))
        else .error (.collision pattern name)

/-- Binds the segments of a pattern from a position on: the bindings that are added,
and the scope after them. -/
def bindFrom (pattern : String) (scope : Scope) (index : Nat) :
    List Segment → Except CompileError (List Binding × Scope)
  | [] => .ok ([], scope)
  | segment :: rest =>
    match scope.bindingOf pattern index segment with
    | .error error => .error error
    | .ok none => bindFrom pattern scope (index + 1) rest
    | .ok (some binding) =>
      match bindFrom pattern (scope.add binding) (index + 1) rest with
      | .error error => .error error
      | .ok (bindings, scope) => .ok (binding :: bindings, scope)

/-- Binds the parameters of a pattern.  A catch-all before the end is noticed before
anything is bound. -/
def bind (scope : Scope) (pattern : String) : Except CompileError (List Binding × Scope) :=
  if hasMisplacedCatchAll (segments pattern) then .error (.malformed pattern .catchAllNotLast)
  else bindFrom pattern scope 0 (segments pattern)

end Scope
end RouteTree
