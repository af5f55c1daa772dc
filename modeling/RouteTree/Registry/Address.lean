import RouteTree.CompileError
import RouteTree.Pattern

/-!
# Where a path key leads

A path key is followed segment by segment from the root of the registry.  Every
literal and every dynamic segment is one *step* down; a catch-all or the external
override ends the walk at a place of the node reached so far, and a key that is
walked to its end addresses the exact place of the last node.

The name of a parameter plays no part: `/users/:id` and `/users/:name` lead to the
same place.

A key may turn out malformed after some steps.  The walk says which steps were
taken, whatever its end.
-/

namespace RouteTree

/-- One level down in the registry. -/
inductive Step where
  /-- to the child of this text -/
  | literal (text : String)
  /-- to the child for any text -/
  | dynamic
  deriving DecidableEq, Repr, Inhabited

/-- The three places in which a node can hold a declaration. -/
inductive Place where
  /-- for the requests that end at the node -/
  | exact
  /-- for the requests that go on below the node -/
  | catchAll
  /-- in place of the whole node -/
  | override
  deriving DecidableEq, Repr, Inhabited

/-- A place in the registry: the steps to its node, and which of the node's three
it is. -/
structure Address where
  steps : List Step
  place : Place
  deriving DecidableEq, Repr, Inhabited

/-- How a path key is followed: the steps taken, and the place found at their end
or the fault that stopped it. -/
structure Walk where
  steps : List Step
  ending : Except PatternFault Place

/-- The component that addresses the override of a node. -/
def overrideMark : String := "\\"

namespace Walk

/-- The walk that takes one more step at its start. -/
def after (step : Step) (walk : Walk) : Walk :=
  { walk with steps := step :: walk.steps }

/-- Follows segments from left to right. -/
def ofSegments : List Segment → Walk
  | [] => ⟨[], .ok .exact⟩
  | .catchAll _ :: _ => ⟨[], .ok .catchAll⟩
  | .dynamic _ :: rest => (ofSegments rest).after .dynamic
  | .literal text :: rest =>
    if text = overrideMark then
      ⟨[], if rest.isEmpty then .ok .override else .error .overrideNotLast⟩
    else if text = "" then ⟨[], .error .emptySegment⟩
    else (ofSegments rest).after (.literal text)

/-- Follows a path key.  A catch-all before the end is noticed before the first
step, so it wins over every other fault. -/
def ofKey (key : String) : Walk :=
  let pattern := segments key
  if hasMisplacedCatchAll pattern then ⟨[], .error .catchAllNotLast⟩
  else ofSegments pattern

end Walk
end RouteTree
