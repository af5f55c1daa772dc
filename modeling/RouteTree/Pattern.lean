import RouteTree.Path

/-!
# Patterns and their segments

A pattern is a path whose components are read as *segments*: `:name` is a dynamic
segment, `*name` a catch-all, and everything else a literal.  A catch-all takes the rest
of the path, so it makes sense in the last position only.
-/

namespace RouteTree

/-- One component of a pattern, read by its first character. -/
inductive Segment where
  /-- matches the same text only -/
  | literal (text : String)
  /-- matches any one component -/
  | dynamic (name : String)
  /-- matches the components from its position on -/
  | catchAll (name : String)
  deriving DecidableEq, Repr, Inhabited

namespace Segment

/-- Reads a component: a colon makes it dynamic, an asterisk a catch-all, and the
characters after that are the name. -/
def ofComponent (text : String) : Segment :=
  match text.toList with
  | ':' :: name => .dynamic (String.ofList name)
  | '*' :: name => .catchAll (String.ofList name)
  | _ => .literal text

/-- Whether the segment takes the rest of the path. -/
def isCatchAll : Segment → Bool
  | .catchAll _ => true
  | _ => false

/-- The part of a segment that tells it from others of its sort: the literal
text, or the name of the parameter. -/
def text : Segment → String
  | .literal text => text
  | .dynamic name => name
  | .catchAll name => name

end Segment

/-- The segments of a pattern or path key. -/
def segments (pattern : String) : List Segment :=
  (components pattern).map Segment.ofComponent

/-- Whether a catch-all stands before the last segment, where it would swallow
the segments behind it. -/
def hasMisplacedCatchAll (pattern : List Segment) : Bool :=
  pattern.dropLast.any Segment.isCatchAll

end RouteTree
