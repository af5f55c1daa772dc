/-!
# Paths and their components

Path keys, route patterns, request paths and the paths of files are all cut at their
slashes.  Where a path is a route's, one slash is dropped at each end first.  Cutting
keeps empty components, so `/a//b` has three of them, and only the paths that are empty
once trimmed have none.
-/

namespace RouteTree

/-- The text without the one slash it may start with. -/
def dropLeadingSlash : List Char → List Char
  | [] => []
  | c :: rest => if c = '/' then rest else c :: rest

/-- The text without the one slash it may end with. -/
def dropTrailingSlash (text : List Char) : List Char :=
  if text.getLast? = some '/' then text.dropLast else text

/-- The pieces of a text between its slashes, in order.  There is always one
more piece than there are slashes. -/
def splitSlashes : List Char → List (List Char)
  | [] => [[]]
  | c :: rest =>
    if c = '/' then [] :: splitSlashes rest
    else match splitSlashes rest with
      | [] => [[c]]
      | piece :: pieces => (c :: piece) :: pieces

/-- The components of a path, without the outer slash on either side. -/
def components (path : String) : List String :=
  match dropTrailingSlash (dropLeadingSlash path.toList) with
  | [] => []
  | inner => (splitSlashes inner).map String.ofList

end RouteTree
