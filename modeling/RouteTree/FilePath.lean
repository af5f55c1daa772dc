import RouteTree.Path

/-!
# Paths of files

A path of a file is a text with slashes.  It is absolute if it starts with a slash, and
relative to the working directory if not.  Joining and taking the parent keep the text
as it was spelled: nothing is resolved or simplified.
-/

namespace RouteTree.FilePath

/-- Whether a path starts at the root. -/
def isAbsolute (path : String) : Bool := path.toList.head? = some '/'

/-- A path as seen from another one.  An absolute path stays as it is, and an empty base
adds nothing. -/
def join (base path : String) : String :=
  if isAbsolute path || base = "" then path
  else if base.toList.getLast? = some '/' then base ++ path
  else base ++ "/" ++ path

/-- The pieces of a path between its slashes. -/
def pieces (path : String) : List String :=
  (splitSlashes path.toList).map String.ofList

/-- The path without the pieces at its end that name nothing: empty ones, and single dots
that do not stand alone.  The pieces are last first. -/
def dropNameless : List String → List String
  | [] => []
  | piece :: rest =>
    if piece = "" ∨ (piece = "." ∧ rest ≠ []) then dropNameless rest else piece :: rest

/-- The path above: without its last name.  The root and the empty path have none
above. -/
def parent? (path : String) : Option String :=
  match dropNameless (pieces path).reverse with
  | [] => none
  | _ :: rest =>
    match dropNameless rest with
    | [] => some (if isAbsolute path then "/" else "")
    | above => some (String.intercalate "/" above.reverse)

/-- The path and those above it, at most so many. -/
def ancestorsWithin : Nat → String → List String
  | 0, path => [path]
  | count + 1, path =>
    match parent? path with
    | none => [path]
    | some above => path :: ancestorsWithin count above

/-- The path and all above it, the nearest first. -/
def ancestors (path : String) : List String :=
  ancestorsWithin path.length path

end RouteTree.FilePath
