import RouteTree.Json.Token

/-!
# Writing a JSON value

A value is written as a row of pieces: its tokens, and the gaps between them.  The
compact text leaves the gaps out.  In the indented text every item and every member
has a line of its own, two blanks further in than the bracket that opens around it, and
an empty array or object stays in one piece.
-/

namespace RouteTree.Json

/-- A token, or the room between two. -/
inductive Piece where
  | token (token : Token)
  /-- a new line, indented to a level -/
  | line (level : Nat)
  /-- one blank -/
  | blank
  deriving DecidableEq, Repr, Inhabited

namespace Piece

/-- The piece in the indented text. -/
def indented : Piece → List Char
  | .token written => written.text
  | .line level => '\n' :: List.replicate (2 * level) ' '
  | .blank => [' ']

/-- The piece in the compact text. -/
def compact : Piece → List Char
  | .token written => written.text
  | .line _ | .blank => []

end Piece

mutual

/-- The pieces of a value at a level. -/
def pieces (level : Nat) : Json → List Piece
  | .null => [.token .null]
  | .bool value => [.token (.bool value)]
  | .num literal => [.token (.num literal)]
  | .str text => [.token (.str (some text))]
  | .undefined => [.token (.str none)]
  | .arr [] => [.token .openArray, .token .closeArray]
  | .arr (item :: rest) =>
    .token .openArray :: .line (level + 1) :: pieces (level + 1) item ++
      piecesOfItems (level + 1) rest ++ [.line level, .token .closeArray]
  | .obj [] => [.token .openObject, .token .closeObject]
  | .obj ((key, value) :: rest) =>
    .token .openObject :: .line (level + 1) :: .token (.str (some key)) :: .token .colon ::
      .blank :: pieces (level + 1) value ++
      piecesOfMembers (level + 1) rest ++ [.line level, .token .closeObject]
termination_by structural value => value

/-- The pieces of the items after the first. -/
def piecesOfItems (level : Nat) : List Json → List Piece
  | [] => []
  | item :: rest =>
    .token .comma :: .line level :: pieces level item ++ piecesOfItems level rest
termination_by structural items => items

/-- The pieces of the members after the first. -/
def piecesOfMembers (level : Nat) : List (String × Json) → List Piece
  | [] => []
  | (key, value) :: rest =>
    .token .comma :: .line level :: .token (.str (some key)) :: .token .colon :: .blank ::
      pieces level value ++ piecesOfMembers level rest
termination_by structural members => members

end

/-- The value in one line without blanks. -/
def compact (value : Json) : String :=
  String.ofList ((value.pieces 0).flatMap Piece.compact)

/-- The value with a line for every item and member. -/
def indented (value : Json) : String :=
  String.ofList ((value.pieces 0).flatMap Piece.indented)

end RouteTree.Json
