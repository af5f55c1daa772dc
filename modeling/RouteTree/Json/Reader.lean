import RouteTree.Json.Token

/-!
# Reading a JSON value

The tokens of a text are taken one by one.  The reader keeps the arrays and objects
that are still open, the innermost first, and knows what may come next.  A text is a
JSON value if a value is complete at its end and nothing is open.
-/

namespace RouteTree.Json

/-- An array or object that is still open.  What it holds so far is last first. -/
inductive Frame where
  /-- an array -/
  | items (read : List Json)
  /-- an object in which the value of `key` has yet to come -/
  | members (read : List (Option String × Json)) (key : Option String)
  deriving Inhabited

/-- What may come next.  `opened` holds what is open, the innermost first. -/
inductive Reader where
  /-- a value -/
  | atValue (opened : List Frame)
  /-- the first item of an array, or its end -/
  | atFirstItem (opened : List Frame)
  /-- the first key of an object, or its end -/
  | atFirstKey (opened : List Frame)
  /-- a further key of an object -/
  | atKey (read : List (Option String × Json)) (opened : List Frame)
  /-- the colon behind a key -/
  | atColon (read : List (Option String × Json)) (key : Option String) (opened : List Frame)
  /-- the end of what is open, or more of it: a value is complete -/
  | behind (value : Json) (opened : List Frame)
  deriving Inhabited

namespace Reader

/-- The object of some members: it denotes nothing if a key denotes nothing. -/
def objectOf (members : List (Option String × Json)) : Json :=
  match members.mapM fun (key, value) => key.map (·, value) with
  | some members => .obj members
  | none => .undefined

/-- Takes the first token of a value. -/
def startValue (opened : List Frame) : Token → Option Reader
  | .openObject => some (.atFirstKey opened)
  | .openArray => some (.atFirstItem opened)
  | .null => some (.behind .null opened)
  | .bool value => some (.behind (.bool value) opened)
  | .num literal => some (.behind (.num literal) opened)
  | .str (some text) => some (.behind (.str text) opened)
  | .str none => some (.behind .undefined opened)
  | .closeObject | .closeArray | .colon | .comma => none

/-- Takes a token. -/
def step : Reader → Token → Option Reader
  | .atValue opened, token => startValue opened token
  | .atFirstItem opened, .closeArray => some (.behind (.arr []) opened)
  | .atFirstItem opened, token => startValue (.items [] :: opened) token
  | .atFirstKey opened, .closeObject => some (.behind (.obj []) opened)
  | .atFirstKey opened, .str key => some (.atColon [] key opened)
  | .atKey read opened, .str key => some (.atColon read key opened)
  | .atColon read key opened, .colon => some (.atValue (.members read key :: opened))
  | .behind value (.items read :: opened), .comma =>
    some (.atValue (.items (value :: read) :: opened))
  | .behind value (.items read :: opened), .closeArray =>
    some (.behind (.arr (value :: read).reverse) opened)
  | .behind value (.members read key :: opened), .comma =>
    some (.atKey ((key, value) :: read) opened)
  | .behind value (.members read key :: opened), .closeObject =>
    some (.behind (objectOf ((key, value) :: read).reverse) opened)
  | _, _ => none

end Reader

/-- The value of a row of tokens. -/
def ofTokens? (tokens : List Token) : Option Json :=
  match tokens.foldlM Reader.step (.atValue []) with
  | some (.behind value []) => some value
  | _ => none

/-- The value of a JSON text. -/
def parse? (text : String) : Option Json :=
  (Token.scan text.toList).bind ofTokens?

end RouteTree.Json
