import RouteTree.Json.Printer
import RouteTree.Resolution

/-!
# Resolutions written in JSON

The answer to a request is an object with its outcome, its parameters by name and the
handlers that ran.  A single parameter is a string and the rest of a path a list; the
location of a rewrite or redirect is null when there is none.
-/

namespace RouteTree

/-- The value of a parameter as JSON. -/
def Param.toJson : Param → Json
  | .single text => .str text
  | .rest texts => .arr (texts.map .str)

/-- The parameters as an object, in the order of their names. -/
def Params.toJson (params : Params) : Json :=
  .obj (params.entries.map fun (name, value) => (name, value.toJson))

/-- A text that may be missing. -/
def Json.strOrNull : Option String → Json
  | none => .null
  | some text => .str text

/-- The outcome as an object tagged with its sort. -/
def Outcome.toJson (outcome : Outcome) : Json :=
  .obj <| ("type", .str outcome.sort) :: match outcome with
    | .next internalPath externalPath =>
      [("internalPath", .str internalPath), ("externalPath", .str externalPath)]
    | .rewrite internalPath location | .redirect internalPath location =>
      [("internalPath", .str internalPath), ("location", Json.strOrNull location)]
    | .external | .notFound | .skip => []

/-- The whole answer as an object. -/
def Resolution.toJson (resolution : Resolution) : Json :=
  .obj [("outcome", resolution.outcome.toJson), ("params", resolution.params.toJson),
    ("handlers", .arr (resolution.handlers.map .str))]

end RouteTree
