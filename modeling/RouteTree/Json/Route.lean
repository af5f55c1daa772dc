import RouteTree.Group
import RouteTree.Json.Reader
import RouteTree.Json.Record

/-!
# Routes written in JSON

Pages, routes and their kinds are records.  The sort of an endpoint is not written
down: a value that can be read as a route is one, and else it is read as a page.  A
page has none of the fields that a route needs and the other way round, so what is one
sort is never the other.

An endpoint is kept as a whole before it is known what it is, so it must not hold a
literal that denotes nothing, and it may nest only so deep.
-/

namespace RouteTree

/-- How deep arrays and objects may nest in a text. -/
def maxDepth : Nat := 127

/-! ## Pages and kinds -/

/-- The fields of a page. -/
def Page.fieldNames : List String :=
  ["externalPath", "internalPath", "location", "external", "rewrite", "redirect", "page"]

/-- Reads a page. -/
def Page.ofJson? (value : Json) : Option Page := do
  match ← Json.fields? .json Page.fieldNames value with
  | [externalPath, internalPath, location, external, rewrite, redirect, page] =>
    return {
      externalPath := ← Json.required Json.str? externalPath
      internalPath := ← Json.required Json.str? internalPath
      location := ← Json.withDefault none (Json.nullable Json.str?) location
      external := ← Json.withDefault false Json.bool? external
      rewrite := ← Json.withDefault false Json.bool? rewrite
      redirect := ← Json.withDefault false Json.bool? redirect
      page := ← Json.withDefault false Json.bool? page }
  | _ => none

namespace RouteKind

/-- The word that a kind is tagged with. -/
def tag : RouteKind → String
  | .next => "NEXT"
  | .middleware => "MIDDLEWARE"
  | .dynamicForward _ => "DYNAMIC_FORWARD"
  | .staticForward => "STATIC_FORWARD"

/-- The words of all kinds, in their order. -/
def tags : List String := ["NEXT", "MIDDLEWARE", "DYNAMIC_FORWARD", "STATIC_FORWARD"]

/-- Reads a tag: the word of a kind, or its number in the order. -/
def tagOfJson? : Json → Option String
  | .str word => if word ∈ tags then some word else none
  | value => value.nat?.bind (tags[·]?)

/-- The kind of a tag.  `name` reads the name of a dynamic forward, `bare` says whether
the other kinds may stand as they are written. -/
def ofTag? (tag : String) (name : Option String) (bare : Bool) : Option RouteKind :=
  if tag = "DYNAMIC_FORWARD" then name.map .dynamicForward
  else if !bare then none
  else if tag = "NEXT" then some .next
  else if tag = "MIDDLEWARE" then some .middleware
  else if tag = "STATIC_FORWARD" then some .staticForward
  else none

/-- Reads a kind.  An object may have members besides its fields; an array holds its
fields and nothing more. -/
def ofJson? : Json → Option RouteKind
  | .obj members => do
    let tag ← Json.required tagOfJson? (← Json.field? members "type")
    ofTag? tag ((Json.field? members "name").bind (Json.required Json.str?)) true
  | .arr (tag :: fields) => do
    let name := match fields with
      | [name] => name.str?
      | _ => none
    ofTag? (← tagOfJson? tag) name fields.isEmpty
  | _ => none

end RouteKind

/-! ## Endpoints -/

/-- The fields of a route. -/
def Route.fieldNames : List String := ["segment", "kind", "then", "forward"]

/-- A field of a route: its value, and the continuation that the value is read as. -/
abbrev RouteField := Json × Option (Option Endpoint)

/-- Reads a route from its fields. -/
def Route.ofFields? : List (Option RouteField) → Option Route
  | [segment, kind, onward, forward] => do
    return {
      segment := ← Json.required (fun field : RouteField => Page.ofJson? field.1) segment
      kind := ← Json.required (fun field : RouteField => RouteKind.ofJson? field.1) kind
      onward := ← Json.withDefault none (fun field : RouteField => field.2) onward
      forward := ← Json.withDefault none (fun field : RouteField => field.2) forward }
  | _ => none

mutual

/-- Reads an endpoint: a route if it can be one, and else a page. -/
def Endpoint.ofJson? : Json → Option Endpoint
  | .obj members =>
    match (Json.fieldsOfMembers Route.fieldNames (routeMembers members)).bind
        Route.ofFields? with
    | some declared => some (.route declared)
    | none => (Page.ofJson? (.obj members)).map .page
  | .arr items =>
    match (Json.fieldsOfItems .json Route.fieldNames (routeItems items)).bind
        Route.ofFields? with
    | some declared => some (.route declared)
    | none => (Page.ofJson? (.arr items)).map .page
  | _ => none
termination_by structural value => value

/-- The members of an object as fields of a route. -/
def routeMembers : List (String × Json) → List (String × RouteField)
  | [] => []
  | (name, value) :: rest =>
    (name, value, match value with
      | .null => some none
      | value => (Endpoint.ofJson? value).map some) :: routeMembers rest
termination_by structural members => members

/-- The items of an array as fields of a route. -/
def routeItems : List Json → List RouteField
  | [] => []
  | value :: rest =>
    (value, match value with
      | .null => some none
      | value => (Endpoint.ofJson? value).map some) :: routeItems rest
termination_by structural items => items

end

/-- A value as a field of a route. -/
def routeField (value : Json) : RouteField :=
  (value, match value with
    | .null => some none
    | value => (Endpoint.ofJson? value).map some)

theorem routeMembers_eq_map (members : List (String × Json)) :
    routeMembers members = members.map fun (name, value) => (name, routeField value) := by
  induction members with
  | nil => rfl
  | cons first rest ih =>
    obtain ⟨name, value⟩ := first
    cases value <;> simp [routeMembers, routeField, ih]

/-- Reads an endpoint that is kept and may nest so deep. -/
def Endpoint.ofJsonWithin? (depth : Nat) (value : Json) : Option Endpoint :=
  if value.isKeepable && value.depth ≤ depth then Endpoint.ofJson? value else none

/-! ## Groups -/

/-- Reads the hooks of a group. -/
def Hooks.ofJson? (format : Json.Format) (value : Json) : Option Hooks := do
  let fields ← Json.fields? format Hooks.names value
  let flags ← fields.mapM (Json.withDefault false Json.bool?)
  return Hooks.ofNames fun name => ((Hooks.names.zip flags).lookup name).getD false

/-- The hooks as an object. -/
def Hooks.toJson (hooks : Hooks) : Json :=
  .obj (hooks.flags.map fun (name, flag) => (name, .bool flag))

/-- Reads a pair of a path key and an endpoint that may nest so deep. -/
def entryOfJson? (depth : Nat) : Json → Option (String × Endpoint)
  | .arr [key, endpoint] => do return (← key.str?, ← Endpoint.ofJsonWithin? depth endpoint)
  | _ => none

/-- Reads a list of entries that may nest so deep. -/
def entriesOfJson? (depth : Nat) (value : Json) : Option (List (String × Endpoint)) :=
  Json.listOf (entryOfJson? (depth - 2)) value

namespace RouteGroup

/-- Reads a group whose endpoints nest no deeper than the text may. -/
def ofJson? (depth : Nat) (value : Json) : Option RouteGroup := do
  match ← Json.fields? .json ["routes", "reserved", "hooks"] value with
  | [routes, reserved, hooks] =>
    return {
      routes := ← Json.withDefault [] (entriesOfJson? (depth - 1)) routes
      reserved := ← Json.withDefault [] (Json.listOf Json.str?) reserved
      hooks := ← Json.withDefault .none (Hooks.ofJson? .json) hooks }
  | _ => none

/-- Reads the text of a group. -/
def parse? (text : String) : Option RouteGroup :=
  (Json.parse? text).bind (ofJson? maxDepth)

end RouteGroup
end RouteTree
