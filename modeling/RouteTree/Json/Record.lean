import RouteTree.Json

/-!
# Records in JSON

A record is written as an object with a member for each field, or as an array with
the fields in their order.  In an object, members that are no fields are ignored and a
field may be given once only; in an array, fields at the end may be left out.

What else stands in a record is treated as the format asks for in which the record is
written.
-/

namespace RouteTree.Json

/-- The formats in which records are written, which differ in what may stand beside the
fields. -/
inductive Format where
  /-- other members are passed over unread, and items behind the last field are
  refused -/
  | json
  /-- other members are read, though they are not kept, and items behind the last field
  are left unread -/
  | toml
  deriving DecidableEq, Repr, Inhabited

/-- The one value that is given for a name, if any.  A name that is given twice is
refused. -/
def field? {α : Type} (members : List (String × α)) (name : String) : Option (Option α) :=
  match members.filter (·.1 = name) with
  | [] => some none
  | [(_, value)] => some (some value)
  | _ => none

/-- The fields of a record that is written as an object. -/
def fieldsOfMembers {α : Type} (names : List String) (members : List (String × α)) :
    Option (List (Option α)) :=
  names.mapM (field? members)

/-- The fields of a record that is written as an array. -/
def fieldsOfItems {α : Type} (format : Format) (names : List String) (items : List α) :
    Option (List (Option α)) :=
  if format = .json ∧ names.length < items.length then none
  else some ((List.range names.length).map (items[·]?))

/-- Whether every member that is no field can be read. -/
def othersReadable (names : List String) (members : List (String × Json)) : Bool :=
  members.all fun (name, value) => name ∈ names || value.isKeepable

/-- The fields of a record, in the order of their names. -/
def fields? (format : Format) (names : List String) : Json → Option (List (Option Json))
  | .obj members =>
    if format = .toml ∧ !othersReadable names members then none
    else fieldsOfMembers names members
  | .arr items => fieldsOfItems format names items
  | _ => none

/-- Reads a field that must be given. -/
def required {α β : Type} (read : α → Option β) (field : Option α) : Option β :=
  field.bind read

/-- Reads a field that has a default. -/
def withDefault {α β : Type} (default : β) (read : α → Option β) : Option α → Option β
  | none => some default
  | some value => read value

/-- Reads a value that may be null. -/
def nullable {β : Type} (read : Json → Option β) : Json → Option (Option β)
  | .null => some none
  | value => (read value).map some

/-- Reads a row of values. -/
def listOf {β : Type} (read : Json → Option β) (value : Json) : Option (List β) :=
  value.items?.bind (·.mapM read)

end RouteTree.Json
