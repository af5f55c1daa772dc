import RouteTree.Json
import RouteTree.NamedList

/-!
# Tables of a TOML text

A document is one table.  A header opens a table inside it and creates the tables above
that are missing; a header in double brackets adds a table to a list of tables; and a
dotted key creates the tables that it names.

Every table can be opened once: by its header, by dotted keys, or by being written as a
value.  `Origin` remembers how a table came to be, and the operations fail where a table
would be opened a second time.  A table that others were only reached through is not yet
open: its header may still come, or a dotted key that ends in it.
-/

namespace RouteTree.Toml

/-- How a table came to be. -/
inductive Origin where
  /-- on the way to a table inside it, and not yet open -/
  | passed
  /-- by its header -/
  | header
  /-- by a dotted key -/
  | dotted
  deriving DecidableEq, Repr, Inhabited

/-- What a name stands for in a table. -/
inductive Item where
  /-- a value as it was written, which is complete -/
  | value (value : Json)
  /-- a table -/
  | table (origin : Origin) (members : List (String × Item))
  /-- a list of tables, the latest first -/
  | tables (latest : List (String × Item)) (earlier : List Item)
  deriving Inhabited

/-- The members of a table. -/
abbrev Members := List (String × Item)

namespace Members

/-- Changes the table that the headers of a path lead to.  A table that is missing is
created, and of a list of tables the latest is meant. -/
def change (edit : Members → Option Members) (members : Members) : List String → Option Members
  | [] => edit members
  | name :: path =>
    match members.lookup name with
    | none => do return assign name (.table .passed (← change edit [] path)) members
    | some (.table origin inner) => do
      return assign name (.table origin (← change edit inner path)) members
    | some (.tables latest earlier) => do
      return assign name (.tables (← change edit latest path) earlier) members
    | some (.value _) => none

/-- Opens a table by its header. -/
def openTable (name : String) (members : Members) : Option Members :=
  match members.lookup name with
  | none => some (assign name (.table .header []) members)
  | some (.table .passed inner) => some (assign name (.table .header inner) members)
  | some _ => none

/-- Adds a table to a list of tables. -/
def addTable (name : String) (members : Members) : Option Members :=
  match members.lookup name with
  | none => some (assign name (.tables [] []) members)
  | some (.tables latest earlier) =>
    some (assign name (.tables [] (.table .header latest :: earlier)) members)
  | some _ => none

/-- The origin of a table behind a dotted key that leads through it.  The key opens the
table that it ends in. -/
def originBehind (origin : Origin) (path : List String) : Origin :=
  if path.length = 1 then .dotted else origin

/-- Gives a key a value.  The parts of a dotted key before the last name tables without
a header of their own.  Of a list of tables the latest is meant; it has a header, so the
key may lead through it and not end in it. -/
def define (value : Json) (members : Members) : List String → Option Members
  | [] => none
  | [name] =>
    match members.lookup name with
    | none => some (assign name (.value value) members)
    | some _ => none
  | name :: path =>
    match members.lookup name with
    | none => do return assign name (.table .dotted (← define value [] path)) members
    | some (.table .header _) => none
    | some (.table origin inner) => do
      return assign name (.table (originBehind origin path) (← define value inner path)) members
    | some (.tables latest earlier) =>
      if path.length = 1 then none
      else do return assign name (.tables (← define value latest path) earlier) members
    | some (.value _) => none

end Members

/-! ## The value of a document -/

mutual

/-- The value that an item stands for. -/
def Item.toJson : Item → Json
  | .value value => value
  | .table _ members => .obj (membersToJson members)
  | .tables latest earlier => .arr (itemsToJson earlier [.obj (membersToJson latest)])
termination_by structural item => item

/-- The members of a table. -/
def membersToJson : List (String × Item) → List (String × Json)
  | [] => []
  | (name, item) :: rest => (name, item.toJson) :: membersToJson rest
termination_by structural members => members

/-- The tables of a list from the earliest on, before those that are given. -/
def itemsToJson : List Item → List Json → List Json
  | [], later => later
  | item :: earlier, later => itemsToJson earlier (item.toJson :: later)
termination_by structural items => items

end

end RouteTree.Toml
