import RouteTree.NumberLiteral

/-!
# JSON values

A JSON value as it stands in a text: the members of an object in their order, with
repetitions, and numbers by their literal.

Two sorts of literal are well formed and still denote nothing: a string in which one
half of a surrogate pair stands alone, and a number out of range.  A reader may pass
over them but not keep them (`Json.isKeepable`).
-/

namespace RouteTree

/-- A JSON value. -/
inductive Json where
  | null
  | bool (value : Bool)
  /-- a number, by its literal -/
  | num (literal : String)
  | str (text : String)
  /-- a string, or an object with a key, that holds half a surrogate pair, or a number
  that is out of range however it is read -/
  | undefined
  | arr (items : List Json)
  | obj (members : List (String × Json))
  deriving Inhabited, Repr

namespace Json

/-- The number literal of a natural number. -/
def nat (n : Nat) : Json := .num (toString n)

/-- The natural number that a literal without sign, point and exponent denotes. -/
def nat? : Json → Option Nat
  | .num literal => do
    let digits := literal.toList
    if digits.isEmpty || !digits.all Char.isDigit then none
    else some (NumberLiteral.ofDigits digits)
  | _ => none

/-- The text of a string. -/
def str? : Json → Option String
  | .str text => some text
  | _ => none

/-- The value of a Boolean. -/
def bool? : Json → Option Bool
  | .bool value => some value
  | _ => none

/-- The items of an array. -/
def items? : Json → Option (List Json)
  | .arr items => some items
  | _ => none

/-- The value of the first member of a name. -/
def get? (value : Json) (name : String) : Option Json :=
  match value with
  | .obj members => members.lookup name
  | _ => none

/-- The object whose present members are given. -/
def ofMembers (members : List (String × Option Json)) : Json :=
  .obj (members.filterMap fun (name, value) => value.map (name, ·))

/-! ## Nesting, and what can be kept -/

mutual

/-- How deep arrays and objects nest in the value. -/
def depth : Json → Nat
  | .arr items => 1 + depthItems items
  | .obj members => 1 + depthMembers members
  | _ => 0
termination_by structural value => value

/-- The depth of the deepest item. -/
def depthItems : List Json → Nat
  | [] => 0
  | item :: rest => max item.depth (depthItems rest)
termination_by structural items => items

/-- The depth of the deepest member. -/
def depthMembers : List (String × Json) → Nat
  | [] => 0
  | (_, value) :: rest => max value.depth (depthMembers rest)
termination_by structural members => members

end

mutual

/-- Whether every literal in the value denotes something. -/
def isKeepable : Json → Bool
  | .num literal => ((NumberLiteral.ofText? literal.toList).map (·.isFiniteProduct)).getD false
  | .undefined => false
  | .arr items => isKeepableItems items
  | .obj members => isKeepableMembers members
  | .null | .bool _ | .str _ => true
termination_by structural value => value

/-- Whether every item can be kept. -/
def isKeepableItems : List Json → Bool
  | [] => true
  | item :: rest => item.isKeepable && isKeepableItems rest
termination_by structural items => items

/-- Whether every member can be kept. -/
def isKeepableMembers : List (String × Json) → Bool
  | [] => true
  | (_, value) :: rest => value.isKeepable && isKeepableMembers rest
termination_by structural members => members

end

end Json
end RouteTree
