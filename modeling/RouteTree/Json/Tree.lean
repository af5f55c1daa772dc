import RouteTree.Json.Printer
import RouteTree.Json.Route

/-!
# Decision trees written in JSON

A node is an object tagged with the word for its sort.  A location, a fallback or a
last resort that is missing is left out.  `Tree.toJson` writes a tree and
`Tree.ofJson?` reads what was written.

A compiled group is written as an *artifact*: its tree and its hooks, in a compact or
an indented text.
-/

namespace RouteTree

namespace Tree

/-! ## Writing -/

/-- The object of a node: its sort, then the members that are present. -/
def tagged (sort : String) (members : List (String × Option Json)) : Json :=
  Json.ofMembers (("type", some (.str sort)) :: members)

mutual

/-- The tree as a JSON value. -/
def toJson : Tree → Json
  | .switch index cases other lastResort =>
    tagged "SWITCH" [("index", some (.nat index)), ("cases", some (.arr (casesToJson cases))),
      ("defaultCase", some other.toJson), ("catchAll", optionToJson lastResort)]
  | .dynamic name index onward =>
    tagged "DYNAMIC" [("name", some (.str name)), ("index", some (.nat index)),
      ("then", some onward.toJson)]
  | .catchAll name index onward =>
    tagged "CATCH_ALL" [("name", some (.str name)), ("index", some (.nat index)),
      ("then", some onward.toJson)]
  | .middleware path location onward =>
    tagged "MIDDLEWARE" [("internalPath", some (.str path)), ("location", location.map .str),
      ("then", some onward.toJson)]
  | .dynamicForward name path location onward forward =>
    tagged "DYNAMIC_FORWARD" [("name", some (.str name)), ("internalPath", some (.str path)),
      ("location", location.map .str), ("then", some onward.toJson),
      ("forward", some forward.toJson)]
  | .staticForward path location onward forward =>
    tagged "STATIC_FORWARD" [("internalPath", some (.str path)),
      ("location", location.map .str), ("then", some onward.toJson),
      ("forward", some forward.toJson)]
  | .rewrite location path fallback =>
    tagged "REWRITE" [("location", location.map .str), ("internalPath", some (.str path)),
      ("fallback", optionToJson fallback)]
  | .redirect location path fallback =>
    tagged "REDIRECT" [("location", location.map .str), ("internalPath", some (.str path)),
      ("fallback", optionToJson fallback)]
  | .external => tagged "EXTERNAL" []
  | .next internalPath externalPath =>
    tagged "NEXT" [("internalPath", some (.str internalPath)),
      ("externalPath", some (.str externalPath))]
  | .notFound => tagged "NOT_FOUND" []
  | .skip => tagged "SKIP" []
termination_by structural tree => tree

/-- The branches of a switch, each with its label. -/
def casesToJson : List (String × Tree) → List Json
  | [] => []
  | (label, branch) :: rest =>
    .obj [("match", .str label), ("then", branch.toJson)] :: casesToJson rest
termination_by structural cases => cases

/-- A branch that may be missing. -/
def optionToJson : Option Tree → Option Json
  | none => none
  | some branch => some branch.toJson
termination_by structural branch => branch

end

/-! ## Reading -/

/-- The members of a node with their values read in every way that a node may need. -/
structure Parts where
  /-- the members as they stand -/
  plain : List (String × Json)
  /-- the members that are trees -/
  trees : List (String × Option Tree)
  /-- the members that are the branches of a switch -/
  cases : List (String × Option (List (String × Tree)))

namespace Parts

/-- The word that the node is tagged with. -/
def sort? (parts : Parts) : Option String :=
  (parts.plain.lookup "type").bind Json.str?

/-- A text. -/
def text? (parts : Parts) (name : String) : Option String :=
  (parts.plain.lookup name).bind Json.str?

/-- A position of the request path. -/
def index? (parts : Parts) : Option Nat :=
  (parts.plain.lookup "index").bind Json.nat?

/-- The location, which may be missing. -/
def location? (parts : Parts) : Option (Option String) :=
  Json.withDefault none (fun value : Json => value.str?.map some) (parts.plain.lookup "location")

/-- A branch. -/
def tree? (parts : Parts) (name : String) : Option Tree :=
  (parts.trees.lookup name).bind id

/-- A branch that may be missing. -/
def treeOption? (parts : Parts) (name : String) : Option (Option Tree) :=
  Json.withDefault none (fun branch : Option Tree => branch.map some) (parts.trees.lookup name)

/-- The branches of a switch. -/
def cases? (parts : Parts) : Option (List (String × Tree)) :=
  (parts.cases.lookup "cases").bind id

/-- The node that the parts make up. -/
def toTree? (parts : Parts) : Option Tree := do
  match ← parts.sort? with
  | "SWITCH" =>
    return .switch (← parts.index?) (← parts.cases?) (← parts.tree? "defaultCase")
      (← parts.treeOption? "catchAll")
  | "DYNAMIC" => return .dynamic (← parts.text? "name") (← parts.index?) (← parts.tree? "then")
  | "CATCH_ALL" =>
    return .catchAll (← parts.text? "name") (← parts.index?) (← parts.tree? "then")
  | "MIDDLEWARE" =>
    return .middleware (← parts.text? "internalPath") (← parts.location?)
      (← parts.tree? "then")
  | "DYNAMIC_FORWARD" =>
    return .dynamicForward (← parts.text? "name") (← parts.text? "internalPath")
      (← parts.location?) (← parts.tree? "then") (← parts.tree? "forward")
  | "STATIC_FORWARD" =>
    return .staticForward (← parts.text? "internalPath") (← parts.location?)
      (← parts.tree? "then") (← parts.tree? "forward")
  | "REWRITE" =>
    return .rewrite (← parts.location?) (← parts.text? "internalPath")
      (← parts.treeOption? "fallback")
  | "REDIRECT" =>
    return .redirect (← parts.location?) (← parts.text? "internalPath")
      (← parts.treeOption? "fallback")
  | "EXTERNAL" => return .external
  | "NEXT" => return .next (← parts.text? "internalPath") (← parts.text? "externalPath")
  | "NOT_FOUND" => return .notFound
  | "SKIP" => return .skip
  | _ => none

end Parts

mutual

/-- Reads a tree. -/
def ofJson? : Json → Option Tree
  | .obj members => Parts.toTree? ⟨members, treesOf members, caseListsOf members⟩
  | _ => none
termination_by structural value => value

/-- The members of an object, read as trees. -/
def treesOf : List (String × Json) → List (String × Option Tree)
  | [] => []
  | (name, value) :: rest => (name, ofJson? value) :: treesOf rest
termination_by structural members => members

/-- The members of an object, read as the branches of a switch. -/
def caseListsOf : List (String × Json) → List (String × Option (List (String × Tree)))
  | [] => []
  | (name, value) :: rest =>
    (name, match value with
      | .arr items => casesOf? items
      | _ => none) :: caseListsOf rest
termination_by structural members => members

/-- Reads the branches of a switch. -/
def casesOf? : List Json → Option (List (String × Tree))
  | [] => some []
  | .obj members :: rest => do
    let label ← (members.lookup "match").bind Json.str?
    let branch ← ((treesOf members).lookup "then").bind id
    return (label, branch) :: (← casesOf? rest)
  | _ :: _ => none
termination_by structural items => items

end

end Tree

/-! ## Artifacts -/

namespace Compiled

/-- What is written of a compiled group: its tree and its hooks. -/
def toJson (compiled : Compiled) : Json :=
  .obj [("tree", compiled.tree.toJson), ("hooks", compiled.hooks.toJson)]

/-- The text of the artifact. -/
def artifact (pretty : Bool) (compiled : Compiled) : String :=
  if pretty then compiled.toJson.indented else compiled.toJson.compact

end Compiled
end RouteTree
