/-!
# Hooks

A group of routes can replace eight default behaviours by handlers of its own.
Which of them it replaces is a set of eight flags, listed everywhere in the same
order.
-/

namespace RouteTree

/-- Which default behaviours are replaced. -/
structure Hooks where
  notFound : Bool := false
  redirect : Bool := false
  rewrite : Bool := false
  json : Bool := false
  params : Bool := false
  response : Bool := false
  error : Bool := false
  external : Bool := false
  deriving DecidableEq, Repr, Inhabited

namespace Hooks

/-- No default is replaced. -/
def none : Hooks := {}

/-- The names of the hooks, in their order. -/
def names : List String :=
  ["notFound", "redirect", "rewrite", "json", "params", "response", "error", "external"]

/-- The hooks whose names satisfy a test. -/
def ofNames (isSet : String → Bool) : Hooks where
  notFound := isSet "notFound"
  redirect := isSet "redirect"
  rewrite := isSet "rewrite"
  json := isSet "json"
  params := isSet "params"
  response := isSet "response"
  error := isSet "error"
  external := isSet "external"

/-- The hooks that a module's exports define; exports of any other name are not
hooks. -/
def ofExports (exports : List String) : Hooks :=
  ofNames exports.contains

/-- Every hook by name with its flag, in order. -/
def flags (hooks : Hooks) : List (String × Bool) :=
  names.zip [hooks.notFound, hooks.redirect, hooks.rewrite, hooks.json, hooks.params,
    hooks.response, hooks.error, hooks.external]

/-- The names of the hooks that are set, in order. -/
def enabled (hooks : Hooks) : List String :=
  (hooks.flags.filter (·.2)).map (·.1)

end Hooks
end RouteTree
