/-!
# Decision trees

A compiled set of routes is a tree that is followed from the root for one request.
*Switches* look at one component of the request path and pick a branch; *bindings*
record a parameter; *actions* run a handler or ask for a decision; and the leaves
say how the request ends.

Nothing here keeps a tree in the shape that a compilation gives it: switches may
stand below actions, and labels may repeat.
-/

namespace RouteTree

/-- A decision tree. -/
inductive Tree where
  /-- picks a branch by the component at `index`: that of the first equal label, else
  `other`, else `lastResort` -/
  | switch (index : Nat) (cases : List (String × Tree)) (other : Tree)
      (lastResort : Option Tree)
  /-- binds a parameter to the component at `index` -/
  | dynamic (name : String) (index : Nat) (onward : Tree)
  /-- binds a parameter to the components from `index` on -/
  | catchAll (name : String) (index : Nat) (onward : Tree)
  /-- runs a handler and goes on -/
  | middleware (internalPath : String) (location : Option String) (onward : Tree)
  /-- asks a named handler which way to go on -/
  | dynamicForward (name internalPath : String) (location : Option String)
      (onward forward : Tree)
  /-- asks a handler which way to go on -/
  | staticForward (internalPath : String) (location : Option String) (onward forward : Tree)
  /-- ends in a rewrite, or goes on where the rewrite is refused -/
  | rewrite (location : Option String) (internalPath : String) (fallback : Option Tree)
  /-- ends in a redirect, or goes on where the redirect is refused -/
  | redirect (location : Option String) (internalPath : String) (fallback : Option Tree)
  /-- ends outside the application -/
  | external
  /-- ends at a page -/
  | next (internalPath externalPath : String)
  /-- ends without an answer -/
  | notFound
  /-- ends at something that is not a route -/
  | skip
  deriving Inhabited

namespace Tree

/-- The branches right below a node, in the order in which they are written. -/
def children : Tree → List Tree
  | .switch _ cases other lastResort => cases.map (·.2) ++ other :: lastResort.toList
  | .dynamic _ _ onward => [onward]
  | .catchAll _ _ onward => [onward]
  | .middleware _ _ onward => [onward]
  | .dynamicForward _ _ _ onward forward => [onward, forward]
  | .staticForward _ _ onward forward => [onward, forward]
  | .rewrite _ _ fallback => fallback.toList
  | .redirect _ _ fallback => fallback.toList
  | .external | .next .. | .notFound | .skip => []

/-- Whether the node is a switch. -/
def isSwitch : Tree → Bool
  | .switch .. => true
  | _ => false

/-- Whether the node ends a request without an answer. -/
def isNotFound : Tree → Bool
  | .notFound => true
  | _ => false

/-- The word for the sort of node. -/
def sort : Tree → String
  | .switch .. => "SWITCH"
  | .dynamic .. => "DYNAMIC"
  | .catchAll .. => "CATCH_ALL"
  | .middleware .. => "MIDDLEWARE"
  | .dynamicForward .. => "DYNAMIC_FORWARD"
  | .staticForward .. => "STATIC_FORWARD"
  | .rewrite .. => "REWRITE"
  | .redirect .. => "REDIRECT"
  | .external => "EXTERNAL"
  | .next .. => "NEXT"
  | .notFound => "NOT_FOUND"
  | .skip => "SKIP"

/-! ## The number of nodes -/

mutual

/-- How many nodes the tree has. -/
def size : Tree → Nat
  | .switch _ cases other lastResort =>
    1 + (sizeCases cases + (other.size + sizeOption lastResort))
  | .dynamic _ _ onward => 1 + onward.size
  | .catchAll _ _ onward => 1 + onward.size
  | .middleware _ _ onward => 1 + onward.size
  | .dynamicForward _ _ _ onward forward => 1 + (onward.size + forward.size)
  | .staticForward _ _ onward forward => 1 + (onward.size + forward.size)
  | .rewrite _ _ fallback => 1 + sizeOption fallback
  | .redirect _ _ fallback => 1 + sizeOption fallback
  | .external | .next .. | .notFound | .skip => 1
termination_by structural tree => tree

/-- How many nodes the branches of a switch have together. -/
def sizeCases : List (String × Tree) → Nat
  | [] => 0
  | (_, branch) :: rest => branch.size + sizeCases rest
termination_by structural cases => cases

/-- How many nodes a branch has that may be missing. -/
def sizeOption : Option Tree → Nat
  | none => 0
  | some branch => branch.size
termination_by structural branch => branch

end

/-- Every tree has a node. -/
theorem size_pos (tree : Tree) : 0 < tree.size := by
  cases tree <;> simp only [size] <;> omega

theorem foldr_add_cases (cases : List (String × Tree)) (start : Nat) :
    (cases.map (·.2.size)).foldr (· + ·) start = sizeCases cases + start := by
  induction cases with
  | nil => simp [sizeCases]
  | cons first rest ih =>
      rw [List.map_cons, List.foldr_cons, ih, sizeCases, Nat.add_assoc]

theorem foldr_add_toList (branch : Option Tree) :
    (branch.toList.map size).foldr (· + ·) 0 = sizeOption branch := by
  cases branch <;> simp [sizeOption]

/-- A tree has one node more than the branches below its root. -/
theorem size_eq_children (tree : Tree) :
    tree.size = 1 + (tree.children.map size).foldr (· + ·) 0 := by
  cases tree with
  | switch index cases other lastResort =>
      have hcases : (cases.map (·.2)).map size = cases.map (·.2.size) := List.map_map
      rw [children, List.map_append, List.foldr_append, hcases, foldr_add_cases, List.map_cons,
        List.foldr_cons, foldr_add_toList, size]
  | rewrite location path fallback => rw [children, foldr_add_toList, size]
  | redirect location path fallback => rw [children, foldr_add_toList, size]
  | _ => simp [children, size]

/-- A branch is smaller than the tree. -/
theorem size_lt_of_mem_children {tree child : Tree} (h : child ∈ tree.children) :
    child.size < tree.size := by
  have hle : ∀ branches : List Tree, child ∈ branches →
      child.size ≤ (branches.map size).foldr (· + ·) 0 := by
    intro branches hmem
    induction branches with
    | nil => cases hmem
    | cons first rest ih =>
        rw [List.map_cons, List.foldr_cons]
        rcases List.mem_cons.mp hmem with rfl | hrest
        · exact Nat.le_add_right ..
        · exact Nat.le_trans (ih hrest) (Nat.le_add_left ..)
  have := hle tree.children h
  rw [tree.size_eq_children]
  omega

end Tree
end RouteTree
