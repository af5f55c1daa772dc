import RouteTree.Proofs.Search
import RouteTree.Proofs.Lowering

/-!
# A compiled tree answers like the flat table

The switches of a compiled tree and the search of a table take the same decisions:
`isTreeOf_select` shows, along the components of the request, that the node selected
from the tree of a registry node is the tree of what the search finds in the node's
table.  No invariant of the registry is needed for this.  Labels that repeat, or empty
nodes that a failed write has left behind, change neither side.

With `find?_ofDeclarations` the nodes disappear from the statement, and with
`search?_eq_some_iff` the search does: `evaluate_eq_best` speaks of the declarations of
a group, and of the one that answers a request.
-/

namespace RouteTree

/-! ## Trees of declarations under selection -/

theorem Tree.select_eq_self {tree : Tree} (h : tree.isSwitch = false)
    (request : List String) : tree.select request = tree := by
  cases tree with
  | switch index cases other lastResort => cases h
  | _ => rfl

theorem IsTreeOf.isNotFound_eq {slot : Option Slot} {tree : Tree} (h : IsTreeOf slot tree) :
    tree.isNotFound = slot.isNone := by
  cases slot with
  | none =>
      obtain rfl : tree = .notFound := h
      rfl
  | some slot => exact (Slot.isAnswer_toTree h).2

/-- The tree of a declaration is selected as it is. -/
theorem IsTreeOf.select {slot : Option Slot} {tree : Tree} (h : IsTreeOf slot tree)
    (request : List String) : IsTreeOf slot (tree.select request) := by
  cases slot with
  | none =>
      obtain rfl : tree = .notFound := h
      rfl
  | some slot =>
      rw [Tree.select_eq_self (Slot.isAnswer_toTree h).1]
      exact h

/-- Going on where a branch leads nowhere picks the first declaration there is. -/
theorem IsTreeOf.or {first second : Option Slot} {firstTree secondTree : Tree}
    (hfirst : IsTreeOf first firstTree) (hsecond : IsTreeOf second secondTree) :
    IsTreeOf (first.or second)
      (if firstTree.isNotFound then secondTree else firstTree) := by
  rw [hfirst.isNotFound_eq]
  cases first with
  | none => simpa using hsecond
  | some slot => simpa using hfirst

theorem isTreeOf_selectOption {catchAll : Option Slot} {lastResort : Option Tree}
    (h : lastResortTree catchAll = .ok lastResort) (request : List String) :
    IsTreeOf catchAll (Tree.selectOption request lastResort) := by
  rcases lastResortTree_cases h with ⟨rfl, rfl⟩ | ⟨slot, branch, rfl, hslot, rfl⟩
  · rfl
  · exact (isTreeOf_some.mpr hslot).select request

/-! ## The table of a child -/

/-- The table of a node that may be missing. -/
def childTable (child : Option Node) : Table := fun address => child.bind (·.find? address)

@[simp] theorem childTable_none : childTable none = fun _ => none := rfl

@[simp] theorem childTable_some (child : Node) : childTable (some child) = child.find? := rfl

@[simp] theorem below_find? (node : Node) (step : Step) :
    Table.below node.find? step = childTable (node.child? step) := by
  funext address
  obtain ⟨steps, place⟩ := address
  exact Node.find?_cons node step steps place

/-! ## Selection follows the search -/

/-- Selecting below some children, given that it follows the search in each of them. -/
theorem isTreeOf_selectCase {request rest : List String} {depth : Nat}
    (hchild : ∀ (child : Node) (tree : Tree), child.toTree depth = .ok tree →
      IsTreeOf (Table.answer? rest child.find?) (tree.select request))
    (label : String) {children : List (String × Node)} {cases : List (String × Tree)}
    (h : staticTrees depth children = .ok cases) :
    IsTreeOf (Table.answer? rest (childTable (children.lookup label)))
      (Tree.selectCase request label cases) := by
  induction children generalizing cases with
  | nil =>
      cases h
      simp [Tree.selectCase, IsTreeOf]
  | cons first children ih =>
      obtain ⟨literal, child⟩ := first
      obtain ⟨tree, trees, htree, htrees, rfl⟩ := staticTrees_cons_eq_ok h
      rw [lookup_cons_pair]
      by_cases hlabel : label = literal
      · simpa [Tree.selectCase, hlabel] using hchild child tree htree
      · have hother : ¬ literal = label := fun h => hlabel h.symm
        simpa [Tree.selectCase, hlabel, hother] using ih htrees

theorem isTreeOf_dynamicTree {request rest : List String} {depth : Nat}
    (hchild : ∀ (child : Node) (tree : Tree), child.toTree depth = .ok tree →
      IsTreeOf (Table.answer? rest child.find?) (tree.select request))
    {child : Option Node} {other : Tree} (h : dynamicTree depth child = .ok other) :
    IsTreeOf (Table.answer? rest (childTable child)) (other.select request) := by
  cases child with
  | none =>
      cases h
      simp [IsTreeOf, Tree.select]
  | some child => exact hchild child other h

theorem isTreeOf_select_of_override {depth : Nat} {node : Node} {slot : Slot} {tree : Tree}
    (hroot : node.override = some slot) (h : node.toTree depth = .ok tree)
    (request rest : List String) :
    IsTreeOf (Table.answer? rest node.find?) (tree.select request) := by
  have hheld : node.find? ⟨[], .override⟩ = some slot := hroot
  rw [Table.answer?_of_override (by simp [hheld]), hheld]
  rw [Node.toTree_of_override hroot] at h
  exact (isTreeOf_some.mpr h).select request

/-- The node selected from the tree of a registry node is the tree of what the search
finds in the node's table. -/
theorem isTreeOf_select (request : List String) {depth : Nat} {node : Node} {tree : Tree}
    (h : node.toTree depth = .ok tree) :
    IsTreeOf (Table.answer? (request.drop depth) node.find?) (tree.select request) := by
  generalize hrest : request.drop depth = rest
  induction rest generalizing depth node tree with
  | nil =>
      cases hroot : node.override with
      | some slot =>
          exact isTreeOf_select_of_override hroot h request _
      | none =>
          obtain ⟨exact, cases, other, lastResort, rfl, hexact, -⟩ := Node.exists_switch hroot h
          have hend : request[depth]? = none := by
            simpa [List.drop_eq_nil_iff] using hrest
          rw [Table.answer?_nil (by simpa [Node.slot?] using hroot), Node.find?_nil]
          simpa [Tree.select, Tree.selectCase, hend, Node.slot?] using hexact.select request
  | cons component rest ih =>
      cases hroot : node.override with
      | some slot =>
          exact isTreeOf_select_of_override hroot h request _
      | none =>
          obtain ⟨exact, cases, other, lastResort, rfl, -, hcases, hother, hlast⟩ :=
            Node.exists_switch hroot h
          have htable : node.find? ⟨[], .override⟩ = none := by simpa [Node.slot?] using hroot
          obtain ⟨hhere, hnext⟩ := of_drop_eq_cons hrest
          by_cases hne : component = ""
          · subst hne
            rw [Table.answer?_empty_cons htable]
            simp [Tree.select, hhere, IsTreeOf]
          · have hchild : ∀ (child : Node) (tree : Tree), child.toTree (depth + 1) = .ok tree →
                IsTreeOf (Table.answer? rest child.find?) (tree.select request) :=
              fun child tree htree => ih htree hnext
            -- the label for the end of the path is passed over: no component is empty here
            have hskip : ¬ "" = component := fun h => hne h.symm
            rw [Table.answer?_cons htable hne, below_find?, below_find?]
            simp only [Tree.select, hhere, hne, if_false, Tree.selectCase, hskip]
            exact (isTreeOf_selectCase hchild component hcases).or
              ((isTreeOf_dynamicTree hchild hother).or (isTreeOf_selectOption hlast request))

/-! ## Compiled groups -/

/-- What a group declares at each address. -/
def RouteGroup.table (group : RouteGroup) : Table :=
  Table.ofDeclarations group.declarations

theorem RouteGroup.compile_eq_ok_iff {group : RouteGroup} {compiled : Compiled} :
    group.compile = .ok compiled ↔
      ∃ registry tree, Registry.ofDeclarations group.declarations = .ok registry ∧
        registry.toTree = .ok tree ∧ ⟨tree, group.hooks, registry.warnings⟩ = compiled := by
  simp only [RouteGroup.compile, bind_eq_ok_iff, pure_eq_ok_iff, exists_and_left]

theorem RouteGroup.accepted_of_compile {group : RouteGroup} {compiled : Compiled}
    (hcompile : group.compile = .ok compiled) :
    ∀ declaration ∈ group.declarations,
      ∃ place, (Walk.ofKey declaration.1).ending = .ok place := by
  obtain ⟨registry, tree, hregistry, -⟩ := RouteGroup.compile_eq_ok_iff.mp hcompile
  exact Registry.accepted_of_writeAll (Registry.writeAll_of_ofDeclarations hregistry)

/-- A route in the table is one of the group's entries. -/
theorem RouteGroup.exists_entry {group : RouteGroup} {address : Address} {declared : Route}
    (h : group.table address = some (.route declared)) :
    ∃ entry ∈ group.routes, Address.ofKey entry.1 = address ∧ entry.2.toRoute = declared := by
  obtain ⟨key, hmem, hkey⟩ := Table.exists_mem_of_ofDeclarations h
  rcases List.mem_append.mp hmem with hroute | hreserved
  · obtain ⟨entry, hentry, hslot⟩ := List.mem_map.mp hroute
    cases hslot
    exact ⟨entry, hentry, hkey, rfl⟩
  · obtain ⟨reserved, -, hslot⟩ := List.mem_map.mp hreserved
    cases hslot

/-- The node that a request selects from a compiled group is the tree of what the
search finds among its declarations. -/
theorem RouteGroup.isTreeOf_select {group : RouteGroup} {compiled : Compiled}
    (hcompile : group.compile = .ok compiled) (request : List String) :
    IsTreeOf (Table.answer? request group.table) (compiled.tree.select request) := by
  obtain ⟨registry, tree, hregistry, htree, rfl⟩ := RouteGroup.compile_eq_ok_iff.mp hcompile
  have h := RouteTree.isTreeOf_select request htree
  rwa [Registry.find?_ofDeclarations hregistry] at h

/-- Only the selected node matters to an evaluation. -/
theorem Tree.evaluate_select {σ : Type} (tree : Tree) (path : String) (runtime : Runtime σ)
    (state : σ) :
    (tree.select (components path)).evaluate path runtime state =
      tree.evaluate path runtime state := by
  simp only [Tree.evaluate, Tree.run_select]

/-- **Compiled routing is best-match routing over the declared keys.**  The best of the
live declarations that match a request answers it: outcome, parameters, handlers and
everything that the runtime is asked are those of its own tree.  There is a best one as
soon as there is any, and only one; without any, the request ends without an answer and
nothing is asked. -/
theorem RouteGroup.evaluate_eq_best {group : RouteGroup} {compiled : Compiled}
    (hcompile : group.compile = .ok compiled) (path : String) {σ : Type} (runtime : Runtime σ)
    (state : σ) :
    (∀ address slot, group.table.IsBest (components path) address →
      group.table address = some slot →
        ∃ tree, slot.toTree = .ok tree ∧
          compiled.tree.evaluate path runtime state = tree.evaluate path runtime state) ∧
    ((∃ address, group.table.Candidate (components path) address) →
      ∃ address, group.table.IsBest (components path) address ∧
        ∀ other, group.table.IsBest (components path) other → other = address) ∧
    ((∀ address, ¬ group.table.Candidate (components path) address) →
      compiled.tree.evaluate path runtime state = (⟨.notFound, .empty, []⟩, state)) := by
  have hselect := RouteGroup.isTreeOf_select hcompile (components path)
  refine ⟨?_, ?_, ?_⟩
  · intro address slot hbest hslot
    rw [Table.answer?_eq_some hbest, hslot] at hselect
    exact ⟨_, hselect, (Tree.evaluate_select ..).symm⟩
  · rintro ⟨candidate, hcandidate⟩
    cases hsearch : Table.search? (components path) group.table with
    | none => exact absurd hcandidate (Table.not_candidate_of_search? hsearch candidate)
    | some address =>
        have hbest := Table.search?_isBest hsearch
        exact ⟨address, hbest, fun other hother => hother.unique hbest⟩
  · intro hnone
    rw [Table.answer?_eq_none_iff.mpr hnone] at hselect
    have hnotFound : compiled.tree.select (components path) = .notFound := hselect
    rw [← Tree.evaluate_select, hnotFound]
    simp [Tree.evaluate, Tree.run]

/-- A group in which a literal, a parameter and a catch-all share a node, with a
declaration that is replaced and a reservation below the parameter. -/
def RouteGroup.users : RouteGroup where
  routes := [("/users/new/", .page (.plain "/users/new/" "users/new")),
    ("/users/:id/", .page (.plain "/users/:id/" "users/[id]")),
    ("/users/new/", .page (.plain "/users/new/" "users/create")),
    ("/users/*rest/", .page (.plain "/users/*rest/" "users/[...rest]"))]
  reserved := ["/users/:/edit/"]

/-- The literal and the parameter lead nowhere for `/users/new/x`, which falls back to
the catch-all two nodes above. -/
theorem RouteGroup.evaluate_eq_best_users :
    ∃ compiled slot tree, RouteGroup.users.compile = .ok compiled ∧
      RouteGroup.users.table.IsBest (components "/users/new/x")
        ⟨[.literal "users"], .catchAll⟩ ∧
      RouteGroup.users.table ⟨[.literal "users"], .catchAll⟩ = some slot ∧
      slot.toTree = .ok tree ∧
      compiled.tree.evaluate "/users/new/x" .passthrough () =
        tree.evaluate "/users/new/x" .passthrough () := by
  obtain ⟨compiled, hcompile⟩ :=
    exists_ok_of_isOk (show RouteGroup.users.compile.isOk = true by decide +kernel)
  have hbest : RouteGroup.users.table.IsBest (components "/users/new/x")
      ⟨[.literal "users"], .catchAll⟩ :=
    Table.search?_isBest (by decide +kernel)
  obtain ⟨slot, hslot⟩ := Option.ne_none_iff_exists'.mp hbest.candidate.live.declared
  obtain ⟨tree, htree, heval⟩ :=
    (RouteGroup.evaluate_eq_best hcompile "/users/new/x" .passthrough ()).1 _ slot hbest hslot
  exact ⟨compiled, slot, tree, hcompile, hbest, hslot, htree, heval⟩

end RouteTree
