import RouteTree.Tree.Construction

/-!
# What a successful construction has built

`Page.toTree`, `Route.toTree` and `Node.toTree` stop at the first error.  The theorems
here take a construction that came through apart, once for each of them: which parts
came through before it, and how the tree is put together from their trees.  Everything
else that is said about constructed trees starts from these, so that no other proof opens
the construction again.
-/

namespace RouteTree

/-- Two steps of a construction come through when both do. -/
theorem bind_eq_ok_iff {ε α β : Type} {first : Except ε α} {next : α → Except ε β} {result : β} :
    (first >>= next) = .ok result ↔ ∃ value, first = .ok value ∧ next value = .ok result := by
  cases first <;> simp [bind, Except.bind]

theorem pure_eq_ok_iff {ε α : Type} {value result : α} :
    (pure value : Except ε α) = .ok result ↔ value = result := by
  simp [pure, Except.pure]

theorem exists_ok_of_isOk {ε α : Type} {result : Except ε α} (h : result.isOk = true) :
    ∃ value, result = .ok value := by
  cases result with
  | error error => cases h
  | ok value => exact ⟨value, rfl⟩

/-! ## Routes -/

/-- The tree of a page is its bindings in front of its action. -/
theorem Page.toTree_eq_ok_iff {page : Page} {scope : Scope} {tree : Tree} :
    page.toTree scope = .ok tree ↔
      ∃ bindings inner, scope.bind page.externalPath = .ok (bindings, inner) ∧
        tree = Binding.allBefore bindings page.action := by
  simp only [Page.toTree, bind_eq_ok_iff, pure_eq_ok_iff, Prod.exists, eq_comm (a := tree)]

/-- The two nodes that decide between continuations, one for each kind of forward. -/
inductive Forwards (segment : Page) (onward forward : Tree) : RouteKind → Tree → Prop
  | dynamic (name : String) : Forwards segment onward forward (.dynamicForward name)
      (.dynamicForward name segment.internalPath segment.location onward forward)
  | static : Forwards segment onward forward .staticForward
      (.staticForward segment.internalPath segment.location onward forward)

/-- The action of a route, below its bindings: what each kind makes of the trees of its
continuations. -/
inductive Route.ActsAs (scope : Scope) : Route → Tree → Prop
  /-- the page of the segment; the continuations are not looked at -/
  | next (segment : Page) (onward forward : Option Endpoint) :
      ActsAs scope ⟨segment, .next, onward, forward⟩ segment.action
  | middleware {segment : Page} {onward forward : Option Endpoint} {onwardTree : Tree}
      (honward : continuationTree scope onward = .ok onwardTree) :
      ActsAs scope ⟨segment, .middleware, onward, forward⟩
        (.middleware segment.internalPath segment.location onwardTree)
  | forward {segment : Page} {kind : RouteKind} {onward forward : Option Endpoint}
      {onwardTree forwardTree action : Tree}
      (honward : continuationTree scope onward = .ok onwardTree)
      (hforward : continuationTree scope forward = .ok forwardTree)
      (hforwards : Forwards segment onwardTree forwardTree kind action) :
      ActsAs scope ⟨segment, kind, onward, forward⟩ action

/-- The tree of a route is its bindings in front of its action. -/
theorem Route.exists_actsAs {route : Route} {scope : Scope} {tree : Tree}
    (h : route.toTree scope = .ok tree) :
    ∃ bindings inner action,
      scope.bind route.segment.externalPath = .ok (bindings, inner) ∧
        Route.ActsAs inner route action ∧ tree = Binding.allBefore bindings action := by
  obtain ⟨segment, kind, onward, forward⟩ := route
  rw [Route.toTree, bind_eq_ok_iff] at h
  obtain ⟨⟨bindings, inner⟩, hbind, h⟩ := h
  cases kind with
  | next =>
      obtain rfl := pure_eq_ok_iff.mp h
      exact ⟨bindings, inner, _, hbind, .next .., rfl⟩
  | middleware =>
      simp only [bind_eq_ok_iff, pure_eq_ok_iff] at h
      obtain ⟨onwardTree, honward, _, rfl, rfl⟩ := h
      exact ⟨bindings, inner, _, hbind, .middleware honward, rfl⟩
  | dynamicForward name =>
      simp only [bind_eq_ok_iff, pure_eq_ok_iff] at h
      obtain ⟨onwardTree, honward, forwardTree, hforward, _, rfl, rfl⟩ := h
      exact ⟨bindings, inner, _, hbind, .forward honward hforward (.dynamic name), rfl⟩
  | staticForward =>
      simp only [bind_eq_ok_iff, pure_eq_ok_iff] at h
      obtain ⟨onwardTree, honward, forwardTree, hforward, _, rfl, rfl⟩ := h
      exact ⟨bindings, inner, _, hbind, .forward honward hforward .static, rfl⟩

/-! ## Declarations are neither switches nor dead ends -/

namespace Tree

/-- A node that a selection ends at and that does lead somewhere. -/
def IsAnswer (tree : Tree) : Prop :=
  tree.isSwitch = false ∧ tree.isNotFound = false

theorem isAnswer_allBefore {action : Tree} (h : action.IsAnswer) (bindings : List Binding) :
    (Binding.allBefore bindings action).IsAnswer := by
  cases bindings with
  | nil => exact h
  | cons first rest => cases first <;> exact ⟨rfl, rfl⟩

end Tree

theorem Page.isAnswer_action (page : Page) : page.action.IsAnswer := by
  unfold Page.action Page.redirectAction
  split
  · exact ⟨rfl, rfl⟩
  · split
    · exact ⟨rfl, rfl⟩
    · dsimp only
      split <;> exact ⟨rfl, rfl⟩

theorem Route.ActsAs.isAnswer {scope : Scope} {route : Route} {action : Tree}
    (h : Route.ActsAs scope route action) : action.IsAnswer := by
  cases h with
  | next segment onward forward => exact segment.isAnswer_action
  | middleware honward => exact ⟨rfl, rfl⟩
  | forward honward hforward hforwards => cases hforwards <;> exact ⟨rfl, rfl⟩

/-- A declaration always leads somewhere. -/
theorem Slot.isAnswer_toTree {slot : Slot} {tree : Tree} (h : slot.toTree = .ok tree) :
    tree.IsAnswer := by
  cases slot with
  | reserved =>
      cases h
      exact ⟨rfl, rfl⟩
  | route declared =>
      obtain ⟨bindings, inner, action, _, haction, rfl⟩ := Route.exists_actsAs h
      exact Tree.isAnswer_allBefore haction.isAnswer bindings

/-! ## Nodes -/

/-- The tree of a declaration that may be missing: without one, a dead end. -/
def IsTreeOf (slot : Option Slot) (tree : Tree) : Prop :=
  match slot with
  | none => tree = .notFound
  | some slot => slot.toTree = .ok tree

theorem isTreeOf_none {tree : Tree} : IsTreeOf none tree ↔ tree = .notFound := Iff.rfl

theorem isTreeOf_some {slot : Slot} {tree : Tree} :
    IsTreeOf (some slot) tree ↔ slot.toTree = .ok tree := Iff.rfl

theorem IsTreeOf.unique {slot : Option Slot} {tree tree' : Tree} (h : IsTreeOf slot tree)
    (h' : IsTreeOf slot tree') : tree = tree' := by
  cases slot with
  | none => exact h.trans h'.symm
  | some slot => exact Except.ok.inj (h.symm.trans h')

/-- The tree of a catch-all that may be missing. -/
def lastResortTree (catchAll : Option Slot) : Except CompileError (Option Tree) :=
  match catchAll with
  | none => pure none
  | some slot => some <$> slot.toTree

theorem lastResortTree_cases {catchAll : Option Slot} {lastResort : Option Tree}
    (h : lastResortTree catchAll = .ok lastResort) :
    (catchAll = none ∧ lastResort = none) ∨
      ∃ slot branch, catchAll = some slot ∧ slot.toTree = .ok branch ∧
        lastResort = some branch := by
  cases catchAll with
  | none =>
      cases h
      exact Or.inl ⟨rfl, rfl⟩
  | some slot =>
      rw [lastResortTree] at h
      cases hslot : slot.toTree with
      | error error =>
          rw [hslot] at h
          cases h
      | ok branch =>
          rw [hslot] at h
          cases h
          exact Or.inr ⟨slot, branch, rfl, hslot, rfl⟩

theorem Node.toTree_of_override {node : Node} {slot : Slot} (h : node.override = some slot)
    (depth : Nat) : node.toTree depth = slot.toTree := by
  obtain ⟨exact, dynamic, catchAll, override, statics⟩ := node
  obtain rfl : override = some slot := h
  rw [Node.toTree]

/-- Without an override a node becomes a switch over the trees of its declarations and
children. -/
theorem Node.exists_switch {node : Node} {depth : Nat} {tree : Tree}
    (hroot : node.override = none) (h : node.toTree depth = .ok tree) :
    ∃ exact cases other lastResort,
      tree = .switch depth (("", exact) :: cases) other lastResort ∧
        IsTreeOf node.exact exact ∧
        staticTrees (depth + 1) node.statics = .ok cases ∧
        dynamicTree (depth + 1) node.dynamic = .ok other ∧
        lastResortTree node.catchAll = .ok lastResort := by
  obtain ⟨exact, dynamic, catchAll, override, statics⟩ := node
  obtain rfl : override = none := hroot
  obtain ⟨exactTree, hexact, h⟩ : ∃ exactTree, IsTreeOf exact exactTree ∧
      (staticTrees (depth + 1) statics >>= fun cases =>
        dynamicTree (depth + 1) dynamic >>= fun other =>
          lastResortTree catchAll >>= fun lastResort =>
            pure (.switch depth (("", exactTree) :: cases) other lastResort)) = .ok tree := by
    cases exact with
    | none => exact ⟨.notFound, rfl, by cases catchAll <;> exact h⟩
    | some slot =>
        obtain ⟨exactTree, hexact, h⟩ := bind_eq_ok_iff.mp h
        exact ⟨exactTree, hexact, by cases catchAll <;> exact h⟩
  simp only [bind_eq_ok_iff, pure_eq_ok_iff] at h
  obtain ⟨cases, hcases, other, hother, lastResort, hlast, rfl⟩ := h
  exact ⟨exactTree, cases, other, lastResort, rfl, hexact, hcases, hother, hlast⟩

/-- A node becomes what its override says, or else a switch. -/
theorem Node.toTree_cases {node : Node} {depth : Nat} {tree : Tree}
    (h : node.toTree depth = .ok tree) :
    (∃ slot, node.override = some slot ∧ slot.toTree = .ok tree) ∨
      ∃ exact cases other lastResort,
        tree = .switch depth (("", exact) :: cases) other lastResort ∧
          IsTreeOf node.exact exact ∧
          staticTrees (depth + 1) node.statics = .ok cases ∧
          dynamicTree (depth + 1) node.dynamic = .ok other ∧
          lastResortTree node.catchAll = .ok lastResort := by
  cases hroot : node.override with
  | none => exact Or.inr (exists_switch hroot h)
  | some slot =>
      rw [toTree_of_override hroot] at h
      exact Or.inl ⟨slot, rfl, h⟩

theorem staticTrees_cons_eq_ok {depth : Nat} {literal : String} {child : Node}
    {rest : List (String × Node)} {cases : List (String × Tree)}
    (h : staticTrees depth ((literal, child) :: rest) = .ok cases) :
    ∃ tree trees, child.toTree depth = .ok tree ∧ staticTrees depth rest = .ok trees ∧
      cases = (literal, tree) :: trees := by
  simp only [staticTrees, bind_eq_ok_iff, pure_eq_ok_iff] at h
  obtain ⟨tree, htree, trees, htrees, rfl⟩ := h
  exact ⟨tree, trees, htree, htrees, rfl⟩

end RouteTree
