import RouteTree.Proofs.PageLowering

/-!
# What is bound on the ways down a tree

On a way down the tree of a route, bindings and actions alternate.  A `Descent` is such a
way with what each of its nodes stands for: bindings and the actions of a page stand for the
endpoint that they are constructed from, and below a handler stand the continuations of its
route.

Along every descent the bindings are `Consistent`, and where a node acts for an endpoint, the
bindings above it cover what the pattern of that endpoint mentions
(`Route.consistent_lineage`).  The scope of a construction holds the bindings above it
(`Scope.Binds`), and neither a segment (`Scope.Binds.extend_made`) nor a whole pattern
(`Scope.Binds.bind_made`) spoils that or their consistency.  `Grounded` says so of every node
at once, with the bindings above it in hand: a route gives a grounded tree, since both
continuations start from the same scope, and one step of a descent stays grounded
(`Grounded.step`).
-/

namespace RouteTree

/-! ## Bindings on one way -/

/-- Bindings that agree: one catch-all at most, a name is bound to one component once, and
no name stands for two positions. -/
structure Consistent (bindings : List Binding) : Prop where
  catchAll : (bindings.filter Binding.isCatchAll).length ≤ 1
  dynamic : ((bindings.filter (!·.isCatchAll)).map Binding.name).Nodup
  single : ∀ binding ∈ bindings, ∀ other ∈ bindings, binding.name = other.name →
    binding.index = other.index

/-- The bindings have what a pattern mentions: each dynamic name at its position, and a
catch-all if the pattern has one. -/
structure Covers (bindings : List Binding) (pattern : String) : Prop where
  dynamic : ∀ name index, (segments pattern)[index]? = some (.dynamic name) →
    ∃ binding ∈ bindings, binding.name = name ∧ binding.index = index
  catchAll : ∀ name, .catchAll name ∈ segments pattern →
    ∃ binding ∈ bindings, binding.isCatchAll = true

theorem Consistent.nil : Consistent [] :=
  ⟨by simp, by simp, by simp⟩

theorem Consistent.of_append {first second : List Binding} (h : Consistent (first ++ second)) :
    Consistent first := by
  obtain ⟨hcatchAll, hdynamic, hsingle⟩ := h
  simp only [List.filter_append, List.length_append, List.map_append] at hcatchAll hdynamic
  refine ⟨by omega, (List.nodup_append.mp hdynamic).1, ?_⟩
  intro binding hbinding other hother
  exact hsingle binding (List.mem_append_left _ hbinding) other (List.mem_append_left _ hother)

/-- A binding agrees with others if it is the first catch-all or a dynamic binding of a new
name, and its name stands for no other position. -/
theorem Consistent.concat {bound : List Binding} {binding : Binding} (h : Consistent bound)
    (hcatchAll : binding.isCatchAll = true → bound.any Binding.isCatchAll = false)
    (hdynamic : binding.isCatchAll = false → binding.name ∉ bound.map Binding.name)
    (hsingle : ∀ other ∈ bound, other.name = binding.name → other.index = binding.index) :
    Consistent (bound ++ [binding]) := by
  refine ⟨?_, ?_, ?_⟩
  · cases hkind : binding.isCatchAll with
    | true =>
        have hnone : bound.filter Binding.isCatchAll = [] :=
          List.filter_eq_nil_iff.mpr (by simpa using hcatchAll hkind)
        simp [hnone, hkind]
    | false => simpa [hkind] using h.catchAll
  · cases hkind : binding.isCatchAll with
    | true => simpa [hkind] using h.dynamic
    | false =>
        simp only [List.filter_append, List.filter_cons, hkind, Bool.not_false, if_pos,
          List.filter_nil, List.map_append, List.map_cons, List.map_nil]
        refine List.nodup_append.mpr ⟨h.dynamic, List.nodup_singleton _, ?_⟩
        intro name hname other hother heq
        obtain rfl := List.mem_singleton.mp hother
        obtain ⟨first, hfirst, rfl⟩ := List.mem_map.mp hname
        exact hdynamic hkind (heq ▸ List.mem_map_of_mem (List.mem_of_mem_filter hfirst))
  · intro first hfirst second hsecond hname
    rw [List.mem_append, List.mem_singleton] at hfirst hsecond
    rcases hfirst with hfirst | rfl <;> rcases hsecond with hsecond | rfl
    · exact h.single first hfirst second hsecond hname
    · exact hsingle first hfirst hname
    · exact (hsingle second hsecond hname.symm).symm
    · rfl

section Extend

variable {scope inner : Scope} {bound bindings : List Binding} {pattern : String} {index : Nat}

/-- A binding that is made is the first catch-all, or a dynamic one with a new name. -/
theorem Scope.new_of_bindingOf {segment : Segment} {binding : Binding}
    (h : scope.bindingOf pattern index segment = .ok (some binding)) :
    (binding.isCatchAll = true → scope.hasCatchAll = false) ∧
      (binding.isCatchAll = false → scope.index? binding.name = none) := by
  cases segment with
  | literal text => cases h
  | dynamic name =>
      obtain ⟨-, ⟨hnew, heq⟩ | ⟨-, heq⟩⟩ := bindingOf_dynamic_eq_ok_iff.mp h <;> cases heq
      exact ⟨nofun, fun _ => hnew⟩
  | catchAll name =>
      obtain ⟨-, heq⟩ | ⟨hnone, -, -, heq⟩ := bindingOf_catchAll_eq_ok_iff.mp h <;> cases heq
      exact ⟨fun _ => hnone, nofun⟩

theorem Scope.Binds.index?_of_mem (h : scope.Binds bound) {binding : Binding}
    (hbinding : binding ∈ bound) : scope.index? binding.name = some binding.index :=
  (h.index _ _).mpr ⟨binding, hbinding, rfl, rfl⟩

/-- What a segment adds to consistent bindings agrees with them, and the scope holds it. -/
theorem Scope.Binds.extend_made (h : scope.Binds bound) (hconsistent : Consistent bound)
    {segment : Segment} {found : Option Binding}
    (hfound : scope.bindingOf pattern index segment = .ok found) :
    (scope.extend found).Binds (bound ++ found.toList) ∧ Consistent (bound ++ found.toList) := by
  cases found with
  | none => simpa using ⟨h, hconsistent⟩
  | some binding =>
      have hallows := allows_of_bindingOf hfound
      obtain ⟨hcatchAll, hdynamic⟩ := new_of_bindingOf hfound
      refine ⟨h.add binding hallows, hconsistent.concat ?_ ?_ ?_⟩
      · intro hkind
        rw [← h.catchAll, hcatchAll hkind]
      · intro hkind hmem
        obtain ⟨other, hother, hname⟩ := List.mem_map.mp hmem
        have hbound := h.index?_of_mem hother
        rw [hname, hdynamic hkind] at hbound
        cases hbound
      · intro other hother hname
        have hbound := h.index?_of_mem hother
        rw [hname] at hbound
        rcases hallows with hnew | hindex
        · rw [hnew] at hbound
          cases hbound
        · rw [hindex] at hbound
          exact (Option.some.inj hbound).symm

theorem Scope.Binds.bindFrom_made (h : scope.Binds bound) (hconsistent : Consistent bound)
    {rest : List Segment} (hbind : Scope.bindFrom pattern scope index rest = .ok (bindings, inner)) :
    inner.Binds (bound ++ bindings) ∧ Consistent (bound ++ bindings) := by
  induction rest generalizing scope index bound bindings with
  | nil =>
      cases hbind
      rw [List.append_nil]
      exact ⟨h, hconsistent⟩
  | cons segment rest ih =>
      obtain ⟨found, more, hfound, hmore, rfl⟩ := bindFrom_cons_eq_ok_iff.mp hbind
      obtain ⟨hextend, hconsistent⟩ := h.extend_made hconsistent hfound
      rw [← List.append_assoc]
      exact ih hextend hconsistent hmore

theorem mem_parameters_of_dynamic {name : String}
    (h : (segments pattern)[index]? = some (.dynamic name)) :
    .dynamic name index ∈ parameters pattern :=
  mem_parameters.mpr ⟨.dynamic name, h, rfl⟩

theorem any_parameters_of_catchAll {name : String} (h : .catchAll name ∈ segments pattern) :
    (parameters pattern).any Binding.isCatchAll = true := by
  obtain ⟨index, hindex⟩ := List.mem_iff_getElem?.mp h
  have hmem : .catchAll name index ∈ parameters pattern :=
    mem_parameters.mpr ⟨.catchAll name, hindex, rfl⟩
  exact List.any_eq_true.mpr ⟨_, hmem, rfl⟩

/-- After a pattern the bindings that were made, with those before, are consistent and cover
the pattern. -/
theorem Scope.Binds.bind_made (h : scope.Binds bound) (hconsistent : Consistent bound)
    (hbind : scope.bind pattern = .ok (bindings, inner)) :
    inner.Binds (bound ++ bindings) ∧ Consistent (bound ++ bindings) ∧
      Covers (bound ++ bindings) pattern := by
  obtain ⟨-, hbind⟩ := bind_eq_ok_iff.mp hbind
  obtain ⟨hmade, hconsistent⟩ := h.bindFrom_made hconsistent hbind
  refine ⟨hmade, hconsistent, ?_, ?_⟩
  -- the scope also holds all that is mentioned, so what is mentioned has been made
  all_goals have hmentioned := (h.bindFrom pattern 0 (segments pattern)).2 bindings inner hbind
  · intro name index hsegment
    have hchecked : .dynamic name index ∈ checked scope.hasCatchAll (parameters pattern) :=
      mem_checked_of_dynamic (mem_parameters_of_dynamic hsegment)
    exact (hmade.index name index).mp
      (hmentioned.index?_of_mem (List.mem_append_right bound hchecked))
  · intro name hsegment
    have hany := or_any_checked scope.hasCatchAll (parameters pattern)
    rw [any_parameters_of_catchAll hsegment, Bool.or_true, h.catchAll, ← List.any_append,
      ← h.catchAll] at hany
    rw [← List.any_eq_true, ← hmade.catchAll, hmentioned.catchAll]
    exact hany

end Extend

/-! ## Ways down the tree of an endpoint -/

namespace Tree

/-- Where a handler goes on by itself. -/
def onward? : Tree → Option Tree
  | .middleware _ _ onward => some onward
  | .dynamicForward _ _ _ onward _ => some onward
  | .staticForward _ _ onward _ => some onward
  | _ => none

/-- Where a handler goes on when it takes its forward. -/
def forward? : Tree → Option Tree
  | .dynamicForward _ _ _ _ forward => some forward
  | .staticForward _ _ _ forward => some forward
  | _ => none

@[simp] theorem onward?_before (binding : Binding) (onward : Tree) :
    (binding.before onward).onward? = none := by
  cases binding <;> rfl

@[simp] theorem forward?_before (binding : Binding) (onward : Tree) :
    (binding.before onward).forward? = none := by
  cases binding <;> rfl

@[simp] theorem children_before (binding : Binding) (onward : Tree) :
    (binding.before onward).children = [onward] := by
  cases binding <;> rfl

theorem onward?_of_isPageAction {tree : Tree} (h : tree.isPageAction = true) :
    tree.onward? = none := by
  cases tree <;> first | rfl | cases h

theorem forward?_of_isPageAction {tree : Tree} (h : tree.isPageAction = true) :
    tree.forward? = none := by
  cases tree <;> first | rfl | cases h

end Tree

/-- One step down a tree, with what the two nodes stand for.  Below a handler stand the
continuations of its route, and below any other node stands more of the same endpoint. -/
inductive Below : Tree → Option Endpoint → Tree → Option Endpoint → Prop
  | own {tree child : Tree} {owner : Option Endpoint} (hhandler : tree.onward? = none)
      (hchild : child ∈ tree.children) : Below tree owner child owner
  | onward {tree child : Tree} {route : Route} (hchild : tree.onward? = some child) :
      Below tree (some (.route route)) child route.onward
  | forward {tree child : Tree} {route : Route} (hchild : tree.forward? = some child) :
      Below tree (some (.route route)) child route.forward

/-- A way from the root of a tree to one of its leaves, with what each node stands for. -/
inductive Descent : Tree → Option Endpoint → List (Tree × Option Endpoint) → Prop
  | leaf {tree : Tree} {owner : Option Endpoint} (hleaf : tree.children = []) :
      Descent tree owner [(tree, owner)]
  | step {tree child : Tree} {owner childOwner : Option Endpoint}
      {descent : List (Tree × Option Endpoint)} (hbelow : Below tree owner child childOwner)
      (hdescent : Descent child childOwner descent) :
      Descent tree owner ((tree, owner) :: descent)

/-- The node does what the endpoint does once its pattern is bound. -/
inductive Endpoint.Emits : Endpoint → Tree → Prop
  | page {segment : Page} {node : Tree} (h : segment.action.Contains node) :
      Emits (.page segment) node
  | next {segment : Page} {onward forward : Option Endpoint} {node : Tree}
      (h : segment.action.Contains node) :
      Emits (.route ⟨segment, .next, onward, forward⟩) node
  | middleware {segment : Page} {onward forward : Option Endpoint} (onwardTree : Tree) :
      Emits (.route ⟨segment, .middleware, onward, forward⟩)
        (.middleware segment.internalPath segment.location onwardTree)
  | forward {segment : Page} {kind : RouteKind} {onward forward : Option Endpoint}
      {onwardTree forwardTree node : Tree}
      (h : Forwards segment onwardTree forwardTree kind node) :
      Emits (.route ⟨segment, kind, onward, forward⟩) node

/-- What a node that binds nothing is, below some bindings: the end, for want of a
continuation, or what its endpoint does, with everything bound that the pattern mentions. -/
def ActsFor (bound : List Binding) (node : Tree) : Option Endpoint → Prop
  | none => node = .notFound
  | some endpoint => endpoint.Emits node ∧ Covers bound endpoint.pattern

/-- A tree that stands for an endpoint below some bindings: where it acts, the bindings are
consistent and cover the pattern, and so on below. -/
inductive Grounded : List Binding → Option Endpoint → Tree → Prop
  | missing {bound : List Binding} (hconsistent : Consistent bound) :
      Grounded bound none .notFound
  | binding {bound : List Binding} {endpoint : Endpoint} {binding : Binding} {onward : Tree}
      (honward : Grounded (bound ++ [binding]) (some endpoint) onward) :
      Grounded bound (some endpoint) (binding.before onward)
  | action {bound : List Binding} {endpoint : Endpoint} {node : Tree}
      (hconsistent : Consistent bound) (hcovers : Covers bound endpoint.pattern)
      (hemits : endpoint.Emits node) (hnode : node.isPageAction = true)
      (hchildren : ∀ child ∈ node.children, Grounded bound (some endpoint) child) :
      Grounded bound (some endpoint) node
  | middleware {bound : List Binding} {segment : Page} {onward forward : Option Endpoint}
      {onwardTree : Tree} (hcovers : Covers bound segment.externalPath)
      (honward : Grounded bound onward onwardTree) :
      Grounded bound (some (.route ⟨segment, .middleware, onward, forward⟩))
        (.middleware segment.internalPath segment.location onwardTree)
  | forward {bound : List Binding} {segment : Page} {kind : RouteKind}
      {onward forward : Option Endpoint} {onwardTree forwardTree node : Tree}
      (hcovers : Covers bound segment.externalPath)
      (hforwards : Forwards segment onwardTree forwardTree kind node)
      (honward : Grounded bound onward onwardTree) (hforward : Grounded bound forward forwardTree) :
      Grounded bound (some (.route ⟨segment, kind, onward, forward⟩)) node

namespace Grounded

variable {bound : List Binding} {owner childOwner : Option Endpoint} {tree child : Tree}

theorem consistent (h : Grounded bound owner tree) : Consistent bound := by
  induction h with
  | missing hconsistent => exact hconsistent
  | binding honward ih => exact ih.of_append
  | action hconsistent => exact hconsistent
  | middleware hcovers honward ih => exact ih
  | forward hcovers hforwards honward hforward ih => exact ih

/-- One step down a grounded tree stays grounded, below one binding more if one was made. -/
theorem step (h : Grounded bound owner tree) (hbelow : Below tree owner child childOwner) :
    Grounded (bound ++ tree.binding?.toList) childOwner child := by
  cases h with
  | missing hconsistent =>
      cases hbelow with
      | own hhandler hchild => cases hchild
  | @binding _ endpoint made onward honward =>
      rw [Tree.binding?_before, Option.toList_some]
      cases hbelow with
      | own hhandler hchild =>
          obtain rfl : child = onward := by simpa using hchild
          exact honward
      | onward hchild => simp at hchild
      | forward hchild => simp at hchild
  | action hconsistent hcovers hemits hnode hchildren =>
      rw [Tree.binding?_of_isPageAction hnode, Option.toList_none, List.append_nil]
      cases hbelow with
      | own hhandler hchild => exact hchildren child hchild
      | onward hchild => simp [Tree.onward?_of_isPageAction hnode] at hchild
      | forward hchild => simp [Tree.forward?_of_isPageAction hnode] at hchild
  | middleware hcovers honward =>
      show Grounded (bound ++ []) childOwner child
      rw [List.append_nil]
      cases hbelow with
      | own hhandler hchild => cases hhandler
      | onward hchild =>
          cases hchild
          exact honward
      | forward hchild => cases hchild
  | forward hcovers hforwards honward hforward =>
      have hbinding : tree.binding? = none := by cases hforwards <;> rfl
      rw [hbinding, Option.toList_none, List.append_nil]
      cases hbelow with
      | own hhandler hchild => cases hforwards <;> cases hhandler
      | onward hchild =>
          cases hforwards <;>
            (cases hchild
             exact honward)
      | forward hchild =>
          cases hforwards <;>
            (cases hchild
             exact hforward)

/-- Every branch of a grounded tree stands for something. -/
theorem exists_below (h : Grounded bound owner tree) (hchild : child ∈ tree.children) :
    ∃ childOwner, Below tree owner child childOwner := by
  cases h with
  | missing hconsistent => cases hchild
  | @binding _ endpoint made onward honward => exact ⟨_, .own (by simp) hchild⟩
  | action hconsistent hcovers hemits hnode hchildren =>
      exact ⟨_, .own (Tree.onward?_of_isPageAction hnode) hchild⟩
  | middleware hcovers honward =>
      obtain rfl := List.mem_singleton.mp hchild
      exact ⟨_, .onward rfl⟩
  | forward hcovers hforwards honward hforward =>
      cases hforwards <;>
        (simp only [Tree.children, List.mem_cons, List.not_mem_nil, or_false] at hchild
         rcases hchild with rfl | rfl
         · exact ⟨_, .onward rfl⟩
         · exact ⟨_, .forward rfl⟩)

theorem actsFor (h : Grounded bound owner tree) (hbinding : tree.binding? = none) :
    ActsFor bound tree owner := by
  cases h with
  | missing hconsistent => rfl
  | @binding _ endpoint made onward honward => simp at hbinding
  | action hconsistent hcovers hemits hnode hchildren => exact ⟨hemits, hcovers⟩
  | middleware hcovers honward => exact ⟨.middleware _, hcovers⟩
  | forward hcovers hforwards honward hforward => exact ⟨.forward hforwards, hcovers⟩

end Grounded

/-! ## Along a whole descent -/

theorem Below.mem_children {tree child : Tree} {owner childOwner : Option Endpoint}
    (h : Below tree owner child childOwner) : child ∈ tree.children := by
  cases h with
  | own hhandler hchild => exact hchild
  | onward hchild => cases tree <;> cases hchild <;> simp [Tree.children]
  | forward hchild => cases tree <;> cases hchild <;> simp [Tree.children]

theorem Descent.lineage {tree : Tree} {owner : Option Endpoint}
    {descent : List (Tree × Option Endpoint)} (h : Descent tree owner descent) :
    tree.Lineage (descent.map (·.1)) := by
  induction h with
  | leaf hleaf => exact .leaf hleaf
  | step hbelow hdescent ih => exact .child hbelow.mem_children ih

namespace Grounded

variable {bound : List Binding} {owner : Option Endpoint} {tree : Tree}

theorem consistent_descent {descent : List (Tree × Option Endpoint)}
    (hdescent : Descent tree owner descent) (h : Grounded bound owner tree) :
    Consistent (bound ++ Tree.bindingsOn (descent.map (·.1))) := by
  induction hdescent generalizing bound with
  | @leaf tree owner hleaf =>
      have hbinding : tree.binding? = none := by
        cases tree <;> first | rfl | cases hleaf
      simpa [Tree.bindingsOn_cons, hbinding] using h.consistent
  | step hbelow hdescent ih =>
      rw [List.map_cons, Tree.bindingsOn_cons, ← List.append_assoc]
      exact ih (h.step hbelow)

theorem actsFor_descent {above below : List (Tree × Option Endpoint)} {node : Tree}
    {nodeOwner : Option Endpoint} (h : Grounded bound owner tree)
    (hdescent : Descent tree owner (above ++ (node, nodeOwner) :: below))
    (hbinding : node.binding? = none) :
    ActsFor (bound ++ Tree.bindingsOn (above.map (·.1))) node nodeOwner := by
  induction above generalizing bound owner tree with
  | nil =>
      obtain ⟨rfl, rfl⟩ : tree = node ∧ owner = nodeOwner := by
        cases hdescent <;> exact ⟨rfl, rfl⟩
      rw [List.map_nil, Tree.bindingsOn_nil, List.append_nil]
      exact h.actsFor hbinding
  | cons first above ih =>
      rw [List.cons_append] at hdescent
      generalize hrest : above ++ (node, nodeOwner) :: below = rest at hdescent
      cases hdescent with
      | leaf hleaf => simp at hrest
      | step hbelow hdescent =>
          subst hrest
          rw [List.map_cons, Tree.bindingsOn_cons, ← List.append_assoc]
          exact ih (h.step hbelow) hdescent

theorem exists_descent {path : List Tree} (hpath : tree.Lineage path)
    (h : Grounded bound owner tree) :
    ∃ descent, Descent tree owner descent ∧ descent.map (·.1) = path := by
  induction hpath generalizing bound owner with
  | leaf hleaf => exact ⟨_, .leaf hleaf, rfl⟩
  | child hchild hpath ih =>
      obtain ⟨childOwner, hbelow⟩ := h.exists_below hchild
      obtain ⟨descent, hdescent, rfl⟩ := ih (h.step hbelow)
      exact ⟨_, .step hbelow hdescent, rfl⟩

/-- What contains the actions of a page only is grounded where these are covered. -/
theorem of_contains {endpoint : Endpoint} {action : Tree} (hconsistent : Consistent bound)
    (hcovers : Covers bound endpoint.pattern)
    (hnodes : ∀ node, action.Contains node → endpoint.Emits node ∧ node.isPageAction = true) :
    Grounded bound (some endpoint) action := by
  induction hsize : action.size using Nat.strongRecOn generalizing action with
  | ind size ih =>
      obtain ⟨hemits, hnode⟩ := hnodes action (.here action)
      refine .action hconsistent hcovers hemits hnode fun child hchild => ?_
      exact ih child.size (hsize ▸ Tree.size_lt_of_mem_children hchild)
        (fun node hcontains => hnodes node (.deeper hchild hcontains)) rfl

theorem allBefore {endpoint : Endpoint} {bindings : List Binding}
    (h : Grounded (bound ++ bindings) (some endpoint) tree) :
    Grounded bound (some endpoint) (Binding.allBefore bindings tree) := by
  induction bindings generalizing bound with
  | nil =>
      rw [List.append_nil] at h
      exact h
  | cons binding rest ih =>
      rw [List.append_cons] at h
      exact .binding (ih h)

end Grounded

/-! ## Routes give grounded trees -/

section Construction

variable {scope : Scope} {bound : List Binding} {tree : Tree}

theorem Page.grounded_toTree (page : Page) (hbinds : scope.Binds bound)
    (hconsistent : Consistent bound) (h : page.toTree scope = .ok tree) :
    Grounded bound (some (.page page)) tree := by
  obtain ⟨bindings, inner, hbind, rfl⟩ := Page.toTree_eq_ok_iff.mp h
  obtain ⟨-, hconsistent, hcovers⟩ := hbinds.bind_made hconsistent hbind
  exact .allBefore (.of_contains hconsistent hcovers fun node hnode =>
    ⟨.page hnode, page.isPageAction_of_action node hnode⟩)

mutual

/-- The tree of a route is grounded.  Both continuations of a forward start from the scope
that its pattern leaves, so they share the bindings above and nothing else. -/
theorem Route.grounded_toTree (route : Route) {scope : Scope} {bound : List Binding}
    {tree : Tree} (hbinds : scope.Binds bound) (hconsistent : Consistent bound)
    (h : route.toTree scope = .ok tree) : Grounded bound (some (.route route)) tree := by
  obtain ⟨bindings, inner, action, hbind, haction, rfl⟩ := Route.exists_actsAs h
  obtain ⟨segment, kind, onward, forward⟩ := route
  obtain ⟨hinner, hconsistent, hcovers⟩ := hbinds.bind_made hconsistent hbind
  apply Grounded.allBefore
  cases haction with
  | next =>
      exact .of_contains hconsistent hcovers fun node hnode =>
        ⟨.next hnode, segment.isPageAction_of_action node hnode⟩
  | middleware honward =>
      exact .middleware hcovers (grounded_continuationTree onward hinner hconsistent honward)
  | forward honward hforward hforwards =>
      exact .forward hcovers hforwards
        (grounded_continuationTree onward hinner hconsistent honward)
        (grounded_continuationTree forward hinner hconsistent hforward)
termination_by structural route

theorem Endpoint.grounded_toTree (endpoint : Endpoint) {scope : Scope} {bound : List Binding}
    {tree : Tree} (hbinds : scope.Binds bound) (hconsistent : Consistent bound)
    (h : endpoint.toTree scope = .ok tree) : Grounded bound (some endpoint) tree := by
  cases endpoint with
  | route declared => exact declared.grounded_toTree hbinds hconsistent h
  | page segment => exact segment.grounded_toTree hbinds hconsistent h
termination_by structural endpoint

theorem grounded_continuationTree (continuation : Option Endpoint) {scope : Scope}
    {bound : List Binding} {tree : Tree} (hbinds : scope.Binds bound)
    (hconsistent : Consistent bound) (h : continuationTree scope continuation = .ok tree) :
    Grounded bound continuation tree := by
  cases continuation with
  | none =>
      cases h
      exact .missing hconsistent
  | some endpoint => exact endpoint.grounded_toTree hbinds hconsistent h
termination_by structural continuation

end

end Construction

/-- **Bindings agree on every way down.**  On each way from the root of the tree of a route to
a leaf there is one catch-all at most, no name is bound twice to one component, and bindings
of one name are for one position.  Every such way is a descent; and where a node of it that
binds nothing stands for a route or page, it does what that one does, and whatever the
pattern of that one mentions has been bound above. -/
theorem Route.consistent_lineage {route : Route} {tree : Tree}
    (h : route.toTree .empty = .ok tree) :
    (∀ path, tree.Lineage path → Consistent (Tree.bindingsOn path)) ∧
    (∀ path, tree.Lineage path ↔
      ∃ descent, Descent tree (some (.route route)) descent ∧ descent.map (·.1) = path) ∧
    ∀ above node owner below,
      Descent tree (some (.route route)) (above ++ (node, owner) :: below) →
        node.binding? = none → ActsFor (Tree.bindingsOn (above.map (·.1))) node owner := by
  have hgrounded : Grounded [] (some (.route route)) tree :=
    route.grounded_toTree Scope.Binds.empty Consistent.nil h
  refine ⟨?_, ?_, ?_⟩
  · intro path hpath
    obtain ⟨descent, hdescent, rfl⟩ := hgrounded.exists_descent hpath
    exact hgrounded.consistent_descent hdescent
  · intro path
    constructor
    · exact fun hpath => hgrounded.exists_descent hpath
    · rintro ⟨descent, hdescent, rfl⟩
      exact hdescent.lineage
  · intro above node owner below hdescent hbinding
    exact hgrounded.actsFor_descent hdescent hbinding

/-- A forward whose continuations are bound apart; one of them binds a name as a component
and again, at the same position, as everything from there on. -/
def Route.orders : Route :=
  .staticForward (.plain "/orders/:id/" "orders/gate")
    (some (.route (.middleware (.plain "/orders/:id/:part/" "orders/audit")
      (some (.page (.plain "/orders/:id/*part/" "orders/part"))))))
    (some (.page (.plain "/orders/:id/:line/" "orders/line")))

theorem Route.consistent_lineage_orders :
    ∃ tree, Route.orders.toTree .empty = .ok tree ∧
      (∀ path, tree.Lineage path → Consistent (Tree.bindingsOn path)) ∧
      ∀ above node owner below,
        Descent tree (some (.route Route.orders)) (above ++ (node, owner) :: below) →
          node.binding? = none →
            ActsFor (Tree.bindingsOn (above.map (·.1))) node owner := by
  obtain ⟨tree, htree⟩ :=
    exists_ok_of_isOk (show (Route.orders.toTree .empty).isOk = true by decide +kernel)
  obtain ⟨hconsistent, -, hacts⟩ := Route.consistent_lineage htree
  exact ⟨tree, htree, hconsistent, hacts⟩

end RouteTree
