import Mathlib.Data.List.Forall2
import RouteTree.Group
import RouteTree.Proofs.LoweringRules

/-!
# Pages and the routes that end at them

A page may be written as the route that ends at it, with whatever continuations, since these
are not looked at.  The rules of lowering treat the two apart: the route goes through its
pattern, and when that asks for nothing more the page goes through it once again.  They come
to the same in every scope (`Route.toTree_next`).

`Interchanged` lets any number of pages in a route, at any depth, be replaced by such routes or
the other way about, and the tree stays what it is: a route is lowered by way of what its
continuations are lowered to.  The registry keeps declarations and not their trees; that it
puts them in the same places is `Node.Alike`, which every write preserves.
-/

namespace RouteTree

/-! ## Interchanged routes -/

mutual

/-- One route comes from another by writing pages as routes that end at them, or back. -/
inductive Route.Interchanged : Route → Route → Prop
  | intro (segment : Page) (kind : RouteKind) {onward onward' forward forward' : Option Endpoint}
      (honward : ContinuationInterchanged onward onward')
      (hforward : ContinuationInterchanged forward forward') :
      Route.Interchanged ⟨segment, kind, onward, forward⟩ ⟨segment, kind, onward', forward'⟩

inductive Endpoint.Interchanged : Endpoint → Endpoint → Prop
  | page (segment : Page) : Endpoint.Interchanged (.page segment) (.page segment)
  | route {first second : Route} (h : Route.Interchanged first second) :
      Endpoint.Interchanged (.route first) (.route second)
  | wrap (segment : Page) (onward forward : Option Endpoint) :
      Endpoint.Interchanged (.page segment) (.route ⟨segment, .next, onward, forward⟩)
  | unwrap (segment : Page) (onward forward : Option Endpoint) :
      Endpoint.Interchanged (.route ⟨segment, .next, onward, forward⟩) (.page segment)

inductive ContinuationInterchanged : Option Endpoint → Option Endpoint → Prop
  | none : ContinuationInterchanged none none
  | some {first second : Endpoint} (h : Endpoint.Interchanged first second) :
      ContinuationInterchanged (some first) (some second)

end

/-- A route that ends at a page has the tree of the page, or its error. -/
theorem Route.toTree_next (scope : Scope) (page : Page) (onward forward : Option Endpoint) :
    Route.toTree scope ⟨page, .next, onward, forward⟩ = page.toTree scope := by
  rw [Route.toTree_eq_enter, Page.toTree_eq_enter]
  rfl

theorem Endpoint.toTree_toRoute (endpoint : Endpoint) (scope : Scope) :
    endpoint.toRoute.toTree scope = endpoint.toTree scope := by
  cases endpoint with
  | route declared => rfl
  | page segment => exact Route.toTree_next scope segment none none

/-- A route has the same tree if its continuations have. -/
theorem Route.toTree_congr {segment : Page} {kind : RouteKind}
    {onward onward' forward forward' : Option Endpoint}
    (honward : ∀ scope, continuationTree scope onward = continuationTree scope onward')
    (hforward : ∀ scope, continuationTree scope forward = continuationTree scope forward')
    (scope : Scope) :
    Route.toTree scope ⟨segment, kind, onward, forward⟩ =
      Route.toTree scope ⟨segment, kind, onward', forward'⟩ := by
  have haction : Route.actionTree ⟨segment, kind, onward, forward⟩ =
      Route.actionTree ⟨segment, kind, onward', forward'⟩ := by
    funext inner
    cases kind <;> simp only [Route.actionTree, honward, hforward]
  rw [Route.toTree_eq_enter, Route.toTree_eq_enter, haction]

mutual

theorem Route.toTree_of_interchanged (first : Route) {second : Route}
    (h : first.Interchanged second) (scope : Scope) :
    first.toTree scope = second.toTree scope := by
  obtain ⟨segment, kind, onward, forward⟩ := first
  cases h with
  | intro _ _ honward hforward =>
      exact Route.toTree_congr (continuationTree_of_interchanged onward honward)
        (continuationTree_of_interchanged forward hforward) scope
termination_by structural first

theorem Endpoint.toTree_of_interchanged (first : Endpoint) {second : Endpoint}
    (h : first.Interchanged second) (scope : Scope) :
    first.toTree scope = second.toTree scope := by
  cases first with
  | page segment =>
      cases h with
      | page _ => rfl
      | wrap _ onward forward => exact (Route.toTree_next scope segment onward forward).symm
  | route declared =>
      cases h with
      | route h => exact declared.toTree_of_interchanged h scope
      | unwrap segment onward forward => exact Route.toTree_next scope segment onward forward
termination_by structural first

theorem continuationTree_of_interchanged (first : Option Endpoint) {second : Option Endpoint}
    (h : ContinuationInterchanged first second) (scope : Scope) :
    continuationTree scope first = continuationTree scope second := by
  cases first with
  | none =>
      cases h
      rfl
  | some endpoint =>
      cases h with
      | some h => exact endpoint.toTree_of_interchanged h scope
termination_by structural first

end

/-! ## Alike nodes -/

mutual

/-- The nodes hold declarations of the same trees in the same places, and have alike children in
the same order. -/
inductive Node.Alike : Node → Node → Prop
  | intro {first second : Node}
      (hslot : ∀ place, (first.slot? place).map Slot.toTree =
        (second.slot? place).map Slot.toTree)
      (hdynamic : ChildAlike first.dynamic second.dynamic)
      (hstatics : ChildrenAlike first.statics second.statics) : Node.Alike first second

inductive ChildAlike : Option Node → Option Node → Prop
  | none : ChildAlike none none
  | some {first second : Node} (h : Node.Alike first second) :
      ChildAlike (some first) (some second)

inductive ChildrenAlike : List (String × Node) → List (String × Node) → Prop
  | nil : ChildrenAlike [] []
  | cons (label : String) {first second : Node} {rest rest' : List (String × Node)}
      (h : Node.Alike first second) (hrest : ChildrenAlike rest rest') :
      ChildrenAlike ((label, first) :: rest) ((label, second) :: rest')

end

namespace ChildrenAlike

variable {list list' : List (String × Node)}

theorem lookup (h : ChildrenAlike list list') (label : String) :
    ChildAlike (list.lookup label) (list'.lookup label) := by
  induction list generalizing list' with
  | nil =>
      cases h
      exact .none
  | cons first rest ih =>
      cases h with
      | cons other hchild hrest =>
          rw [lookup_cons_pair, lookup_cons_pair]
          split
          · exact .some hchild
          · exact ih hrest

theorem assign (h : ChildrenAlike list list') (label : String) {child child' : Node}
    (hchild : child.Alike child') :
    ChildrenAlike (RouteTree.assign label child list) (RouteTree.assign label child' list') := by
  induction list generalizing list' with
  | nil =>
      cases h
      exact .cons label hchild .nil
  | cons first rest ih =>
      cases h with
      | cons other hfirst hrest =>
          rw [RouteTree.assign, RouteTree.assign]
          split
          · exact .cons other hchild hrest
          · exact .cons other hfirst (ih hrest)

end ChildrenAlike

namespace Node.Alike

variable {first second : Node}

theorem empty : Node.Alike .empty .empty :=
  .intro (fun _ => rfl) .none .nil

theorem child? (h : first.Alike second) (step : Step) :
    ChildAlike (first.child? step) (second.child? step) := by
  obtain ⟨-, hdynamic, hstatics⟩ := h
  cases step with
  | literal text => exact hstatics.lookup text
  | dynamic => exact hdynamic

theorem setSlot (h : first.Alike second) (place : Place) {slot slot' : Slot}
    (hslot : slot.toTree = slot'.toTree) :
    (first.setSlot place slot).Alike (second.setSlot place slot') := by
  obtain ⟨hslots, hdynamic, hstatics⟩ := h
  refine .intro (fun other => ?_) ?_ ?_
  · rw [slot?_setSlot, slot?_setSlot]
    split
    · exact congrArg some hslot
    · exact hslots other
  · cases place <;> exact hdynamic
  · cases place <;> exact hstatics

theorem setChild (h : first.Alike second) (step : Step) {child child' : Node}
    (hchild : child.Alike child') :
    (first.setChild step child).Alike (second.setChild step child') := by
  obtain ⟨hslots, hdynamic, hstatics⟩ := h
  refine .intro (fun place => ?_) ?_ ?_
  · rw [slot?_setChild, slot?_setChild]
    exact hslots place
  · cases step with
    | literal text => exact hdynamic
    | dynamic => exact .some hchild
  · cases step with
    | literal text => exact hstatics.assign text hchild
    | dynamic => exact hstatics

theorem getD_empty {child child' : Option Node} (h : ChildAlike child child') :
    (child.getD .empty).Alike (child'.getD .empty) := by
  cases h with
  | none => exact empty
  | some h => exact h

/-- Alike changes at the same place of alike nodes leave them alike. -/
theorem update {change change' : Node → Node}
    (hchange : ∀ first second : Node, first.Alike second →
      (change first).Alike (change' second))
    (h : first.Alike second) (steps : List Step) :
    (first.update change steps).Alike (second.update change' steps) := by
  induction steps generalizing first second with
  | nil => exact hchange _ _ h
  | cons step steps ih => exact h.setChild step (ih (getD_empty (h.child? step)))

end Node.Alike

/-! ## Alike nodes have the same tree -/

/-- The tree of a node, from the trees of its declarations and children. -/
theorem Node.toTree_eq (node : Node) (depth : Nat) :
    node.toTree depth =
      ((node.slot? .override).map Slot.toTree).getD (do
        let exact ← ((node.slot? .exact).map Slot.toTree).getD (.ok .notFound)
        let statics ← staticTrees (depth + 1) node.statics
        let dynamic ← dynamicTree (depth + 1) node.dynamic
        let catchAll ← ((node.slot? .catchAll).map Slot.toTree).elim (.ok none) (some <$> ·)
        return .switch depth (("", exact) :: statics) dynamic catchAll) := by
  obtain ⟨exact, dynamic, catchAll, override, statics⟩ := node
  cases override with
  | some slot => exact toTree_of_override rfl depth
  | none =>
      simp only [Node.toTree]
      cases exact <;> cases catchAll <;> rfl

mutual

theorem Node.toTree_of_alike (first : Node) {second : Node} (h : first.Alike second)
    (depth : Nat) : first.toTree depth = second.toTree depth := by
  obtain ⟨exact, dynamic, catchAll, override, statics⟩ := first
  obtain ⟨hslots, hdynamic, hstatics⟩ := h
  rw [Node.toTree_eq, Node.toTree_eq second, hslots, hslots, hslots,
    dynamicTree_of_alike dynamic hdynamic, staticTrees_of_alike statics hstatics]
termination_by structural first

theorem dynamicTree_of_alike (first : Option Node) {second : Option Node}
    (h : ChildAlike first second) (depth : Nat) :
    dynamicTree depth first = dynamicTree depth second := by
  cases first with
  | none =>
      cases h
      rfl
  | some child =>
      cases h with
      | some h => exact child.toTree_of_alike h depth
termination_by structural first

theorem staticTrees_of_alike (first : List (String × Node)) {second : List (String × Node)}
    (h : ChildrenAlike first second) (depth : Nat) :
    staticTrees depth first = staticTrees depth second := by
  cases first with
  | nil =>
      cases h
      rfl
  | cons entry rest =>
      obtain ⟨label, child⟩ := entry
      cases h with
      | cons _ h hrest =>
          rw [staticTrees, staticTrees, child.toTree_of_alike h depth,
            staticTrees_of_alike rest hrest depth]
termination_by structural first

end

/-! ## Alike declarations -/

/-- The declarations are under the same keys, and their trees are the same. -/
def DeclaredAlike (first second : List (String × Slot)) : Prop :=
  List.Forall₂ (fun entry entry' => entry.1 = entry'.1 ∧ entry.2.toTree = entry'.2.toTree)
    first second

namespace Registry

variable {first second : Registry}

theorem write_alike (h : first.root.Alike second.root) (key : String) {slot slot' : Slot}
    (hslot : slot.toTree = slot'.toTree) :
    (first.write key slot).1.root.Alike (second.write key slot').1.root ∧
      (first.write key slot).2 = (second.write key slot').2 := by
  cases hending : (Walk.ofKey key).ending with
  | error fault =>
      refine ⟨?_, by simp only [write, hending]⟩
      simp only [write, hending]
      exact h.update (fun _ _ hnode => hnode) _
  | ok place =>
      refine ⟨?_, by simp only [write, hending]⟩
      simp only [write, hending]
      exact h.update (fun _ _ hnode => hnode.setSlot place hslot) _

theorem writeAll_alike {declarations declarations' : List (String × Slot)}
    (hdeclared : DeclaredAlike declarations declarations') (h : first.root.Alike second.root) :
    (first.writeAll declarations).1.root.Alike (second.writeAll declarations').1.root ∧
      (first.writeAll declarations).2 = (second.writeAll declarations').2 := by
  induction hdeclared generalizing first second with
  | nil => exact ⟨h, rfl⟩
  | @cons entry entry' rest rest' hentry hrest ih =>
      obtain ⟨key, slot⟩ := entry
      obtain ⟨key', slot'⟩ := entry'
      obtain ⟨rfl, hslot⟩ := hentry
      obtain ⟨hroot, herror⟩ := write_alike h key hslot
      rw [writeAll, writeAll]
      generalize first.write key slot = written at hroot herror ⊢
      generalize second.write key slot' = written' at hroot herror ⊢
      obtain ⟨written, error?⟩ := written
      obtain ⟨written', error?'⟩ := written'
      obtain rfl : error? = error?' := herror
      cases error? with
      | none => exact ih hroot
      | some error => exact ⟨hroot, rfl⟩

theorem toTree_ofDeclarations_of_alike {declarations declarations' : List (String × Slot)}
    (h : DeclaredAlike declarations declarations') :
    (ofDeclarations declarations >>= toTree) = (ofDeclarations declarations' >>= toTree) := by
  have hempty : empty.root.Alike empty.root := Node.Alike.empty
  obtain ⟨hroot, herror⟩ := writeAll_alike h hempty
  unfold ofDeclarations
  generalize empty.writeAll declarations = written at hroot herror ⊢
  generalize empty.writeAll declarations' = written' at hroot herror ⊢
  obtain ⟨written, error?⟩ := written
  obtain ⟨written', error?'⟩ := written'
  obtain rfl : error? = error?' := herror
  cases error? with
  | none => exact Node.toTree_of_alike written.root hroot 0
  | some error => rfl

end Registry

/-! ## Groups -/

/-- The same keys lead to interchanged endpoints. -/
def RoutesInterchanged (first second : List (String × Endpoint)) : Prop :=
  List.Forall₂ (fun entry entry' => entry.1 = entry'.1 ∧ entry.2.Interchanged entry'.2)
    first second

theorem RouteGroup.declarations_alike {group : RouteGroup} {routes : List (String × Endpoint)}
    (h : RoutesInterchanged group.routes routes) :
    DeclaredAlike group.declarations { group with routes }.declarations := by
  refine List.rel_append ?_ (List.forall₂_same.mpr fun entry _ => ⟨rfl, rfl⟩)
  rw [List.forall₂_map_left_iff, List.forall₂_map_right_iff]
  refine h.imp fun entry entry' hentry => ⟨hentry.1, ?_⟩
  show entry.2.toRoute.toTree .empty = entry'.2.toRoute.toTree .empty
  rw [Endpoint.toTree_toRoute, Endpoint.toTree_toRoute,
    entry.2.toTree_of_interchanged hentry.2]

theorem RouteGroup.map_tree_compile (group : RouteGroup) :
    group.compile.map Compiled.tree =
      (Registry.ofDeclarations group.declarations >>= Registry.toTree) := by
  rw [compile]
  cases Registry.ofDeclarations group.declarations with
  | error error => rfl
  | ok registry =>
      show Except.map Compiled.tree (registry.toTree >>= fun tree =>
        pure { tree, hooks := group.hooks, warnings := registry.warnings }) = registry.toTree
      cases registry.toTree <;> rfl

/-- **Pages and the routes that end at them are interchangeable.**  In every scope, the route
that ends at a page is lowered to what the page is lowered to, whatever its continuations: the
tree, or the error.  So interchanging them anywhere in a route leaves what the route is lowered
to, and interchanging them anywhere in a group leaves the tree of the group, or its error. -/
theorem RouteGroup.compile_of_interchanged :
    (∀ (scope : Scope) (page : Page) (onward forward : Option Endpoint),
      Route.toTree scope ⟨page, .next, onward, forward⟩ = page.toTree scope ∧
        ∀ result, Lowers scope (some (.route ⟨page, .next, onward, forward⟩)) result ↔
          Lowers scope (some (.page page)) result) ∧
    (∀ route route' : Route, route.Interchanged route' → ∀ scope,
      route.toTree scope = route'.toTree scope ∧
        ∀ result, Lowers scope (some (.route route)) result ↔
          Lowers scope (some (.route route')) result) ∧
    ∀ (group : RouteGroup) (routes : List (String × Endpoint)),
      RoutesInterchanged group.routes routes →
        { group with routes }.compile.map Compiled.tree = group.compile.map Compiled.tree := by
  refine ⟨?_, ?_, ?_⟩
  · intro scope page onward forward
    have hsame := Route.toTree_next scope page onward forward
    refine ⟨hsame, fun result => ?_⟩
    rw [lowers_iff, lowers_iff]
    exact Eq.congr_left hsame
  · intro route route' h scope
    have hsame := route.toTree_of_interchanged h scope
    refine ⟨hsame, fun result => ?_⟩
    rw [lowers_iff, lowers_iff]
    exact Eq.congr_left hsame
  · intro group routes h
    rw [map_tree_compile, map_tree_compile]
    exact (Registry.toTree_ofDeclarations_of_alike (declarations_alike h)).symm

/-- A page on its own, and below a middleware a route that ends at a page. -/
def RouteGroup.library : RouteGroup where
  routes := [("/books/:id", .page (.plain "/books/:id/" "books/[id]")),
    ("/loans", .route (.middleware (.plain "/loans/" "loans/gate")
      (some (.route (.next (.plain "/loans/" "loans"))))))]
  reserved := ["/assets"]

/-- The same routes, the page as a route with a continuation and the route as a page. -/
def RouteGroup.libraryRespelled : List (String × Endpoint) :=
  [("/books/:id", .route ⟨.plain "/books/:id/" "books/[id]", .next,
      some (.page (.plain "/books/:id/:page/" "books/page")), none⟩),
    ("/loans", .route (.middleware (.plain "/loans/" "loans/gate")
      (some (.page (.plain "/loans/" "loans")))))]

theorem RouteGroup.compile_of_interchanged_library :
    library.compile.isOk = true ∧ RoutesInterchanged library.routes libraryRespelled ∧
      { library with routes := libraryRespelled }.compile.map Compiled.tree =
        library.compile.map Compiled.tree := by
  have hroutes : RoutesInterchanged library.routes libraryRespelled :=
    .cons ⟨rfl, .wrap ..⟩
      (.cons ⟨rfl, .route (.intro _ _ (.some (.unwrap ..)) .none)⟩ .nil)
  exact ⟨by decide +kernel, hroutes, compile_of_interchanged.2.2 library _ hroutes⟩

end RouteTree
