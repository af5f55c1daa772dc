import RouteTree.Proofs.Binding
import RouteTree.Proofs.Lowering

/-!
# The rules of lowering

A tree is constructed in one pass over each pattern, and the actions of a page are written
down at once.  The rules in this file take smaller steps.  In each of them the pattern is gone
through from its start again, for the next binding that it still asks for in the scope of the
moment (`Scope.next?`); the binding is made and the endpoint lowered once more in the larger
scope.  A page that may be refused is lowered again with the refused action taken away.  A
route that ends at its page hands the page over to the rules for pages, in the scope it has
come to.

`lowers_iff` shows that the rules allow exactly what the construction does, errors included.
Two facts carry it.  A binding leaves everything before it settled, so going through the
pattern again finds the next one (`bind_eq_of_next?`); and each binding leaves one parameter
less to ask for, so the rules come to an end (`next?_induction`).
-/

namespace RouteTree

/-- The pattern that an endpoint starts with. -/
def Endpoint.pattern : Endpoint → String
  | .route declared => declared.segment.externalPath
  | .page segment => segment.externalPath

namespace Scope

/-- The first binding that the segments from a position on ask for, if they need one. -/
def nextFrom (scope : Scope) (pattern : String) (index : Nat) :
    List Segment → Except CompileError (Option Binding)
  | [] => .ok none
  | segment :: rest =>
    match scope.bindingOf pattern index segment with
    | .ok none => scope.nextFrom pattern (index + 1) rest
    | found => found

/-- The first binding that a pattern still asks for. -/
def next? (scope : Scope) (pattern : String) : Except CompileError (Option Binding) :=
  if hasMisplacedCatchAll (segments pattern) then .error (.malformed pattern .catchAllNotLast)
  else scope.nextFrom pattern 0 (segments pattern)

end Scope

/-- What an endpoint is lowered to in a scope, or a missing one: a tree or an error. -/
inductive Lowers : Scope → Option Endpoint → Except CompileError Tree → Prop
  | missing (scope : Scope) : Lowers scope none (.ok .notFound)
  | fault {scope : Scope} {endpoint : Endpoint} {error : CompileError}
      (h : scope.next? endpoint.pattern = .error error) :
      Lowers scope (some endpoint) (.error error)
  | binding {scope : Scope} {endpoint : Endpoint} {binding : Binding}
      {result : Except CompileError Tree}
      (h : scope.next? endpoint.pattern = .ok (some binding))
      (hagain : Lowers (scope.add binding) (some endpoint) result) :
      Lowers scope (some endpoint) (binding.before <$> result)
  | next {scope : Scope} {segment : Page} {onward forward : Option Endpoint}
      {result : Except CompileError Tree} (h : scope.next? segment.externalPath = .ok none)
      (hpage : Lowers scope (some (.page segment)) result) :
      Lowers scope (some (.route ⟨segment, .next, onward, forward⟩)) result
  | middleware {scope : Scope} {segment : Page} {onward forward : Option Endpoint}
      {result : Except CompileError Tree} (h : scope.next? segment.externalPath = .ok none)
      (honward : Lowers scope onward result) :
      Lowers scope (some (.route ⟨segment, .middleware, onward, forward⟩))
        (Tree.middleware segment.internalPath segment.location <$> result)
  | dynamicForward {scope : Scope} {segment : Page} {name : String}
      {onward forward : Option Endpoint} {result forwardResult : Except CompileError Tree}
      (h : scope.next? segment.externalPath = .ok none) (honward : Lowers scope onward result)
      (hforward : Lowers scope forward forwardResult) :
      Lowers scope (some (.route ⟨segment, .dynamicForward name, onward, forward⟩))
        (Tree.dynamicForward name segment.internalPath segment.location <$> result <*>
          forwardResult)
  | staticForward {scope : Scope} {segment : Page} {onward forward : Option Endpoint}
      {result forwardResult : Except CompileError Tree}
      (h : scope.next? segment.externalPath = .ok none) (honward : Lowers scope onward result)
      (hforward : Lowers scope forward forwardResult) :
      Lowers scope (some (.route ⟨segment, .staticForward, onward, forward⟩))
        (Tree.staticForward segment.internalPath segment.location <$> result <*>
          forwardResult)
  | external {scope : Scope} {page : Page} (h : scope.next? page.externalPath = .ok none)
      (hexternal : page.external = true) : Lowers scope (some (.page page)) (.ok .external)
  /-- a rewrite with something behind it, which is the page without the rewrite -/
  | rewrite {scope : Scope} {page : Page} {result : Except CompileError Tree}
      (h : scope.next? page.externalPath = .ok none) (hexternal : page.external = false)
      (hrewrite : page.rewrite = true) (hmore : (page.redirect || page.page) = true)
      (hrest : Lowers scope (some (.page { page with rewrite := false })) result) :
      Lowers scope (some (.page page))
        ((fun rest => .rewrite page.location page.internalPath (some rest)) <$> result)
  | rewriteOnly {scope : Scope} {page : Page} (h : scope.next? page.externalPath = .ok none)
      (hexternal : page.external = false) (hrewrite : page.rewrite = true)
      (hmore : (page.redirect || page.page) = false) :
      Lowers scope (some (.page page)) (.ok (.rewrite page.location page.internalPath none))
  /-- a redirect with something behind it, which is the page without the redirect -/
  | redirect {scope : Scope} {page : Page} {result : Except CompileError Tree}
      (h : scope.next? page.externalPath = .ok none) (hexternal : page.external = false)
      (hrewrite : page.rewrite = false) (hredirect : page.redirect = true)
      (hmore : page.page = true)
      (hrest : Lowers scope (some (.page { page with redirect := false })) result) :
      Lowers scope (some (.page page))
        ((fun rest => .redirect page.location page.internalPath (some rest)) <$> result)
  | redirectOnly {scope : Scope} {page : Page} (h : scope.next? page.externalPath = .ok none)
      (hexternal : page.external = false) (hrewrite : page.rewrite = false)
      (hredirect : page.redirect = true) (hmore : page.page = false) :
      Lowers scope (some (.page page)) (.ok (.redirect page.location page.internalPath none))
  | served {scope : Scope} {page : Page} (h : scope.next? page.externalPath = .ok none)
      (hexternal : page.external = false) (hrewrite : page.rewrite = false)
      (hredirect : page.redirect = false) :
      Lowers scope (some (.page page)) (.ok (.next page.internalPath page.externalPath))

/-! ## A binding settles its segment and leaves the others settled -/

namespace Scope

variable {scope : Scope} {pattern : String} {index : Nat} {segment : Segment} {binding : Binding}
  {rest : List Segment}

/-- The name of the binding is new, or stands for the same position. -/
def Allows (scope : Scope) (binding : Binding) : Prop :=
  scope.index? binding.name = none ∨ scope.index? binding.name = some binding.index

theorem allows_of_bindingOf (h : scope.bindingOf pattern index segment = .ok (some binding)) :
    scope.Allows binding := by
  cases segment with
  | literal text => cases h
  | dynamic name =>
      obtain ⟨-, ⟨hnew, heq⟩ | ⟨-, heq⟩⟩ := bindingOf_dynamic_eq_ok_iff.mp h <;> cases heq
      exact Or.inl hnew
  | catchAll name =>
      obtain ⟨-, heq⟩ | ⟨-, -, hfree, heq⟩ := bindingOf_catchAll_eq_ok_iff.mp h <;> cases heq
      exact hfree

theorem bindingOf_add_self (h : scope.bindingOf pattern index segment = .ok (some binding)) :
    (scope.add binding).bindingOf pattern index segment = .ok none := by
  cases segment with
  | literal text => cases h
  | dynamic name =>
      obtain ⟨hname, ⟨-, heq⟩ | ⟨-, heq⟩⟩ := bindingOf_dynamic_eq_ok_iff.mp h <;> cases heq
      refine bindingOf_dynamic_eq_ok_iff.mpr ⟨hname, Or.inr ⟨?_, rfl⟩⟩
      rw [index?_add]
      exact if_pos rfl
  | catchAll name =>
      obtain ⟨-, heq⟩ | ⟨-, -, -, heq⟩ := bindingOf_catchAll_eq_ok_iff.mp h <;> cases heq
      exact bindingOf_catchAll_eq_ok_iff.mpr (Or.inl ⟨rfl, rfl⟩)

theorem bindingOf_add_of_none (h : scope.bindingOf pattern index segment = .ok none)
    (hallows : scope.Allows binding) :
    (scope.add binding).bindingOf pattern index segment = .ok none := by
  cases segment with
  | literal text => rfl
  | dynamic name =>
      obtain ⟨hname, ⟨-, heq⟩ | ⟨hbound, -⟩⟩ := bindingOf_dynamic_eq_ok_iff.mp h
      · cases heq
      refine bindingOf_dynamic_eq_ok_iff.mpr ⟨hname, Or.inr ⟨?_, rfl⟩⟩
      rw [index?_add]
      split
      · rename_i hsame
        rw [hsame] at hbound
        rcases hallows with hnew | hindex
        · rw [hnew] at hbound
          cases hbound
        · rw [← hindex, hbound]
      · exact hbound
  | catchAll name =>
      obtain ⟨hheld, -⟩ | ⟨-, -, -, heq⟩ := bindingOf_catchAll_eq_ok_iff.mp h
      · refine bindingOf_catchAll_eq_ok_iff.mpr (Or.inl ⟨?_, rfl⟩)
        cases binding with
        | dynamic name index => exact hheld
        | catchAll name index => rfl
      · cases heq

theorem allows_of_nextFrom (h : scope.nextFrom pattern index rest = .ok (some binding)) :
    scope.Allows binding := by
  induction rest generalizing index with
  | nil => cases h
  | cons segment rest ih =>
      rw [nextFrom] at h
      split at h
      · exact ih h
      · exact allows_of_bindingOf h

/-! ## Going through the pattern again -/

/-- One pass over the segments is the first binding, and then one pass in the larger scope,
from the same position. -/
theorem bindFrom_eq_of_nextFrom (scope : Scope) (pattern : String) (index : Nat)
    (rest : List Segment) :
    bindFrom pattern scope index rest =
      match scope.nextFrom pattern index rest with
      | .error error => .error error
      | .ok none => .ok ([], scope)
      | .ok (some binding) =>
        (fun result => (binding :: result.1, result.2)) <$>
          bindFrom pattern (scope.add binding) index rest := by
  induction rest generalizing index with
  | nil => rfl
  | cons segment rest ih =>
      rw [bindFrom, nextFrom]
      cases hfound : scope.bindingOf pattern index segment with
      | error error => rfl
      | ok found =>
          cases found with
          | none =>
              dsimp only
              rw [ih]
              cases hnext : scope.nextFrom pattern (index + 1) rest with
              | error error => rfl
              | ok next =>
                  cases next with
                  | none => rfl
                  | some binding =>
                      have hsettled := bindingOf_add_of_none hfound (allows_of_nextFrom hnext)
                      dsimp only
                      rw [bindFrom, hsettled]
          | some binding =>
              dsimp only
              rw [bindFrom, bindingOf_add_self hfound]
              cases bindFrom pattern (scope.add binding) (index + 1) rest <;> rfl

theorem bind_eq_of_next? (scope : Scope) (pattern : String) :
    scope.bind pattern =
      match scope.next? pattern with
      | .error error => .error error
      | .ok none => .ok ([], scope)
      | .ok (some binding) =>
        (fun result => (binding :: result.1, result.2)) <$> (scope.add binding).bind pattern := by
  unfold bind next?
  split
  · rfl
  · exact bindFrom_eq_of_nextFrom scope pattern 0 (segments pattern)

/-! ## The rules come to an end -/

/-- How many of the segments from a position on are not settled. -/
def pendingFrom (scope : Scope) (pattern : String) (index : Nat) : List Segment → Nat
  | [] => 0
  | segment :: rest =>
    (match scope.bindingOf pattern index segment with
      | .ok none => 0
      | _ => 1) + scope.pendingFrom pattern (index + 1) rest

theorem pendingFrom_add_le (hallows : scope.Allows binding) (pattern : String) (index : Nat)
    (rest : List Segment) :
    (scope.add binding).pendingFrom pattern index rest ≤ scope.pendingFrom pattern index rest := by
  induction rest generalizing index with
  | nil => exact Nat.le_refl _
  | cons segment rest ih =>
      simp only [pendingFrom]
      apply Nat.add_le_add _ (ih (index + 1))
      split
      · exact Nat.zero_le _
      · rename_i hopen
        split
        · rename_i hsettled
          exact absurd (bindingOf_add_of_none hsettled hallows) hopen
        · exact Nat.le_refl _

theorem pendingFrom_add_lt (h : scope.nextFrom pattern index rest = .ok (some binding)) :
    (scope.add binding).pendingFrom pattern index rest <
      scope.pendingFrom pattern index rest := by
  induction rest generalizing index with
  | nil => cases h
  | cons segment rest ih =>
      have hallows := allows_of_nextFrom h
      rw [nextFrom] at h
      cases hfound : scope.bindingOf pattern index segment with
      | error error => simp [hfound] at h
      | ok found =>
          cases found with
          | none =>
              simp only [hfound] at h
              simp only [pendingFrom, hfound, bindingOf_add_of_none hfound hallows]
              exact Nat.add_lt_add_left (ih h) 0
          | some other =>
              obtain rfl : other = binding := by simpa [hfound] using h
              have hle := pendingFrom_add_le hallows pattern (index + 1) rest
              simp only [pendingFrom, hfound, bindingOf_add_self hfound]
              omega

/-- What holds where a pattern asks for nothing more and where it is at fault, and holds before
a binding if it holds after it, holds in every scope. -/
theorem next?_induction {motive : Scope → Prop} (pattern : String)
    (fault : ∀ scope error, scope.next? pattern = .error error → motive scope)
    (done : ∀ scope, scope.next? pattern = .ok none → motive scope)
    (binding : ∀ scope binding, scope.next? pattern = .ok (some binding) →
      motive (scope.add binding) → motive scope)
    (scope : Scope) : motive scope := by
  induction hpending : scope.pendingFrom pattern 0 (segments pattern)
    using Nat.strongRecOn generalizing scope with
  | ind pending ih =>
      cases hnext : scope.next? pattern with
      | error error => exact fault scope error hnext
      | ok next =>
          cases next with
          | none => exact done scope hnext
          | some found =>
              refine binding scope found hnext (ih _ ?_ _ rfl)
              unfold next? at hnext
              split at hnext
              · cases hnext
              · rw [← hpending]
                exact pendingFrom_add_lt hnext

end Scope

/-! ## One step of a construction -/

section Construction

variable {scope : Scope} {pattern : String} {action : Scope → Except CompileError Tree}

/-- The bindings of a pattern in front of what is constructed in the scope after it. -/
def Scope.enter (scope : Scope) (pattern : String) (action : Scope → Except CompileError Tree) :
    Except CompileError Tree :=
  match scope.bind pattern with
  | .error error => .error error
  | .ok (bindings, inner) => Binding.allBefore bindings <$> action inner

theorem Scope.enter_of_fault {error : CompileError} (h : scope.next? pattern = .error error) :
    scope.enter pattern action = .error error := by
  simp only [enter, bind_eq_of_next?, h]

theorem Scope.enter_of_done (h : scope.next? pattern = .ok none) :
    scope.enter pattern action = action scope := by
  simp only [enter, bind_eq_of_next?, h]
  cases action scope <;> rfl

theorem Scope.enter_of_binding {binding : Binding}
    (h : scope.next? pattern = .ok (some binding)) :
    scope.enter pattern action = binding.before <$> (scope.add binding).enter pattern action := by
  simp only [enter, bind_eq_of_next? scope, h]
  cases (scope.add binding).bind pattern with
  | error error => rfl
  | ok result =>
      obtain ⟨bindings, inner⟩ := result
      show Binding.allBefore (binding :: bindings) <$> action inner =
        binding.before <$> Binding.allBefore bindings <$> action inner
      cases action inner <;> rfl

theorem Page.toTree_eq_enter (page : Page) (scope : Scope) :
    page.toTree scope = scope.enter page.externalPath fun _ => .ok page.action := by
  rw [Page.toTree, Scope.enter]
  cases scope.bind page.externalPath <;> rfl

/-- What a route does in the scope after its pattern. -/
def Route.actionTree (route : Route) (scope : Scope) : Except CompileError Tree :=
  match route.kind with
  | .next => .ok route.segment.action
  | .middleware =>
    Tree.middleware route.segment.internalPath route.segment.location <$>
      continuationTree scope route.onward
  | .dynamicForward name =>
    Tree.dynamicForward name route.segment.internalPath route.segment.location <$>
      continuationTree scope route.onward <*> continuationTree scope route.forward
  | .staticForward =>
    Tree.staticForward route.segment.internalPath route.segment.location <$>
      continuationTree scope route.onward <*> continuationTree scope route.forward

theorem Route.toTree_eq_enter (route : Route) (scope : Scope) :
    route.toTree scope = scope.enter route.segment.externalPath route.actionTree := by
  obtain ⟨segment, kind, onward, forward⟩ := route
  rw [Route.toTree, Scope.enter]
  cases scope.bind segment.externalPath with
  | error error => rfl
  | ok result =>
      obtain ⟨bindings, inner⟩ := result
      dsimp only [actionTree, Bind.bind, Except.bind]
      cases kind with
      | next => rfl
      | middleware => cases continuationTree inner onward <;> rfl
      | dynamicForward name =>
          cases continuationTree inner onward <;> cases continuationTree inner forward <;> rfl
      | staticForward =>
          cases continuationTree inner onward <;> cases continuationTree inner forward <;> rfl

/-- What an endpoint does in the scope after its pattern. -/
def Endpoint.actionTree : Endpoint → Scope → Except CompileError Tree
  | .route declared => declared.actionTree
  | .page segment => fun _ => .ok segment.action

theorem Endpoint.toTree_eq_enter (endpoint : Endpoint) (scope : Scope) :
    endpoint.toTree scope = scope.enter endpoint.pattern endpoint.actionTree := by
  cases endpoint with
  | route declared => exact declared.toTree_eq_enter scope
  | page segment => exact segment.toTree_eq_enter scope

end Construction

/-! ## The actions of a page -/

namespace Page

variable {page : Page}

theorem action_external (hexternal : page.external = true) : page.action = .external := by
  simp [action, hexternal]

/-- Behind a rewrite stands the page without the rewrite, if it has a redirect or content of
its own. -/
theorem action_rewrite (hexternal : page.external = false) (hrewrite : page.rewrite = true) :
    page.action = .rewrite page.location page.internalPath
      (if page.redirect || page.page then some { page with rewrite := false }.action
        else none) := by
  simp [action, redirectAction, hexternal, hrewrite]

/-- Behind a redirect stands the page without the redirect, if it has content of its own. -/
theorem action_redirect (hexternal : page.external = false) (hrewrite : page.rewrite = false)
    (hredirect : page.redirect = true) :
    page.action = .redirect page.location page.internalPath
      (if page.page then some { page with redirect := false }.action else none) := by
  simp [action, redirectAction, hexternal, hrewrite, hredirect]

theorem action_served (hexternal : page.external = false) (hrewrite : page.rewrite = false)
    (hredirect : page.redirect = false) :
    page.action = .next page.internalPath page.externalPath := by
  simp [action, redirectAction, hexternal, hrewrite, hredirect]

end Page

/-! ## The rules agree with the construction -/

section Agreement

variable {scope : Scope} {page : Page}

theorem Page.toTree_of_done (h : scope.next? page.externalPath = .ok none) :
    page.toTree scope = .ok page.action := by
  rw [Page.toTree_eq_enter, Scope.enter_of_done h]

theorem Route.toTree_of_done {route : Route}
    (h : scope.next? route.segment.externalPath = .ok none) :
    route.toTree scope = route.actionTree scope := by
  rw [Route.toTree_eq_enter, Scope.enter_of_done h]

/-- The rules for a page that has no parameter left to bind. -/
theorem lowers_action (h : scope.next? page.externalPath = .ok none) :
    Lowers scope (some (.page page)) (.ok page.action) := by
  -- a page is lowered after those with one action less
  have hserved : ∀ page : Page, scope.next? page.externalPath = .ok none →
      page.external = false → page.rewrite = false → page.redirect = false →
        Lowers scope (some (.page page)) (.ok page.action) := by
    intro page h hexternal hrewrite hredirect
    rw [Page.action_served hexternal hrewrite hredirect]
    exact .served h hexternal hrewrite hredirect
  have hredirects : ∀ page : Page, scope.next? page.externalPath = .ok none →
      page.external = false → page.rewrite = false →
        Lowers scope (some (.page page)) (.ok page.action) := by
    intro page h hexternal hrewrite
    cases hredirect : page.redirect with
    | false => exact hserved page h hexternal hrewrite hredirect
    | true =>
        rw [Page.action_redirect hexternal hrewrite hredirect]
        split
        · rename_i hmore
          exact .redirect h hexternal hrewrite hredirect hmore
            (hserved { page with redirect := false } h hexternal hrewrite rfl)
        · rename_i hmore
          exact .redirectOnly h hexternal hrewrite hredirect (by simpa using hmore)
  cases hexternal : page.external with
  | true =>
      rw [Page.action_external hexternal]
      exact .external h hexternal
  | false =>
      cases hrewrite : page.rewrite with
      | false => exact hredirects page h hexternal hrewrite
      | true =>
          rw [Page.action_rewrite hexternal hrewrite]
          split
          · rename_i hmore
            exact .rewrite h hexternal hrewrite hmore
              (hredirects { page with rewrite := false } h hexternal rfl)
          · rename_i hmore
            exact .rewriteOnly h hexternal hrewrite (by simpa using hmore)

/-- What the rules make of an endpoint is what they make of it once it has nothing left to
bind. -/
theorem lowers_enter (endpoint : Endpoint)
    (hdone : ∀ scope : Scope, scope.next? endpoint.pattern = .ok none →
      Lowers scope (some endpoint) (endpoint.actionTree scope)) (scope : Scope) :
    Lowers scope (some endpoint) (endpoint.toTree scope) := by
  rw [endpoint.toTree_eq_enter]
  induction scope using Scope.next?_induction endpoint.pattern with
  | fault scope error h =>
      rw [Scope.enter_of_fault h]
      exact .fault h
  | done scope h =>
      rw [Scope.enter_of_done h]
      exact hdone scope h
  | binding scope binding h ih =>
      rw [Scope.enter_of_binding h]
      exact .binding h ih

theorem Page.lowers_toTree (page : Page) (scope : Scope) :
    Lowers scope (some (.page page)) (page.toTree scope) :=
  lowers_enter (.page page) (fun _ h => lowers_action h) scope

mutual

theorem Route.lowers_toTree (route : Route) (scope : Scope) :
    Lowers scope (some (.route route)) (route.toTree scope) := by
  obtain ⟨segment, kind, onward, forward⟩ := route
  refine lowers_enter (.route ⟨segment, kind, onward, forward⟩) ?_ scope
  intro scope h
  cases kind with
  | next => exact .next h (lowers_action h)
  | middleware => exact .middleware h (lowers_continuationTree onward scope)
  | dynamicForward name =>
      exact .dynamicForward h (lowers_continuationTree onward scope)
        (lowers_continuationTree forward scope)
  | staticForward =>
      exact .staticForward h (lowers_continuationTree onward scope)
        (lowers_continuationTree forward scope)
termination_by structural route

theorem Endpoint.lowers_toTree (endpoint : Endpoint) (scope : Scope) :
    Lowers scope (some endpoint) (endpoint.toTree scope) := by
  cases endpoint with
  | route declared => exact declared.lowers_toTree scope
  | page segment => exact segment.lowers_toTree scope
termination_by structural endpoint

theorem lowers_continuationTree (continuation : Option Endpoint) (scope : Scope) :
    Lowers scope continuation (continuationTree scope continuation) := by
  cases continuation with
  | none => exact .missing scope
  | some endpoint => exact endpoint.lowers_toTree scope
termination_by structural continuation

end

/-- Every rule states an equation of the construction. -/
theorem Lowers.continuationTree_eq {continuation : Option Endpoint}
    {result : Except CompileError Tree} (h : Lowers scope continuation result) :
    continuationTree scope continuation = result := by
  have hsome : ∀ (scope : Scope) (endpoint : Endpoint),
      continuationTree scope (some endpoint) =
        scope.enter endpoint.pattern endpoint.actionTree :=
    fun scope endpoint => endpoint.toTree_eq_enter scope
  have hpage : ∀ {scope : Scope} (page : Page), scope.next? page.externalPath = .ok none →
      continuationTree scope (some (.page page)) = .ok page.action :=
    fun page h => Page.toTree_of_done h
  have hroute : ∀ {scope : Scope} {segment : Page} {kind : RouteKind}
      {onward forward : Option Endpoint}, scope.next? segment.externalPath = .ok none →
        continuationTree scope (some (.route ⟨segment, kind, onward, forward⟩)) =
          Route.actionTree ⟨segment, kind, onward, forward⟩ scope :=
    fun h => Route.toTree_of_done h
  induction h with
  | missing scope => rfl
  | fault h => rw [hsome, Scope.enter_of_fault h]
  | binding h hagain ih => rw [hsome, Scope.enter_of_binding h, ← hsome, ih]
  | @next scope segment onward forward result h hlowers ih =>
      rw [hroute h, ← ih, hpage segment h]
      rfl
  | middleware h honward ih =>
      rw [hroute h, ← ih]
      rfl
  | dynamicForward h honward hforward ihOnward ihForward =>
      rw [hroute h, ← ihOnward, ← ihForward]
      rfl
  | staticForward h honward hforward ihOnward ihForward =>
      rw [hroute h, ← ihOnward, ← ihForward]
      rfl
  | external h hexternal => rw [hpage _ h, Page.action_external hexternal]
  | @rewrite scope page result h hexternal hrewrite hmore hrest ih =>
      have hbehind := hpage { page with rewrite := false } h
      rw [hpage page h, ← ih, hbehind, Page.action_rewrite hexternal hrewrite, if_pos hmore]
      rfl
  | rewriteOnly h hexternal hrewrite hmore =>
      rw [hpage _ h, Page.action_rewrite hexternal hrewrite, hmore]
      rfl
  | @redirect scope page result h hexternal hrewrite hredirect hmore hrest ih =>
      have hbehind := hpage { page with redirect := false } h
      rw [hpage page h, ← ih, hbehind, Page.action_redirect hexternal hrewrite hredirect,
        if_pos hmore]
      rfl
  | redirectOnly h hexternal hrewrite hredirect hmore =>
      rw [hpage _ h, Page.action_redirect hexternal hrewrite hredirect, hmore]
      rfl
  | served h hexternal hrewrite hredirect =>
      rw [hpage _ h, Page.action_served hexternal hrewrite hredirect]

/-- The rules give what the construction gives, and nothing else. -/
theorem lowers_iff {continuation : Option Endpoint} {result : Except CompileError Tree} :
    Lowers scope continuation result ↔ continuationTree scope continuation = result := by
  constructor
  · exact Lowers.continuationTree_eq
  · rintro rfl
    exact lowers_continuationTree continuation scope

end Agreement

end RouteTree
