/-!
# Route declarations

A *page* is where a request ends: it may be served from elsewhere, redirected or
rewritten, or be a plain page.  A *route* wraps a page with something that
happens first: a middleware that runs and goes on, or a forward that picks one of
two continuations.  A continuation is again a route or a page, so routes form
trees of any depth.
-/

namespace RouteTree

/-- Where a request ends, or the part of a path that a route stands for. -/
structure Page where
  /-- the pattern of request paths, with named parameters -/
  externalPath : String
  /-- the file or handler that answers -/
  internalPath : String
  /-- where a rewrite, redirect or handler points to -/
  location : Option String := none
  /-- served outside the application -/
  external : Bool := false
  /-- may rewrite the request -/
  rewrite : Bool := false
  /-- may redirect the request -/
  redirect : Bool := false
  /-- has a page of its own behind a rewrite or redirect -/
  page : Bool := false
  deriving DecidableEq, Repr, Inhabited

namespace Page

/-- A plain page that is served at a path. -/
def plain (externalPath internalPath : String) : Page :=
  { externalPath, internalPath, page := true }

/-- The page with a location to point to. -/
def withLocation (page : Page) (location : String) : Page :=
  { page with location := some location }

/-- The page with a rewrite in front. -/
def withRewrite (page : Page) : Page :=
  { page with rewrite := true }

/-- The page with a redirect in front. -/
def withRedirect (page : Page) : Page :=
  { page with redirect := true }

/-- The page served outside the application. -/
def asExternal (page : Page) : Page :=
  { page with external := true }

/-- The page without content of its own: only its rewrite or redirect is left. -/
def withoutPage (page : Page) : Page :=
  { page with page := false }

end Page

/-- What a route does with a request that reaches it. -/
inductive RouteKind where
  /-- ends at the page of its segment -/
  | next
  /-- runs a handler and goes on -/
  | middleware
  /-- asks a handler of the given name which way to go on -/
  | dynamicForward (name : String)
  /-- asks the handler of its segment which way to go on -/
  | staticForward
  deriving DecidableEq, Repr, Inhabited

mutual

/-- A declared route. -/
structure Route where
  /-- the route's own part of the path -/
  segment : Page
  /-- what it does -/
  kind : RouteKind
  /-- where it goes on, if anywhere -/
  onward : Option Endpoint
  /-- where it goes on when a forward is taken -/
  forward : Option Endpoint

/-- What a path key leads to, and what a route goes on with. -/
inductive Endpoint where
  | route (route : Route)
  | page (page : Page)

end

/-! ## Equality of routes is decidable -/

mutual

/-- Routes are equal when all their parts are, continuations included. -/
def Route.decEq : (first second : Route) → Decidable (first = second)
  | ⟨segment₁, kind₁, onward₁, forward₁⟩, ⟨segment₂, kind₂, onward₂, forward₂⟩ =>
    have := decEqContinuation onward₁ onward₂
    have := decEqContinuation forward₁ forward₂
    decidable_of_iff
      (segment₁ = segment₂ ∧ kind₁ = kind₂ ∧ onward₁ = onward₂ ∧ forward₁ = forward₂)
      (by simp)
termination_by structural first => first

/-- A route never equals a page. -/
def Endpoint.decEq : (first second : Endpoint) → Decidable (first = second)
  | .route first, .route second =>
    have := first.decEq second
    decidable_of_iff (first = second) (by simp)
  | .page first, .page second => decidable_of_iff (first = second) (by simp)
  | .route _, .page _ => isFalse (by simp)
  | .page _, .route _ => isFalse (by simp)
termination_by structural first => first

/-- Continuations are compared like any optional endpoint. -/
def decEqContinuation : (first second : Option Endpoint) → Decidable (first = second)
  | none, none => isTrue rfl
  | some first, some second =>
    have := first.decEq second
    decidable_of_iff (first = second) (by simp)
  | none, some _ => isFalse (by simp)
  | some _, none => isFalse (by simp)
termination_by structural first => first

end

instance : DecidableEq Route := Route.decEq

instance : DecidableEq Endpoint := Endpoint.decEq

/-! ## The ways to declare a route -/

namespace Route

/-- The route that ends at a page. -/
def next (segment : Page) : Route :=
  { segment, kind := .next, onward := none, forward := none }

/-- The route that runs a handler and goes on. -/
def middleware (segment : Page) (onward : Option Endpoint) : Route :=
  { segment, kind := .middleware, onward, forward := none }

/-- The route that asks a named handler which way to go on. -/
def dynamicForward (segment : Page) (name : String) (onward forward : Option Endpoint) : Route :=
  { segment, kind := .dynamicForward name, onward, forward }

/-- The route that asks its own handler which way to go on. -/
def staticForward (segment : Page) (onward forward : Option Endpoint) : Route :=
  { segment, kind := .staticForward, onward, forward }

end Route

/-- The route that an endpoint declares: a page stands for the route that ends
at it. -/
def Endpoint.toRoute : Endpoint → Route
  | .route declared => declared
  | .page segment => Route.next segment

end RouteTree
