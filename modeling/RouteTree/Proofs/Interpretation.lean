import RouteTree.Proofs.Binding
import RouteTree.Proofs.KeyAddress
import RouteTree.Proofs.Lowering

/-!
# Routes, followed directly

A route can be followed without a tree: bind the parameters of its pattern, do what its
kind says, and go on with a continuation.  `Route.follow` does that.  Its traveller
carries what a construction carries (the names bound so far with their positions, and
whether a catch-all is among them) together with what a run carries, and never fails: a
name that is bound already is skipped, whatever position it has.

`Endpoint.run_toTree` shows that a tree, wherever one can be constructed, does to every
request and every runtime what following the route does.  The construction hands its
scope down before any request is known and the traveller takes the same scope along; that
both bind the same values in the same order is `enter_eq_of_bind`, and the rest is one
case for each kind of route.
-/

namespace RouteTree

open RouteTree.Tree (Progress)

/-- What is carried along a route: what is bound, and how far the request has come. -/
structure Traveller (σ : Type) where
  scope : Scope
  progress : Progress σ

namespace Traveller

variable {σ : Type}

def make (traveller : Traveller σ) (request : List String) (binding : Binding) :
    Traveller σ where
  scope := traveller.scope.add binding
  progress := traveller.progress.bind binding.name (binding.value request)

/-- Binds the parameters of the dynamic segments from left to right, each to the
component at its position, unless its name is bound. -/
def bindDynamics (traveller : Traveller σ) (request : List String) (index : Nat) :
    List Segment → Traveller σ
  | [] => traveller
  | .dynamic name :: rest =>
    if (traveller.scope.index? name).isSome then
      traveller.bindDynamics request (index + 1) rest
    else (traveller.make request (.dynamic name index)).bindDynamics request (index + 1) rest
  | _ :: rest => traveller.bindDynamics request (index + 1) rest

/-- Binds the parameter of a catch-all at the end of a pattern to the components from its
position on, unless a catch-all is bound. -/
def bindCatchAll (traveller : Traveller σ) (request : List String) (index : Nat)
    (pattern : List Segment) : Traveller σ :=
  match pattern.getLast? with
  | some (.catchAll name) =>
    if traveller.scope.hasCatchAll then traveller
    else traveller.make request (.catchAll name (index + pattern.length - 1))
  | _ => traveller

/-- Binds the segments of a pattern that starts at a position: the dynamic ones first,
then a final catch-all. -/
def enterAt (traveller : Traveller σ) (request : List String) (index : Nat)
    (pattern : List Segment) : Traveller σ :=
  (traveller.bindDynamics request index pattern).bindCatchAll request index pattern

def enter (traveller : Traveller σ) (request : List String) (pattern : String) : Traveller σ :=
  traveller.enterAt request 0 (segments pattern)

end Traveller

/-! ## Following pages and routes -/

section Following

variable {σ : Type} (runtime : Runtime σ) (request : List String)

/-- What a page does once its parameters are bound.  Its rewrite is asked for first, and
its redirect where there is no rewrite or it is refused.  Where nothing has answered, the
page itself does, if it has content of its own or nothing was asked. -/
def Page.finish (page : Page) (progress : Progress σ) : Outcome × Progress σ :=
  if page.external then (.external, progress)
  else
    let (rewritten, progress) :=
      if page.rewrite then progress.rewrite runtime page.internalPath else (false, progress)
    if rewritten then (.rewrite page.internalPath page.location, progress)
    else
      let (redirected, progress) :=
        if page.redirect then progress.redirect runtime page.internalPath else (false, progress)
      if redirected then (.redirect page.internalPath page.location, progress)
      else if page.page || !(page.rewrite || page.redirect) then
        (.next page.internalPath page.externalPath, progress)
      else (.notFound, progress)

def Page.follow (traveller : Traveller σ) (page : Page) : Outcome × Progress σ :=
  page.finish runtime (traveller.enter request page.externalPath).progress

mutual

/-- Follows a route.  A route that ends at its page does not look at its
continuations. -/
def Route.follow (traveller : Traveller σ) : Route → Outcome × Progress σ
  | ⟨segment, kind, onward, forward⟩ =>
    let traveller := traveller.enter request segment.externalPath
    match kind with
    | .next => segment.finish runtime traveller.progress
    | .middleware =>
      followContinuation
        { traveller with progress := traveller.progress.middleware runtime segment.internalPath }
        onward
    | .dynamicForward _ | .staticForward =>
      match traveller.progress.forward runtime segment.internalPath with
      | (true, progress) => followContinuation { traveller with progress } forward
      | (false, progress) => followContinuation { traveller with progress } onward
termination_by structural route => route

/-- Follows a route or a page. -/
def Endpoint.follow (traveller : Traveller σ) : Endpoint → Outcome × Progress σ
  | .route declared => declared.follow traveller
  | .page segment => segment.follow runtime request traveller
termination_by structural endpoint => endpoint

/-- Follows a continuation; a missing one ends without an answer. -/
def followContinuation (traveller : Traveller σ) : Option Endpoint → Outcome × Progress σ
  | none => (.notFound, traveller.progress)
  | some endpoint => endpoint.follow traveller
termination_by structural endpoint => endpoint

end

end Following

/-! ## Entering a pattern binds what the construction binds -/

namespace Tree.Progress

theorem bindAll_append {σ : Type} (progress : Progress σ) (request : List String)
    (first second : List Binding) :
    progress.bindAll request (first ++ second) =
      (progress.bindAll request first).bindAll request second :=
  List.foldl_append

end Tree.Progress

namespace Traveller

variable {σ : Type}

theorem bindDynamics_cons (traveller : Traveller σ) (request : List String) (index : Nat)
    (segment : Segment) (rest : List Segment) :
    traveller.bindDynamics request index (segment :: rest) =
      (traveller.bindDynamics request index [segment]).bindDynamics request (index + 1) rest := by
  cases segment with
  | literal text => rfl
  | catchAll name => rfl
  | dynamic name =>
      simp only [bindDynamics]
      split <;> rfl

theorem enterAt_cons (traveller : Traveller σ) (request : List String) (index : Nat)
    (segment : Segment) {rest : List Segment} (hmore : rest ≠ []) :
    traveller.enterAt request index (segment :: rest) =
      (traveller.bindDynamics request index [segment]).enterAt request (index + 1) rest := by
  obtain ⟨next, others, rfl⟩ := List.exists_cons_of_ne_nil hmore
  have hposition : index + (segment :: next :: others).length - 1 =
      index + 1 + (next :: others).length - 1 := by
    simp only [List.length_cons]
    omega
  rw [enterAt, enterAt, bindDynamics_cons, bindCatchAll, bindCatchAll, List.getLast?_cons_cons,
    hposition]

theorem bindDynamics_singleton {scope : Scope} {pattern : String} {index : Nat}
    {segment : Segment} {found : Option Binding} (hsegment : segment.isCatchAll = false)
    (hfound : scope.bindingOf pattern index segment = .ok found) (progress : Progress σ)
    (request : List String) :
    (Traveller.mk scope progress).bindDynamics request index [segment] =
      ⟨scope.extend found, progress.bindAll request found.toList⟩ := by
  cases segment with
  | literal text =>
      cases hfound
      rfl
  | catchAll name => cases hsegment
  | dynamic name =>
      obtain ⟨-, ⟨hnew, rfl⟩ | ⟨hbound, rfl⟩⟩ := Scope.bindingOf_dynamic_eq_ok_iff.mp hfound
      · simp [bindDynamics, hnew, make]
      · simp [bindDynamics, hbound]

theorem enterAt_catchAll {scope : Scope} {pattern name : String} {index : Nat}
    {found : Option Binding}
    (hfound : scope.bindingOf pattern index (.catchAll name) = .ok found)
    (progress : Progress σ) (request : List String) :
    (Traveller.mk scope progress).enterAt request index [.catchAll name] =
      ⟨scope.extend found, progress.bindAll request found.toList⟩ := by
  obtain ⟨hbound, rfl⟩ | ⟨hfree, -, -, rfl⟩ := Scope.bindingOf_catchAll_eq_ok_iff.mp hfound
  · simp [enterAt, bindDynamics, bindCatchAll, hbound]
  · simp [enterAt, bindDynamics, bindCatchAll, hfree, make]

/-- Entering the rest of a pattern makes the bindings that the construction finds in it.
The induction is on the segments; the scope of the construction is that of the traveller
at every position. -/
theorem enterAt_eq_of_bindFrom {pattern : String} {rest : List Segment} {scope inner : Scope}
    {index : Nat} {bindings : List Binding} (hlast : hasMisplacedCatchAll rest = false)
    (hbind : Scope.bindFrom pattern scope index rest = .ok (bindings, inner))
    (progress : Progress σ) (request : List String) :
    (Traveller.mk scope progress).enterAt request index rest =
      ⟨inner, progress.bindAll request bindings⟩ := by
  induction rest generalizing scope index bindings progress with
  | nil =>
      cases hbind
      rfl
  | cons segment rest ih =>
      obtain ⟨found, more, hfound, hrest, rfl⟩ := Scope.bindFrom_cons_eq_ok_iff.mp hbind
      rw [Tree.Progress.bindAll_append]
      by_cases hmore : rest = []
      · -- the last segment, and the only one that may be a catch-all
        subst hmore
        cases hrest
        cases hsegment : segment.isCatchAll with
        | true =>
            cases segment with
            | catchAll name => exact enterAt_catchAll hfound progress request
            | _ => cases hsegment
        | false =>
            rw [enterAt, bindDynamics_singleton hsegment hfound]
            cases segment with
            | catchAll name => cases hsegment
            | _ => rfl
      · obtain ⟨hsegment, hrestLast⟩ := (hasMisplacedCatchAll_cons hmore).mp hlast
        rw [enterAt_cons _ _ _ _ hmore, bindDynamics_singleton hsegment hfound,
          ih hrestLast hrest]

theorem enter_eq_of_bind {scope inner : Scope} {pattern : String} {bindings : List Binding}
    (hbind : scope.bind pattern = .ok (bindings, inner)) (progress : Progress σ)
    (request : List String) :
    (Traveller.mk scope progress).enter request pattern =
      ⟨inner, progress.bindAll request bindings⟩ := by
  obtain ⟨hlast, hbind⟩ := Scope.bind_eq_ok_iff.mp hbind
  exact enterAt_eq_of_bindFrom hlast hbind progress request

end Traveller

/-! ## Trees do what following does -/

section Agreement

variable {σ : Type} {runtime : Runtime σ} {request : List String}

/-- A page that is not rewritten: its redirect is asked for, and then the page answers. -/
theorem Page.run_redirectAction (page : Page) (progress : Progress σ) :
    page.redirectAction.run runtime request progress =
      let (redirected, after) :=
        if page.redirect then progress.redirect runtime page.internalPath else (false, progress)
      if redirected then (.redirect page.internalPath page.location, after)
      else if page.page || !page.redirect then
        (.next page.internalPath page.externalPath, after)
      else (.notFound, after) := by
  unfold Page.redirectAction
  cases hredirect : page.redirect with
  | false => simp [Tree.run]
  | true =>
      rcases hasked : progress.redirect runtime page.internalPath with ⟨redirected, after⟩
      cases redirected <;> cases hpage : page.page <;> simp [Tree.run, hasked]

theorem Page.run_action (page : Page) (progress : Progress σ) :
    page.action.run runtime request progress = page.finish runtime progress := by
  unfold Page.action Page.finish
  cases hexternal : page.external with
  | true => simp [Tree.run]
  | false =>
      cases hrewrite : page.rewrite with
      | false => simpa using Page.run_redirectAction page progress
      | true =>
          rcases hasked : progress.rewrite runtime page.internalPath with ⟨rewritten, after⟩
          cases rewritten with
          | true => simp [Tree.run, hasked]
          | false =>
              cases hredirect : page.redirect <;> cases hpage : page.page <;>
                simp [Tree.run, hasked, Page.run_redirectAction, hredirect, hpage]

/-- A page that answers answers with its own pattern, and asking the runtime binds
nothing. -/
theorem Page.finish_next {page : Page} {progress after : Progress σ}
    {internalPath externalPath : String}
    (h : page.finish runtime progress = (.next internalPath externalPath, after)) :
    externalPath = page.externalPath ∧ after.params = progress.params := by
  rcases hrewrite : (if page.rewrite then progress.rewrite runtime page.internalPath
    else (false, progress)) with ⟨rewritten, middle⟩
  rcases hredirect : (if page.redirect then middle.redirect runtime page.internalPath
    else (false, middle)) with ⟨redirected, last⟩
  have hmiddle : middle.params = progress.params := by
    split at hrewrite <;> cases hrewrite <;> rfl
  have hlast : last.params = middle.params := by
    split at hredirect <;> cases hredirect <;> rfl
  simp only [Page.finish, hrewrite, hredirect] at h
  -- of the five ways in which a page can end, one is at itself
  split at h
  · cases h
  · split at h
    · cases h
    · split at h
      · cases h
      · split at h
        · cases h
          exact ⟨rfl, hlast.trans hmiddle⟩
        · cases h

theorem Page.run_toTree {page : Page} {scope : Scope} {tree : Tree}
    (h : page.toTree scope = .ok tree) (progress : Progress σ) :
    tree.run runtime request progress = page.follow runtime request ⟨scope, progress⟩ := by
  obtain ⟨bindings, inner, hbind, rfl⟩ := Page.toTree_eq_ok_iff.mp h
  rw [Tree.run_allBefore, Page.run_action, Page.follow, Traveller.enter_eq_of_bind hbind]

/-- Both kinds of forward ask the runtime which way to go on. -/
theorem Forwards.run {segment : Page} {onward forward action : Tree} {kind : RouteKind}
    (h : Forwards segment onward forward kind action) (progress : Progress σ) :
    action.run runtime request progress =
      match progress.forward runtime segment.internalPath with
      | (true, after) => forward.run runtime request after
      | (false, after) => onward.run runtime request after := by
  rcases hasked : progress.forward runtime segment.internalPath with ⟨taken, after⟩
  cases h <;> cases taken <;> simp only [Tree.run, hasked]

mutual

theorem Route.run_toTree (route : Route) {scope : Scope} {tree : Tree}
    (h : route.toTree scope = .ok tree) (progress : Progress σ) :
    tree.run runtime request progress = route.follow runtime request ⟨scope, progress⟩ := by
  obtain ⟨bindings, inner, action, hbind, haction, rfl⟩ := Route.exists_actsAs h
  obtain ⟨segment, kind, onward, forward⟩ := route
  have henter := Traveller.enter_eq_of_bind hbind progress request
  rw [Tree.run_allBefore]
  cases haction with
  | next => simp only [Route.follow, henter, Page.run_action]
  | middleware hlowered =>
      simp only [Route.follow, henter, Tree.run]
      exact run_continuationTree onward hlowered _
  | forward honward hforward hforwards =>
      rw [hforwards.run]
      cases hforwards <;> simp only [Route.follow, henter]
      all_goals
        split
        · exact run_continuationTree forward hforward _
        · exact run_continuationTree onward honward _
termination_by structural route

theorem Endpoint.run_toTree (endpoint : Endpoint) {scope : Scope} {tree : Tree}
    (h : endpoint.toTree scope = .ok tree) (progress : Progress σ) :
    tree.run runtime request progress = endpoint.follow runtime request ⟨scope, progress⟩ := by
  cases endpoint with
  | route declared => exact declared.run_toTree h progress
  | page segment => exact Page.run_toTree h progress
termination_by structural endpoint

theorem run_continuationTree (continuation : Option Endpoint) {scope : Scope} {tree : Tree}
    (h : continuationTree scope continuation = .ok tree) (progress : Progress σ) :
    tree.run runtime request progress =
      followContinuation runtime request ⟨scope, progress⟩ continuation := by
  cases continuation with
  | none =>
      cases h
      simp [Tree.run, followContinuation]
  | some endpoint => exact endpoint.run_toTree h progress
termination_by structural continuation

end

end Agreement

/-- Resolves a request path by following an endpoint: the answer, and what the runtime
remembers after it. -/
def Endpoint.answer {σ : Type} (endpoint : Endpoint) (path : String) (runtime : Runtime σ)
    (state : σ) : Resolution × σ :=
  let (outcome, progress) :=
    endpoint.follow runtime (components path) ⟨.empty, { state }⟩
  (⟨outcome, progress.params, progress.handlers⟩, progress.state)

/-- **Lowering preserves meaning.**  The tree of an endpoint, in whatever scope it was
constructed, does to a request what following the endpoint from that scope does: it ends
in the same way, with the same parameters and handlers and the same runtime behind it,
wherever the request had come before.  Where nothing was bound, the tree gives the answer
of the endpoint. -/
theorem Endpoint.lowering_preserves_meaning (endpoint : Endpoint) {scope : Scope} {tree : Tree}
    (hlowered : endpoint.toTree scope = .ok tree) (path : String) {σ : Type}
    (runtime : Runtime σ) :
    (∀ progress, tree.run runtime (components path) progress =
      endpoint.follow runtime (components path) ⟨scope, progress⟩) ∧
    (scope = .empty → ∀ state,
      tree.evaluate path runtime state = endpoint.answer path runtime state) := by
  have hrun : ∀ progress, tree.run runtime (components path) progress =
      endpoint.follow runtime (components path) ⟨scope, progress⟩ :=
    fun progress => endpoint.run_toTree hlowered progress
  refine ⟨hrun, ?_⟩
  rintro rfl state
  unfold Tree.evaluate Endpoint.answer
  rw [hrun]

/-- A middleware in front of a forward, whose two continuations share a parameter with it
and add a catch-all each on its own; the continuation that is taken may rewrite. -/
def Endpoint.tenant : Endpoint :=
  .route (.middleware (.plain "/:tenant/" "auth")
    (some (.route (.staticForward (.plain "/:tenant/" "pick")
      (some (.page (.plain "/:tenant/*rest/" "files")))
      (some (.page (.withRewrite (.plain "/:tenant/:file/*more/" "raw"))))))))

/-- The forward is taken and the rewrite refused. -/
theorem Endpoint.lowering_preserves_meaning_tenant :
    ∃ tree, Endpoint.tenant.toTree .empty = .ok tree ∧
      tree.evaluate "/acme/a/b/c" (.recording (fun _ => true) (fun _ => false) (fun _ => false))
          [] =
        Endpoint.tenant.answer "/acme/a/b/c"
          (.recording (fun _ => true) (fun _ => false) (fun _ => false)) [] := by
  obtain ⟨tree, hlowered⟩ :=
    exists_ok_of_isOk (show (Endpoint.tenant.toTree .empty).isOk = true by decide +kernel)
  exact ⟨tree, hlowered,
    (Endpoint.tenant.lowering_preserves_meaning hlowered "/acme/a/b/c" _).2 rfl []⟩

end RouteTree
