import RouteTree.Proofs.Collision
import RouteTree.Proofs.Interpretation

/-!
# What a page is reached with

A run that ends at a page has bound the patterns along one way down the route, and nothing
else has touched its parameters.  So an invariant of scope and parameters that binding a
pattern keeps (`Visit.Keeps`) holds at the page: `Route.reachedBy_toTree` says so once for
all invariants.

`Carries` is the invariant for routes of any shape: the parameters in scope are those that
are looked at along the way, and each has its value, `valueAt`.  A dynamic parameter of the
page has been looked at, so it has the one component at its position, unless a catch-all of
its name came before it (`Route.dynamic_at_page`).  A scope holds positions and not what is
bound there, so such a dynamic parameter passes for bound, and the page is given the list
(`docs_page_is_list`).
-/

namespace RouteTree

open RouteTree.Tree (Progress)

/-! ## Invariants of a way down -/

section Arrival

variable {σ : Type} {runtime : Runtime σ} {request : List String}

/-- Binding the pattern of the visit keeps the invariant of the patterns bound so far. -/
def Visit.Keeps (σ : Type) (request : List String)
    (invariant : List String → Scope → Params → Prop) (visit : Visit) : Prop :=
  ∀ (scope inner : Scope) (progress : Progress σ) (bindings : List Binding),
    invariant visit.above scope progress.params →
      scope.bind visit.pattern = .ok (bindings, inner) →
        invariant (visit.above ++ [visit.pattern]) inner
          (progress.bindAll request bindings).params

/-- If the run has ended at a page, then that of one of the visits, and the invariant holds
there. -/
def ReachedBy (invariant : List String → Scope → Params → Prop) (visits : List Visit)
    (result : Outcome × Progress σ) : Prop :=
  ∀ internalPath externalPath after, result = (.next internalPath externalPath, after) →
    ∃ visit ∈ visits, visit.pattern = externalPath ∧
      ∃ scope, invariant (visit.above ++ [visit.pattern]) scope after.params

variable {invariant : List String → Scope → Params → Prop}

theorem ReachedBy.mono {visits more : List Visit} {result : Outcome × Progress σ}
    (h : ReachedBy invariant visits result) (hsubset : visits ⊆ more) :
    ReachedBy invariant more result := by
  intro internalPath externalPath after hresult
  obtain ⟨visit, hvisit, hrest⟩ := h internalPath externalPath after hresult
  exact ⟨visit, hsubset hvisit, hrest⟩

theorem reachedBy_action {page : Page} {above : List String} {scope : Scope}
    {progress : Progress σ}
    (h : invariant (above ++ [page.externalPath]) scope progress.params) :
    ReachedBy invariant [⟨above, page.externalPath⟩]
      (page.action.run runtime request progress) := by
  intro internalPath externalPath after hresult
  rw [Page.run_action] at hresult
  obtain ⟨rfl, hparams⟩ := Page.finish_next hresult
  exact ⟨_, List.mem_singleton_self _, rfl, scope, by rwa [hparams]⟩

/-- Deciding a forward binds nothing, and either way may be taken. -/
theorem reachedBy_forward {progress : Progress σ} {path : String} {onward forward : Tree}
    {onwardVisits forwardVisits : List Visit}
    (honward : ∀ after : Progress σ, after.params = progress.params →
      ReachedBy invariant onwardVisits (onward.run runtime request after))
    (hforward : ∀ after : Progress σ, after.params = progress.params →
      ReachedBy invariant forwardVisits (forward.run runtime request after)) :
    ReachedBy invariant (onwardVisits ++ forwardVisits)
      (match progress.forward runtime path with
        | (true, after) => forward.run runtime request after
        | (false, after) => onward.run runtime request after) := by
  have hparams : (progress.forward runtime path).2.params = progress.params := rfl
  generalize progress.forward runtime path = decided at hparams ⊢
  obtain ⟨taken, after⟩ := decided
  cases taken with
  | true => exact (hforward after hparams).mono (List.subset_append_right ..)
  | false => exact (honward after hparams).mono (List.subset_append_left ..)

theorem Page.reachedBy_toTree {page : Page} {above : List String} {scope : Scope} {tree : Tree}
    (h : page.toTree scope = .ok tree) {progress : Progress σ}
    (hkeeps : Visit.Keeps σ request invariant ⟨above, page.externalPath⟩)
    (hstart : invariant above scope progress.params) :
    ReachedBy invariant [⟨above, page.externalPath⟩] (tree.run runtime request progress) := by
  obtain ⟨bindings, inner, hbind, rfl⟩ := Page.toTree_eq_ok_iff.mp h
  rw [Tree.run_allBefore]
  exact reachedBy_action (hkeeps scope inner progress bindings hstart hbind)

mutual

/-- An invariant that all visits along a route keep holds at the page where its run ends.
The induction is on the route; what one pattern leaves holds for both continuations. -/
theorem Route.reachedBy_toTree (route : Route) {above : List String} {scope : Scope}
    {tree : Tree} (h : route.toTree scope = .ok tree) {progress : Progress σ}
    (hkeeps : ∀ visit ∈ route.visits above, visit.Keeps σ request invariant)
    (hstart : invariant above scope progress.params) :
    ReachedBy invariant (route.visits above) (tree.run runtime request progress) := by
  obtain ⟨bindings, inner, action, hbind, haction, rfl⟩ := Route.exists_actsAs h
  obtain ⟨segment, kind, onward, forward⟩ := route
  have hinner : invariant (above ++ [segment.externalPath]) inner
      (progress.bindAll request bindings).params :=
    hkeeps ⟨above, segment.externalPath⟩ (by simp [Route.visits]) scope inner progress bindings
      hstart hbind
  rw [Tree.run_allBefore]
  cases haction with
  | next => exact (reachedBy_action hinner).mono (by simp [Route.visits])
  | middleware honward =>
      simp only [Route.visits, List.forall_mem_cons] at hkeeps
      rw [Tree.run]
      refine ReachedBy.mono ?_ (List.subset_cons_self ..)
      exact reachedBy_continuationTree onward honward hkeeps.2 hinner
  | forward honward hforward hforwards =>
      have hvisits : Route.visits above ⟨segment, kind, onward, forward⟩ =
          ⟨above, segment.externalPath⟩ ::
            (continuationVisits (above ++ [segment.externalPath]) onward ++
              continuationVisits (above ++ [segment.externalPath]) forward) := by
        cases hforwards <;> rfl
      rw [hvisits] at hkeeps ⊢
      obtain ⟨-, hkeeps⟩ := List.forall_mem_cons.mp hkeeps
      obtain ⟨honwardKeeps, hforwardKeeps⟩ := List.forall_mem_append.mp hkeeps
      rw [hforwards.run]
      refine (reachedBy_forward ?_ ?_).mono (List.subset_cons_self ..)
      · intro after hparams
        exact reachedBy_continuationTree onward honward honwardKeeps (hparams ▸ hinner)
      · intro after hparams
        exact reachedBy_continuationTree forward hforward hforwardKeeps (hparams ▸ hinner)
termination_by structural route

theorem Endpoint.reachedBy_toTree (endpoint : Endpoint) {above : List String} {scope : Scope}
    {tree : Tree} (h : endpoint.toTree scope = .ok tree) {progress : Progress σ}
    (hkeeps : ∀ visit ∈ endpoint.visits above, visit.Keeps σ request invariant)
    (hstart : invariant above scope progress.params) :
    ReachedBy invariant (endpoint.visits above) (tree.run runtime request progress) := by
  cases endpoint with
  | route declared => exact declared.reachedBy_toTree h hkeeps hstart
  | page segment =>
      exact segment.reachedBy_toTree h (hkeeps _ (List.mem_singleton_self _)) hstart
termination_by structural endpoint

theorem reachedBy_continuationTree (continuation : Option Endpoint) {above : List String}
    {scope : Scope} {tree : Tree} (h : continuationTree scope continuation = .ok tree)
    {progress : Progress σ}
    (hkeeps : ∀ visit ∈ continuationVisits above continuation,
      visit.Keeps σ request invariant)
    (hstart : invariant above scope progress.params) :
    ReachedBy invariant (continuationVisits above continuation)
      (tree.run runtime request progress) := by
  cases continuation with
  | none =>
      cases h
      intro internalPath externalPath after hresult
      simp [Tree.run] at hresult
  | some endpoint => exact endpoint.reachedBy_toTree h hkeeps hstart
termination_by structural continuation

end

end Arrival

/-! ## What the parameters in scope are bound to -/

/-- What a name is bound to at a position, after these parameters: all components from there
on if a catch-all of the name is among them, and else the one component there. -/
def valueAt (bound : List Binding) (request : List String) (name : String) (index : Nat) :
    Param :=
  if .catchAll name index ∈ bound then .rest (request.drop index)
  else .single (request[index]?.getD "")

/-- The scope holds these parameters, and each has its value. -/
structure Carries (request : List String) (bound : List Binding) (scope : Scope)
    (params : Params) : Prop where
  binds : scope.Binds bound
  value : ∀ name index, scope.index? name = some index →
    params.get? name = some (valueAt bound request name index)

namespace Carries

variable {σ : Type} {request : List String} {bound : List Binding} {scope : Scope}
  {progress : Progress σ}

/-- A dynamic parameter changes no value but its own. -/
theorem valueAt_dynamic (bound : List Binding) (request : List String) (added name : String)
    (position index : Nat) :
    valueAt (bound ++ [.dynamic added position]) request name index =
      valueAt bound request name index := by
  simp [valueAt]

theorem dynamic {name : String} {index : Nat}
    (h : Carries request bound scope progress.params) (hnew : scope.index? name = none) :
    Carries request (bound ++ [.dynamic name index]) (scope.add (.dynamic name index))
      (progress.bind name (.single (request[index]?.getD ""))).params := by
  refine ⟨h.binds.add (.dynamic name index) (Or.inl hnew), ?_⟩
  intro other position hposition
  rw [Scope.index?_add] at hposition
  rw [valueAt_dynamic, Progress.bind, Params.get?_insert]
  by_cases hname : other = name
  · subst hname
    obtain rfl : index = position := by simpa [Binding.name, Binding.index] using hposition
    -- nothing of this name is among the parameters yet
    have habsent : .catchAll other index ∉ bound := by
      intro hmem
      have hindex := (h.binds.index other index).mpr ⟨_, hmem, rfl, rfl⟩
      rw [hnew] at hindex
      cases hindex
    simp [valueAt, habsent]
  · rw [if_neg hname]
    exact h.value other position (by simpa [Binding.name, hname] using hposition)

theorem catchAll {name : String} {index : Nat}
    (h : Carries request bound scope progress.params)
    (hfree : scope.index? name = none ∨ scope.index? name = some index) :
    Carries request (bound ++ [.catchAll name index]) (scope.add (.catchAll name index))
      (progress.bind name (.rest (request.drop index))).params := by
  refine ⟨h.binds.add (.catchAll name index) hfree, ?_⟩
  intro other position hposition
  rw [Scope.index?_add] at hposition
  rw [Progress.bind, Params.get?_insert]
  by_cases hname : other = name
  · subst hname
    obtain rfl : index = position := by simpa [Binding.name, Binding.index] using hposition
    simp [valueAt]
  · rw [if_neg hname, h.value other position (by simpa [Binding.name, hname] using hposition)]
    simp [valueAt, hname]

/-- Binding a segment keeps the values. -/
theorem bindingOf (h : Carries request bound scope progress.params) {pattern : String}
    {index : Nat} {segment : Segment} {found : Option Binding}
    (hfound : scope.bindingOf pattern index segment = .ok found) :
    Carries request (bound ++ checked scope.hasCatchAll (segment.binding? index).toList)
      (scope.extend found) (progress.bindAll request found.toList).params := by
  cases segment with
  | literal text =>
      cases hfound
      simpa [Segment.binding?, checked] using h
  | dynamic name =>
      rw [Segment.binding?, Option.toList_some, checked_dynamic]
      obtain ⟨-, ⟨hnew, rfl⟩ | ⟨hbound, rfl⟩⟩ := Scope.bindingOf_dynamic_eq_ok_iff.mp hfound
      · exact h.dynamic hnew
      · refine ⟨h.binds.mention hbound, fun other position hposition => ?_⟩
        rw [valueAt_dynamic]
        exact h.value other position hposition
  | catchAll name =>
      obtain ⟨hheld, rfl⟩ | ⟨hheld, -, hfree, rfl⟩ :=
        Scope.bindingOf_catchAll_eq_ok_iff.mp hfound
      · simpa [Segment.binding?, checked, hheld, Binding.isCatchAll] using h
      · rw [Segment.binding?, Option.toList_some, hheld]
        exact h.catchAll hfree

/-- Binding segments, from any position on, keeps the values. -/
theorem bindFrom {pattern : String} {rest : List Segment} {inner : Scope} {index : Nat}
    {bindings : List Binding} (h : Carries request bound scope progress.params)
    (hbind : Scope.bindFrom pattern scope index rest = .ok (bindings, inner)) :
    Carries request (bound ++ checked scope.hasCatchAll (parametersFrom index rest)) inner
      (progress.bindAll request bindings).params := by
  induction rest generalizing scope bound index bindings progress with
  | nil =>
      cases hbind
      simpa [parametersFrom, checked] using h
  | cons segment rest ih =>
      obtain ⟨found, more, hfound, hmore, rfl⟩ := Scope.bindFrom_cons_eq_ok_iff.mp hbind
      have hrest := ih (h.bindingOf hfound) hmore
      rwa [h.binds.hasCatchAll_extend hfound, List.append_assoc, ← checked_append,
        ← Progress.bindAll_append] at hrest

/-- Every visit keeps the values. -/
theorem keeps (request : List String) (visit : Visit) :
    visit.Keeps σ request fun patterns => Carries request (boundAlong patterns) := by
  intro scope inner progress bindings hstart hbind
  have hinner := Carries.bindFrom hstart (Scope.bind_eq_ok_iff.mp hbind).2
  rw [hstart.binds.catchAll] at hinner
  rw [visit.boundAlong_concat]
  exact hinner

end Carries

/-! ## Dynamic parameters at the page -/

/-- **A dynamic parameter is given as the component at its position, unless a catch-all of
its name came first.**  When the run of a route's tree ends at a page, the page was met on
one way down the route.  Each dynamic parameter of its pattern then has its value there: the
list of the components from its position on, if the patterns above have a catch-all of that
name at that position, and else the one component, which is the empty one past the end. -/
theorem Route.dynamic_at_page (route : Route) {tree : Tree}
    (hlowered : route.toTree .empty = .ok tree) (path : String) {σ : Type}
    (runtime : Runtime σ) (state : σ) {internalPath externalPath : String} {params : Params}
    {handlers : List String} {after : σ}
    (hnext : tree.evaluate path runtime state =
      (⟨.next internalPath externalPath, params, handlers⟩, after)) :
    ∃ visit ∈ route.visits [], visit.pattern = externalPath ∧
      ∀ name index, .dynamic name index ∈ parameters externalPath →
        params.get? name = some (valueAt visit.bound (components path) name index) := by
  have hstart : Carries (components path) (boundAlong []) .empty .empty :=
    ⟨Scope.Binds.empty, fun _ _ h => nomatch h⟩
  have hreached : ReachedBy (fun patterns => Carries (components path) (boundAlong patterns))
      (route.visits []) (tree.run runtime (components path) { state }) :=
    route.reachedBy_toTree hlowered (fun visit _ => Carries.keeps (components path) visit) hstart
  cases hrun : tree.run runtime (components path) { state } with
  | mk outcome progress =>
      simp only [Tree.evaluate, hrun, Prod.mk.injEq, Resolution.mk.injEq] at hnext
      obtain ⟨⟨rfl, rfl, -⟩, -⟩ := hnext
      obtain ⟨visit, hvisit, rfl, scope, hcarries⟩ := hreached _ _ _ hrun
      refine ⟨visit, hvisit, rfl, fun name index hmem => ?_⟩
      rw [visit.boundAlong_concat] at hcarries
      have hadded : .dynamic name index ∈ visit.added := mem_checked_of_dynamic hmem
      have hindex : scope.index? name = some index :=
        (hcarries.binds.index name index).mpr
          ⟨_, List.mem_append_right _ hadded, rfl, rfl⟩
      -- the pattern itself has the dynamic parameter there, and so no catch-all
      have hother : .catchAll name index ∉ visit.added := by
        intro hcatchAll
        cases parameters_unique hmem (mem_of_mem_checked hcatchAll) rfl
      rw [hcarries.value name index hindex]
      simp [valueAt, hother]

/-- A page that shares a parameter with the pattern above it. -/
def Route.shop : Route :=
  .middleware (.plain "/:shop/*rest/" "auth")
    (some (.page (.plain "/:shop/:item/" "item")))

theorem Route.dynamic_at_page_shop :
    ∃ tree params, Route.shop.toTree .empty = .ok tree ∧
      tree.evaluate "/acme/lamp" .passthrough () =
        (⟨.next "item" "/:shop/:item/", params, ["auth"]⟩, ()) ∧
      ∃ visit ∈ Route.shop.visits [], visit.pattern = "/:shop/:item/" ∧
        ∀ name index, .dynamic name index ∈ parameters "/:shop/:item/" →
          params.get? name =
            some (valueAt visit.bound (components "/acme/lamp") name index) := by
  obtain ⟨tree, hlowered⟩ :=
    exists_ok_of_isOk (show (Route.shop.toTree .empty).isOk = true by decide +kernel)
  have hnext : ((Route.shop.toTree .empty).toOption.map fun tree =>
      tree.evaluate "/acme/lamp" .passthrough ()) =
        some (⟨.next "item" "/:shop/:item/", ⟨[("item", .single "lamp"),
          ("rest", .rest ["lamp"]), ("shop", .single "acme")]⟩, ["auth"]⟩, ()) := by
    decide +kernel
  rw [hlowered] at hnext
  have hnext := Option.some.inj hnext
  exact ⟨tree, _, hlowered, hnext, Route.shop.dynamic_at_page hlowered _ _ _ hnext⟩

/-- A catch-all, and below it a page with a dynamic parameter of the same name in the same
position. -/
def Route.docs : Route :=
  .middleware (.plain "/docs/*page/" "docs/middleware")
    (some (.page (.plain "/docs/:page/" "docs/[page]")))

/-- The dynamic parameter passes for bound, and the page gets the list of the catch-all. -/
theorem Route.docs_page_is_list :
    ∃ tree params, Route.docs.toTree .empty = .ok tree ∧
      tree.evaluate "/docs/intro" .passthrough () =
        (⟨.next "docs/[page]" "/docs/:page/", params, ["docs/middleware"]⟩, ()) ∧
      .dynamic "page" 1 ∈ parameters "/docs/:page/" ∧
      params.get? "page" = some (.rest ["intro"]) := by
  obtain ⟨tree, hlowered⟩ :=
    exists_ok_of_isOk (show (Route.docs.toTree .empty).isOk = true by decide +kernel)
  have hnext : ((Route.docs.toTree .empty).toOption.map fun tree =>
      tree.evaluate "/docs/intro" .passthrough ()) =
        some (⟨.next "docs/[page]" "/docs/:page/", ⟨[("page", .rest ["intro"])]⟩,
          ["docs/middleware"]⟩, ()) := by decide +kernel
  rw [hlowered] at hnext
  exact ⟨tree, _, hlowered, Option.some.inj hnext, by decide +kernel, by decide +kernel⟩

end RouteTree
