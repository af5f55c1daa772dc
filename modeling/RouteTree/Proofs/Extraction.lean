import RouteTree.Proofs.Arrival
import RouteTree.Proofs.Selection

/-!
# Parameters give the request back

The parameters of a route are bound at positions that come from the patterns along its
chain, while the route was chosen by its path key.  The two agree where all patterns of
the chain begin a single pattern `full` that has the shape of the key.

`Tracks` is the invariant along such a chain: a name in scope stands for a parameter of
`full`, at its position there, and is bound to what the request has at that position.
`Tracks.bindFrom` shows that binding the beginning of `full` keeps it, so it holds at the
page where a run ends (`Route.reachedBy_toTree`).  There `Fits.exists_substitute` turns the
parameters back into components.
-/

namespace RouteTree

open RouteTree.Tree (Progress)

/-! ## What is bound along a chain -/

/-- What is in scope are parameters of the pattern `full`, at their positions, and they
are bound to what the request has there. -/
structure Tracks (full : List Segment) (request : List String) (scope : Scope)
    (params : Params) : Prop where
  /-- the pattern ends at its catch-all, if it has one -/
  last : ∀ index name, full[index]? = some (.catchAll name) → index + 1 = full.length
  bound : ∀ name index, scope.index? name = some index →
    ∃ segment binding, full[index]? = some segment ∧
      segment.binding? index = some binding ∧ binding.name = name ∧
        params.get? name = some (binding.value request)
  catchAll : scope.hasCatchAll = true →
    ∃ name index, full[index]? = some (.catchAll name) ∧ scope.index? name = some index

/-- The parameter of the segment is in scope, at this position. -/
def Scope.Has (scope : Scope) (index : Nat) (segment : Segment) : Prop :=
  ∀ binding, segment.binding? index = some binding → scope.index? binding.name = some index

/-- Every name keeps its position. -/
def Scope.Extends (outer inner : Scope) : Prop :=
  ∀ name index, outer.index? name = some index → inner.index? name = some index

theorem Scope.Extends.has {outer inner : Scope} (hextends : outer.Extends inner) {index : Nat}
    {segment : Segment} (hhas : outer.Has index segment) : inner.Has index segment :=
  fun binding hbinding => hextends _ _ (hhas binding hbinding)

/-- A new binding, or one for the same position, moves no name. -/
theorem Scope.extends_add {scope : Scope} {binding : Binding}
    (hfree : scope.index? binding.name = none ∨
      scope.index? binding.name = some binding.index) :
    scope.Extends (scope.add binding) := by
  intro name index hbound
  rw [index?_add]
  split
  · rename_i hname
    subst hname
    simpa [hbound, eq_comm] using hfree
  · exact hbound

namespace Tracks

variable {full : List Segment} {request : List String} {scope : Scope} {params : Params}

theorem empty
    (hlast : ∀ index name, full[index]? = some (.catchAll name) → index + 1 = full.length) :
    Tracks full request .empty params :=
  ⟨hlast, fun _ _ h => (nomatch h), fun h => (nomatch h)⟩

/-- What is in scope for a position of `full` is bound to what stands there. -/
theorem get?_of_has (htracks : Tracks full request scope params) {index : Nat}
    {segment : Segment} (hsegment : full[index]? = some segment)
    (hhas : scope.Has index segment) {binding : Binding}
    (hbinding : segment.binding? index = some binding) :
    params.get? binding.name = some (binding.value request) := by
  obtain ⟨segment', binding', hsegment', hbinding', hname, hvalue⟩ :=
    htracks.bound _ _ (hhas binding hbinding)
  obtain rfl : segment = segment' := by simpa [hsegment] using hsegment'
  obtain rfl : binding = binding' := by simpa [hbinding] using hbinding'
  exact hvalue

/-- A parameter of `full` that is bound at its position is tracked. -/
theorem add (htracks : Tracks full request scope params) {index : Nat} {segment : Segment}
    (hsegment : full[index]? = some segment) {binding : Binding}
    (hbinding : segment.binding? index = some binding)
    (hfree : scope.index? binding.name = none ∨
      scope.index? binding.name = some binding.index) :
    Tracks full request (scope.add binding)
      (params.insert binding.name (binding.value request)) := by
  have hindex := Segment.index_of_binding? hbinding
  refine ⟨htracks.last, ?_, ?_⟩
  · intro name bound hbound
    rw [Scope.index?_add] at hbound
    rw [Params.get?_insert]
    by_cases hname : name = binding.name
    · obtain rfl : index = bound := by simpa [hname, hindex] using hbound
      exact ⟨segment, binding, hsegment, hbinding, hname.symm, by simp [hname]⟩
    · rw [if_neg hname] at hbound
      simpa [hname] using htracks.bound name bound hbound
  · intro hcatchAll
    cases segment with
    | literal text => cases hbinding
    | dynamic name =>
        cases hbinding
        obtain ⟨other, bound, hother, hbound⟩ := htracks.catchAll hcatchAll
        exact ⟨other, bound, hother, Scope.extends_add hfree _ _ hbound⟩
    | catchAll name =>
        cases hbinding
        exact ⟨name, index, hsegment, by simp [Scope.index?_add, Binding.name, Binding.index]⟩

/-! ## Binding keeps track -/

variable {σ : Type} {progress : Progress σ}

/-- A segment of `full` that is bound at its position is tracked, is in scope there, and
moves no other name. -/
theorem extend (htracks : Tracks full request scope progress.params) {pattern : String}
    {index : Nat} {segment : Segment} (hsegment : full[index]? = some segment)
    {found : Option Binding} (hfound : scope.bindingOf pattern index segment = .ok found) :
    Tracks full request (scope.extend found) (progress.bindAll request found.toList).params ∧
      scope.Extends (scope.extend found) ∧ (scope.extend found).Has index segment := by
  -- what is needed of a binding that is made
  have hmade : ∀ binding, found = some binding → segment.binding? index = some binding →
      (scope.index? binding.name = none ∨ scope.index? binding.name = some binding.index) →
      Tracks full request (scope.extend found)
          (progress.bindAll request found.toList).params ∧
        scope.Extends (scope.extend found) ∧ (scope.extend found).Has index segment := by
    rintro binding rfl hbinding hfree
    refine ⟨htracks.add hsegment hbinding hfree, Scope.extends_add hfree, ?_⟩
    intro other hother
    obtain rfl : binding = other := by simpa [hbinding] using hother
    simp [Scope.index?_add, Segment.index_of_binding? hbinding]
  cases segment with
  | literal text =>
      cases hfound
      exact ⟨htracks, fun _ _ h => h, fun binding h => (nomatch h)⟩
  | dynamic name =>
      obtain ⟨-, ⟨hnew, rfl⟩ | ⟨hbound, rfl⟩⟩ := Scope.bindingOf_dynamic_eq_ok_iff.mp hfound
      · exact hmade _ rfl rfl (Or.inl hnew)
      · refine ⟨htracks, fun _ _ h => h, fun binding h => ?_⟩
        cases h
        exact hbound
  | catchAll name =>
      obtain ⟨hheld, rfl⟩ | ⟨-, -, hfree, rfl⟩ := Scope.bindingOf_catchAll_eq_ok_iff.mp hfound
      · -- the catch-all in scope is this one, since `full` has no other
        obtain ⟨other, bound, hother, hbound⟩ := htracks.catchAll hheld
        have hsame : bound = index := by
          have := htracks.last _ _ hother
          have := htracks.last _ _ hsegment
          omega
        subst hsame
        refine ⟨htracks, fun _ _ h => h, fun binding h => ?_⟩
        cases h
        obtain rfl : other = name := by simpa [hsegment, eq_comm] using hother
        exact hbound
      · exact hmade _ rfl rfl hfree

/-- Binding segments of `full`, from any position on, keeps track of what is bound. -/
theorem bindFrom {pattern : String} {rest : List Segment} {inner : Scope} {index : Nat}
    {bindings : List Binding} (htracks : Tracks full request scope progress.params)
    (hrest : ∀ j segment, rest[j]? = some segment → full[index + j]? = some segment)
    (hbind : Scope.bindFrom pattern scope index rest = .ok (bindings, inner)) :
    Tracks full request inner (progress.bindAll request bindings).params ∧
      scope.Extends inner ∧
        ∀ j segment, rest[j]? = some segment → inner.Has (index + j) segment := by
  induction rest generalizing scope index bindings progress with
  | nil =>
      cases hbind
      exact ⟨htracks, fun _ _ h => h, fun j segment h => by simp at h⟩
  | cons segment rest ih =>
      obtain ⟨found, more, hfound, hmore, rfl⟩ := Scope.bindFrom_cons_eq_ok_iff.mp hbind
      obtain ⟨hfirst, houter, hhas⟩ := htracks.extend (hrest 0 segment rfl) hfound
      have hshift : ∀ j segment, rest[j]? = some segment →
          full[index + 1 + j]? = some segment := by
        intro j segment hsegment
        rw [Nat.add_assoc, Nat.add_comm 1]
        exact hrest (j + 1) segment (by simpa using hsegment)
      obtain ⟨hall, hinner, hothers⟩ := ih hfirst hshift hmore
      rw [Progress.bindAll_append]
      refine ⟨hall, fun name bound h => hinner _ _ (houter _ _ h), ?_⟩
      intro j segment' hsegment
      cases j with
      | zero =>
          obtain rfl : segment = segment' := by simpa using hsegment
          exact Scope.Extends.has hinner hhas
      | succ j =>
          rw [Nat.add_comm j 1, ← Nat.add_assoc]
          exact hothers j segment' (by simpa using hsegment)

/-- Binding a pattern that begins `full` keeps track of what is bound, and the parameters
then hold the pattern. -/
theorem bind {pattern : String} {inner : Scope} {bindings : List Binding}
    (htracks : Tracks full request scope progress.params) (hbegins : segments pattern <+: full)
    (hbind : scope.bind pattern = .ok (bindings, inner)) :
    Tracks full request inner (progress.bindAll request bindings).params ∧
      (progress.bindAll request bindings).params.Hold request 0 (segments pattern) := by
  have hfull : ∀ j segment, (segments pattern)[j]? = some segment →
      full[0 + j]? = some segment := by
    intro j segment hsegment
    obtain ⟨more, rfl⟩ := hbegins
    obtain ⟨hj, -⟩ := List.getElem?_eq_some_iff.mp hsegment
    rw [Nat.zero_add, List.getElem?_append_left hj, hsegment]
  obtain ⟨hall, -, hhas⟩ :=
    htracks.bindFrom hfull (Scope.bind_eq_ok_iff.mp hbind).2
  refine ⟨hall, fun j segment binding hsegment hbinding => ?_⟩
  exact hall.get?_of_has (hfull j segment hsegment) (hhas j segment hsegment) hbinding

end Tracks

/-! ## Along a chain -/

mutual

/-- The patterns that are bound along a route, on either way it may go on.  A continuation
that the route does not look at is left out. -/
def Route.patterns : Route → List String
  | ⟨segment, kind, onward, forward⟩ =>
    segment.externalPath ::
      match kind with
      | .next => []
      | .middleware => continuationPatterns onward
      | .dynamicForward _ | .staticForward =>
        continuationPatterns onward ++ continuationPatterns forward
termination_by structural route => route

def Endpoint.patterns : Endpoint → List String
  | .route declared => declared.patterns
  | .page segment => [segment.externalPath]
termination_by structural endpoint => endpoint

def continuationPatterns : Option Endpoint → List String
  | none => []
  | some endpoint => endpoint.patterns
termination_by structural endpoint => endpoint

end

/-- If the run has ended at a page, then at one of these patterns, with the parameters of
that pattern held. -/
def EndsWithin {σ : Type} (patterns : List String) (request : List String)
    (result : Outcome × Progress σ) : Prop :=
  ∀ internalPath externalPath after, result = (.next internalPath externalPath, after) →
    externalPath ∈ patterns ∧ after.params.Hold request 0 (segments externalPath)

mutual

/-- The patterns of a route are those of its visits, in the same order. -/
theorem Route.map_pattern_visits (above : List String) :
    (route : Route) → (route.visits above).map Visit.pattern = route.patterns
  | ⟨segment, kind, onward, forward⟩ => by
      have honward := map_pattern_continuationVisits (above ++ [segment.externalPath]) onward
      have hforward := map_pattern_continuationVisits (above ++ [segment.externalPath]) forward
      cases kind <;> simp [Route.visits, Route.patterns, honward, hforward]
termination_by structural route => route

theorem Endpoint.map_pattern_visits (above : List String) :
    (endpoint : Endpoint) → (endpoint.visits above).map Visit.pattern = endpoint.patterns
  | .route declared => declared.map_pattern_visits above
  | .page _ => rfl
termination_by structural endpoint => endpoint

theorem map_pattern_continuationVisits (above : List String) :
    (continuation : Option Endpoint) →
      (continuationVisits above continuation).map Visit.pattern =
        continuationPatterns continuation
  | none => rfl
  | some endpoint => endpoint.map_pattern_visits above
termination_by structural continuation => continuation

end

section Chains

variable {σ : Type} {runtime : Runtime σ} {full : List Segment} {request : List String}

/-- The invariant along a chain: what is in scope is tracked, and the parameters hold the
pattern that was bound last. -/
def Follows (full : List Segment) (request : List String) (patterns : List String)
    (scope : Scope) (params : Params) : Prop :=
  Tracks full request scope params ∧
    ∀ pattern, patterns.getLast? = some pattern → params.Hold request 0 (segments pattern)

theorem Follows.keeps {visit : Visit} (hbegins : segments visit.pattern <+: full) :
    visit.Keeps σ request (Follows full request) := by
  intro scope inner progress bindings hstart hbind
  obtain ⟨hinner, hhold⟩ := hstart.1.bind hbegins hbind
  refine ⟨hinner, fun pattern hlast => ?_⟩
  obtain rfl : visit.pattern = pattern := by simpa using hlast
  exact hhold

/-- Where all patterns along a route begin `full`, the tree of the route ends at one of
them, with its parameters held. -/
theorem Route.endsWithin_toTree (route : Route) {scope : Scope} {tree : Tree}
    (h : route.toTree scope = .ok tree) {progress : Progress σ}
    (htracks : Tracks full request scope progress.params)
    (hpatterns : ∀ pattern ∈ route.patterns, segments pattern <+: full) :
    EndsWithin route.patterns request (tree.run runtime request progress) := by
  have hmem : ∀ visit ∈ route.visits [], visit.pattern ∈ route.patterns := by
    intro visit hvisit
    rw [← route.map_pattern_visits []]
    exact List.mem_map_of_mem hvisit
  have hreached : ReachedBy (Follows full request) (route.visits [])
      (tree.run runtime request progress) :=
    route.reachedBy_toTree h
      (fun visit hvisit => Follows.keeps (hpatterns _ (hmem visit hvisit)))
      ⟨htracks, by simp⟩
  intro internalPath externalPath after hresult
  obtain ⟨visit, hvisit, rfl, inner, -, hhold⟩ := hreached _ _ _ hresult
  exact ⟨hmem visit hvisit, hhold _ (by simp)⟩

end Chains

/-! ## Compiled groups -/

theorem Endpoint.patterns_toRoute (endpoint : Endpoint) :
    endpoint.toRoute.patterns = endpoint.patterns := by
  cases endpoint <;> rfl

/-- Only a route answers with a page. -/
theorem IsTreeOf.exists_route {slot : Option Slot} {tree : Tree} (h : IsTreeOf slot tree)
    {σ : Type} {runtime : Runtime σ} {request : List String} {progress after : Progress σ}
    {internalPath externalPath : String}
    (hrun : tree.run runtime request progress = (.next internalPath externalPath, after)) :
    ∃ declared, slot = some (.route declared) ∧ declared.toTree .empty = .ok tree := by
  cases slot with
  | none =>
      obtain rfl := isTreeOf_none.mp h
      simp [Tree.run] at hrun
  | some slot =>
      cases slot with
      | reserved =>
          cases h
          simp [Tree.run] at hrun
      | route declared => exact ⟨declared, rfl, h⟩

/-- **Parameter extraction inverts the pattern.**  Take a compiled group without override
keys for its routes, in which the patterns along every chain begin one pattern of the
shape of its key.  When a request ends at a page, the entry that answers is the best
match, the page's pattern is one of the entry's, and its parameters give the request
back: filled in, the pattern spells the first components of the request, and all of them
where it is as long as the key. -/
theorem RouteGroup.params_recover_request {group : RouteGroup} {compiled : Compiled}
    (hcompile : group.compile = .ok compiled)
    (hkeys : ∀ entry ∈ group.routes, (Address.ofKey entry.1).place ≠ .override)
    (hchains : ∀ entry ∈ group.routes, ∃ full : List Segment,
      full.map Segment.nameless = (segments entry.1).map Segment.nameless ∧
        ∀ pattern ∈ entry.2.patterns, segments pattern <+: full)
    (path : String) {σ : Type} (runtime : Runtime σ) (state : σ)
    {internalPath externalPath : String} {params : Params} {handlers : List String} {after : σ}
    (hnext : compiled.tree.evaluate path runtime state =
      (⟨.next internalPath externalPath, params, handlers⟩, after)) :
    ∃ entry ∈ group.routes, group.table.IsBest (components path) (Address.ofKey entry.1) ∧
      externalPath ∈ entry.2.patterns ∧
        params.Recover (segments externalPath) (segments entry.1).length (components path) := by
  have hselect := RouteGroup.isTreeOf_select hcompile (components path)
  rw [← Tree.evaluate_select] at hnext
  generalize compiled.tree.select (components path) = tree at hselect hnext
  cases hrun : tree.run runtime (components path) { state } with
  | mk outcome progress =>
      simp only [Tree.evaluate, hrun, Prod.mk.injEq, Resolution.mk.injEq] at hnext
      obtain ⟨⟨rfl, rfl, -⟩, -⟩ := hnext
      obtain ⟨declared, hslot, hlowered⟩ := hselect.exists_route hrun
      -- the entry that was declared where the search has ended
      obtain ⟨address, hbest, hheld⟩ := Table.exists_isBest_of_answer? hslot
      obtain ⟨entry, hentry, rfl, rfl⟩ := RouteGroup.exists_entry hheld
      obtain ⟨full, hshape, hbegins⟩ := hchains entry hentry
      obtain ⟨place, hplace⟩ := RouteGroup.accepted_of_compile hcompile
        (Registry.routeEntry entry) (List.mem_append_left _ (List.mem_map_of_mem hentry))
      -- the key fits the request, and with it the pattern of its chain, whatever its names
      have hfits : Fits (segments entry.1) (components path) :=
        Fits.of_matches (Walk.misplaced_of_ending hplace) (hkeys entry hentry)
          hbest.candidate.accepts
      have hfull : Fits full (components path) := hfits.of_nameless_eq hshape
      rw [← Endpoint.patterns_toRoute] at hbegins
      have hends : EndsWithin entry.2.toRoute.patterns (components path)
          (tree.run runtime (components path) { state }) :=
        Route.endsWithin_toTree _ hlowered (Tracks.empty fun _ _ => hfull.catchAll_last) hbegins
      obtain ⟨hpattern, hhold⟩ := hends _ _ _ hrun
      have hlength : full.length = (segments entry.1).length := by
        simpa using congrArg List.length hshape
      refine ⟨entry, hentry, hbest, by rwa [← Endpoint.patterns_toRoute], ?_⟩
      rw [← hlength]
      exact hfull.recover (hbegins _ hpattern) hhold

/-- A group whose key spells other names than the patterns along its chain, and whose
forward may end before the catch-all. -/
def RouteGroup.repositories : RouteGroup where
  routes := [("/:a/:b/*c/", .route (.middleware (.plain "/:owner/" "auth")
      (some (.route (.staticForward (.plain "/:owner/:repo/" "pick")
        (some (.page (.plain "/:owner/:repo/*path/" "tree")))
        (some (.page (.plain "/:owner/:repo/" "raw")))))))),
    ("/new/", .page (.plain "/new/" "new"))]

theorem RouteGroup.params_recover_request_repositories :
    ∃ compiled params handlers, RouteGroup.repositories.compile = .ok compiled ∧
      compiled.tree.evaluate "/acme/tool/src/main" .passthrough () =
        (⟨.next "tree" "/:owner/:repo/*path/", params, handlers⟩, ()) ∧
      ∃ entry ∈ RouteGroup.repositories.routes,
        RouteGroup.repositories.table.IsBest (components "/acme/tool/src/main")
            (Address.ofKey entry.1) ∧
          "/:owner/:repo/*path/" ∈ entry.2.patterns ∧
            params.Recover (segments "/:owner/:repo/*path/") (segments entry.1).length
              (components "/acme/tool/src/main") := by
  obtain ⟨compiled, hcompile⟩ :=
    exists_ok_of_isOk (show RouteGroup.repositories.compile.isOk = true by decide +kernel)
  have hnext : (RouteGroup.repositories.compile.toOption.map fun compiled =>
      compiled.tree.evaluate "/acme/tool/src/main" .passthrough ()) =
        some (⟨.next "tree" "/:owner/:repo/*path/",
          ⟨[("owner", .single "acme"), ("path", .rest ["src", "main"]),
            ("repo", .single "tool")]⟩, ["auth", "pick"]⟩, ()) := by decide +kernel
  rw [hcompile] at hnext
  have hnext := Option.some.inj hnext
  refine ⟨compiled, _, _, hcompile, hnext,
    RouteGroup.params_recover_request hcompile (by decide +kernel) ?_ _ _ _ hnext⟩
  refine List.forall_mem_cons.mpr ⟨⟨[.dynamic "owner", .dynamic "repo", .catchAll "path"],
    by decide +kernel, by decide +kernel⟩, List.forall_mem_singleton.mpr ?_⟩
  exact ⟨[.literal "new"], by decide +kernel, by decide +kernel⟩

end RouteTree
