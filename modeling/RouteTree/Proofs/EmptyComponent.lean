import RouteTree.Proofs.Interpretation
import RouteTree.Proofs.Selection

/-!
# Requests with an empty component

An empty component inside a request, as in `/a//b`, is no literal and nothing that a
parameter could be bound to.  A switch that meets one gives up.  But a switch looks at the
component at its own depth only, and a catch-all takes whatever comes after that without
another look.  So the requests with an empty component that are answered are those with a
catch-all above it: `resolve_eq_notFound_iff`.
-/

namespace RouteTree

open RouteTree.Tree (Progress)

/-! ## Answers are never silent -/

namespace Tree

namespace Progress

variable {σ : Type} {runtime : Runtime σ} {progress after : Progress σ} {path : String}
  {answer : Bool}

theorem handlers_forward (h : progress.forward runtime path = (answer, after)) :
    after.handlers = progress.handlers ++ [path] := by
  cases h
  rfl

theorem handlers_rewrite (h : progress.rewrite runtime path = (answer, after)) :
    after.handlers = progress.handlers := by
  cases h
  rfl

theorem handlers_redirect (h : progress.redirect runtime path = (answer, after)) :
    after.handlers = progress.handlers := by
  cases h
  rfl

end Progress

/-- Handlers that ran stay on record. -/
theorem handlers_run {σ : Type} (runtime : Runtime σ) (request : List String)
    (progress : Progress σ) (tree : Tree) :
    progress.handlers <+: (tree.run runtime request progress).2.handlers := by
  fun_induction run runtime request progress tree with
  | case1 => exact List.prefix_rfl
  | case2 _ _ _ _ _ _ _ ih => exact ih
  | case3 _ _ _ _ ih => exact ih
  | case4 _ _ _ _ ih => exact ih
  | case5 _ path _ _ ih => exact (List.prefix_append _ [path]).trans ih
  | case6 _ _ path _ _ _ _ hasked ih | case7 _ _ path _ _ _ _ hasked ih
  | case8 _ path _ _ _ _ hasked ih | case9 _ path _ _ _ _ hasked ih =>
      rw [Progress.handlers_forward hasked] at ih
      exact (List.prefix_append _ [path]).trans ih
  | case10 _ _ _ _ _ hasked | case12 _ _ _ _ hasked =>
      simp only [Progress.handlers_rewrite hasked, List.prefix_rfl]
  | case11 _ _ _ _ _ hasked ih =>
      rwa [Progress.handlers_rewrite hasked] at ih
  | case13 _ _ _ _ _ hasked | case15 _ _ _ _ hasked =>
      simp only [Progress.handlers_redirect hasked, List.prefix_rfl]
  | case14 _ _ _ _ _ hasked ih =>
      rwa [Progress.handlers_redirect hasked] at ih
  | case16 | case17 | case18 | case19 => exact List.prefix_rfl

end Tree

/-- A route that does not end at its page has run a handler. -/
theorem Route.ActsAs.handlers_ne_nil {scope : Scope} {route : Route} {action : Tree}
    (h : Route.ActsAs scope route action) (hkind : route.kind ≠ .next) {σ : Type}
    (runtime : Runtime σ) (request : List String) (progress : Progress σ) :
    (action.run runtime request progress).2.handlers ≠ [] := by
  have hran : ∀ (path : String) (after : Progress σ) (tree : Tree),
      after.handlers = progress.handlers ++ [path] →
        (tree.run runtime request after).2.handlers ≠ [] := by
    intro path after tree hafter
    have hkept := Tree.handlers_run runtime request after tree
    rw [hafter] at hkept
    exact hkept.ne_nil (by simp)
  cases h with
  | next => exact absurd rfl hkind
  | middleware => rw [Tree.run]; exact hran _ _ _ rfl
  | forward _ _ hforwards =>
      rw [hforwards.run]
      split <;> rename_i hdecided
      · exact hran _ _ _ (Progress.handlers_forward hdecided)
      · exact hran _ _ _ (Progress.handlers_forward hdecided)

/-- A page always answers when every rewrite and redirect is carried out. -/
theorem Page.finish_passthrough_ne_notFound (page : Page) (progress : Progress Unit) :
    (page.finish .passthrough progress).1 ≠ .notFound := by
  unfold Page.finish
  cases page.external <;> cases page.rewrite <;> cases page.redirect <;>
    simp [Progress.rewrite, Progress.redirect, Runtime.passthrough]

/-- A declaration never goes unnoticed: it gives an answer, or a handler has run. -/
theorem Slot.evaluate_passthrough_ne {slot : Slot} {tree : Tree} (h : slot.toTree = .ok tree)
    (path : String) : (tree.evaluate path .passthrough ()).1 ≠ ⟨.notFound, .empty, []⟩ := by
  cases slot with
  | reserved =>
      cases h
      simp [Tree.evaluate, Tree.run]
  | route declared =>
      obtain ⟨bindings, inner, action, _, haction, rfl⟩ := Route.exists_actsAs h
      simp only [Tree.evaluate, Tree.run_allBefore]
      intro hsilent
      by_cases hkind : declared.kind = .next
      · cases haction with
        | next segment onward forward =>
            rw [Page.run_action] at hsilent
            exact segment.finish_passthrough_ne_notFound _ (congrArg Resolution.outcome hsilent)
        | middleware => cases hkind
        | forward _ _ hforwards => cases hforwards <;> cases hkind
      · exact haction.handlers_ne_nil hkind _ _ _ (congrArg Resolution.handlers hsilent)

/-! ## What is left to match -/

/-- An exact declaration takes up the whole request, and with it the empty component. -/
theorem Address.Matches.place_ne_exact {address : Address} {request : List String}
    (hmatches : address.Matches request) (hempty : "" ∈ request) : address.place ≠ .exact := by
  intro hplace
  obtain ⟨j, hj, hcomponent⟩ := List.mem_iff_getElem.mp hempty
  have hlength : address.steps.length = request.length := by
    simpa [hplace, Place.Accepts] using hmatches.place
  obtain ⟨component, hfound, haccepts⟩ :=
    hmatches.steps j _ (List.getElem?_eq_getElem (hlength ▸ hj))
  rw [List.getElem?_eq_getElem hj, hcomponent, Option.some.injEq] at hfound
  exact haccepts.1 hfound.symm

theorem RouteGroup.live_of_mem {group : RouteGroup}
    (hkeys : ∀ declaration ∈ group.declarations,
      (Address.ofKey declaration.1).place ≠ .override)
    {declaration : String × Slot} (hmem : declaration ∈ group.declarations) :
    group.table.Live (Address.ofKey declaration.1) := by
  refine ⟨Table.ofDeclarations_ne_none_iff.mpr ⟨declaration, hmem, rfl⟩, ?_⟩
  intro steps _ hheld
  obtain ⟨other, hother, haddress⟩ := Table.ofDeclarations_ne_none_iff.mp hheld
  exact absurd (by rw [haddress]) (hkeys other hother)

/-- **A request with an empty component is answered by catch-alls only.**  In a compiled
group without override keys it ends without an answer, with nothing bound and no handler
run, exactly when no catch-all of the group matches it. -/
theorem RouteGroup.resolve_eq_notFound_iff {group : RouteGroup} {compiled : Compiled}
    (hcompile : group.compile = .ok compiled)
    (hkeys : ∀ declaration ∈ group.declarations,
      (Address.ofKey declaration.1).place ≠ .override)
    {path : String} (hempty : "" ∈ components path) :
    compiled.resolve path = ⟨.notFound, .empty, []⟩ ↔
      ∀ declaration ∈ group.declarations, (Address.ofKey declaration.1).place = .catchAll →
        ¬ (Address.ofKey declaration.1).Matches (components path) := by
  have hselect := RouteGroup.isTreeOf_select hcompile (components path)
  rw [Compiled.resolve, ← Tree.evaluate_select]
  cases hanswer : Table.answer? (components path) group.table with
  | none =>
      rw [hanswer, isTreeOf_none] at hselect
      rw [Table.answer?_eq_none_iff] at hanswer
      constructor
      · intro _ declaration hmem _ hmatches
        exact hanswer _ ⟨hmatches, RouteGroup.live_of_mem hkeys hmem⟩
      · intro _
        simp [hselect, Tree.evaluate, Tree.run]
  | some slot =>
      rw [hanswer, isTreeOf_some] at hselect
      obtain ⟨address, hbest, hslot⟩ := Table.exists_isBest_of_answer? hanswer
      obtain ⟨key, hmem, rfl⟩ := Table.exists_mem_of_ofDeclarations hslot
      have hmatches := hbest.candidate.accepts
      constructor
      · intro hsilent
        exact absurd hsilent (Slot.evaluate_passthrough_ne hselect path)
      · intro hnone
        cases hplace : (Address.ofKey key).place with
        | exact => exact absurd hplace (hmatches.place_ne_exact hempty)
        | catchAll => exact absurd hmatches (hnone (key, slot) hmem hplace)
        | override => exact absurd hplace (hkeys (key, slot) hmem)

/-- A group with a catch-all below a literal. -/
def RouteGroup.manual : RouteGroup where
  routes := [("/docs/*rest/", .page (.plain "/docs/*rest/" "docs"))]

/-- The empty component is the one that the catch-all would start with. -/
theorem RouteGroup.resolve_eq_notFound_iff_manual :
    ∃ compiled, RouteGroup.manual.compile = .ok compiled ∧
      compiled.resolve "/docs//a" = ⟨.notFound, .empty, []⟩ := by
  obtain ⟨compiled, hcompile⟩ :=
    exists_ok_of_isOk (show RouteGroup.manual.compile.isOk = true by decide +kernel)
  refine ⟨compiled, hcompile,
    (RouteGroup.resolve_eq_notFound_iff hcompile (by decide +kernel) (by decide +kernel)).mpr ?_⟩
  intro declaration hmem _ hmatches
  have haddress : Address.ofKey declaration.1 = ⟨[.literal "docs"], .catchAll⟩ := by
    rw [List.mem_singleton.mp hmem]
    decide +kernel
  have hcomponents : components "/docs//a" = ["docs", "", "a"] := by decide +kernel
  rw [haddress, hcomponents] at hmatches
  obtain ⟨component, hcomponent, hne⟩ := hmatches.place
  exact hne (by simpa using hcomponent.symm)

/-- A group with nothing but a catch-all at its root. -/
def RouteGroup.anything : RouteGroup where
  routes := [("/*rest/", .page (.plain "/*rest/" "all"))]

/-- The catch-all looks at the first component only, and takes the empty one behind it. -/
theorem RouteGroup.resolve_anything_empty_component :
    ∃ compiled, RouteGroup.anything.compile = .ok compiled ∧
      (∀ declaration ∈ RouteGroup.anything.declarations,
        (Address.ofKey declaration.1).place ≠ .override) ∧
      "" ∈ components "/a//b" ∧
      compiled.resolve "/a//b" =
        ⟨.next "all" "/*rest/", ⟨[("rest", .rest ["a", "", "b"])]⟩, []⟩ := by
  obtain ⟨compiled, hcompile⟩ :=
    exists_ok_of_isOk (show RouteGroup.anything.compile.isOk = true by decide +kernel)
  have hresolve : (RouteGroup.anything.compile.toOption.map (·.resolve "/a//b")) =
      some ⟨.next "all" "/*rest/", ⟨[("rest", .rest ["a", "", "b"])]⟩, []⟩ := by
    decide +kernel
  rw [hcompile] at hresolve
  exact ⟨compiled, hcompile, by decide +kernel, by decide +kernel, Option.some.inj hresolve⟩

end RouteTree
