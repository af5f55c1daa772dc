import RouteTree.Proofs.Selection

/-!
# What one more declaration changes

A declaration that is added to a group puts new nodes, cases and defaults along the whole
way to its address, and an override takes everything below its node away.  Still no request
can tell but those that end at the address itself.

The reason is in the search, which is put together from searches of smaller tables by going
on where the one before has led nowhere.  In two tables that differ at one address, every part
of the search either ends at that address or ends where it did before, and going on keeps this
(`or_cases`).  So does the whole search: `Adds.search?`.

For groups this is `evaluate_of_adds`.  An address that does not match the request cannot be
where the search ends, so nothing has changed for that request.
-/

namespace RouteTree

namespace Table

/-- The second table holds something at the address, and holds what the first one does at
every other. -/
structure Adds (table table' : Table) (address : Address) : Prop where
  declared : table' address ≠ none
  elsewhere : ∀ other, other ≠ address → table' other = table other

/-- Where two searches end at an address or end as they did before, so does one after the
other. -/
theorem or_cases {α : Type} {first first' second second' : Option α} {found : α}
    (hfirst : first' = some found ∨ first' = first)
    (hsecond : second' = some found ∨ second' = second) :
    first'.or second' = some found ∨ first'.or second' = first.or second := by
  rcases hfirst with hfound | hsame
  · left
    rw [hfound, Option.some_or]
  · cases hnone : first with
    | some other =>
        right
        rw [hsame, hnone, Option.some_or, Option.some_or]
    | none =>
        rw [hsame, hnone, Option.none_or, Option.none_or]
        exact hsecond

namespace Adds

variable {table table' : Table} {address : Address}

theorem here? (h : Adds table table' address) (place : Place) :
    table'.here? place = some address ∨ table'.here? place = table.here? place := by
  by_cases haddress : address = ⟨[], place⟩
  · left
    rw [here?_eq_some_iff]
    exact ⟨haddress, haddress ▸ h.declared⟩
  · right
    have hplace : table' ⟨[], place⟩ = table ⟨[], place⟩ := h.elsewhere _ (Ne.symm haddress)
    unfold Table.here?
    rw [hplace]

theorem below {step : Step} (h : Adds table table' (address.after step)) :
    Adds (table.below step) (table'.below step) address where
  declared := h.declared
  elsewhere := by
    intro other hother
    apply h.elsewhere
    intro heq
    exact hother (Address.after_inj.mp heq)

theorem below_eq {step : Step} (h : Adds table table' address)
    (hstep : ∀ below, address ≠ Address.after step below) :
    table'.below step = table.below step := by
  funext other
  exact h.elsewhere _ (Ne.symm (hstep other))

/-- Adding to a table moves the end of a search to the new address or not at all. -/
theorem search? (h : Adds table table' address) (request : List String) :
    Table.search? request table' = some address ∨
      Table.search? request table' = Table.search? request table := by
  induction request generalizing table table' address with
  | nil => exact or_cases (h.here? .override) (h.here? .exact)
  | cons component rest ih =>
      have hbelow : ∀ step : Step,
          (Table.search? rest (table'.below step)).map (Address.after step) = some address ∨
            (Table.search? rest (table'.below step)).map (Address.after step) =
              (Table.search? rest (table.below step)).map (Address.after step) := by
        intro step
        by_cases hstep : ∃ below, address = Address.after step below
        · obtain ⟨below, rfl⟩ := hstep
          refine (ih h.below).imp ?_ ?_
          · intro hfound
            rw [hfound, Option.map_some]
          · intro hsame
            rw [hsame]
        · right
          rw [h.below_eq fun below heq => hstep ⟨below, heq⟩]
      unfold Table.search?
      refine or_cases (h.here? .override) ?_
      by_cases hempty : component = ""
      · right
        rw [if_pos hempty, if_pos hempty]
      · rw [if_neg hempty, if_neg hempty]
        exact or_cases (hbelow (.literal component))
          (or_cases (hbelow .dynamic) (h.here? .catchAll))

end Adds
end Table

/-! ## Groups -/

/-- The second group is the first one with a declaration added at the end of its routes, or
at the end of its reservations. -/
inductive RouteGroup.Adds (group : RouteGroup) (key : String) : Slot → RouteGroup → Prop
  | route (endpoint : Endpoint) : group.Adds key (.route endpoint.toRoute)
      { group with routes := group.routes ++ [(key, endpoint)] }
  | reservation : group.Adds key .reserved { group with reserved := group.reserved ++ [key] }

namespace RouteGroup

variable {group extended : RouteGroup} {key : String} {slot : Slot}

theorem Adds.declared (h : group.Adds key slot extended) :
    extended.table (Address.ofKey key) ≠ none := by
  have hmem : (key, slot) ∈ extended.declarations := by
    cases h <;> simp [declarations, Registry.routeEntry, Registry.reservation]
  exact Table.ofDeclarations_ne_none_iff.mpr ⟨_, hmem, rfl⟩

/-- The table changes at the new address only, and to the new declaration.  It does not change
there either when a route is added and a reservation stands behind it. -/
theorem Adds.table_cases (h : group.Adds key slot extended) (address : Address) :
    extended.table address = group.table address ∨
      address = Address.ofKey key ∧ extended.table address = some slot := by
  unfold table
  cases h with
  | reservation =>
      have hlast : declarations { group with reserved := group.reserved ++ [key] } =
          group.declarations ++ [(key, .reserved)] := by
        simp [declarations, Registry.reservation]
      rw [hlast, Table.ofDeclarations_concat]
      split
      · rename_i hkey
        exact Or.inr ⟨hkey.symm, rfl⟩
      · exact Or.inl rfl
  | route endpoint =>
      unfold declarations
      rw [Table.ofDeclarations_append, Table.ofDeclarations_append, List.map_append]
      cases Table.ofDeclarations (group.reserved.map Registry.reservation) address with
      | some held =>
          left
          rw [Option.some_or, Option.some_or]
      | none =>
          rw [Option.none_or, Option.none_or]
          by_cases hkey : Address.ofKey key = address
          · exact Or.inr ⟨hkey.symm, (Table.ofDeclarations_concat ..).trans (if_pos hkey)⟩
          · exact Or.inl ((Table.ofDeclarations_concat ..).trans (if_neg hkey))

theorem Adds.adds_table (h : group.Adds key slot extended) :
    Table.Adds group.table extended.table (Address.ofKey key) where
  declared := h.declared
  elsewhere := by
    intro other hother
    rcases h.table_cases other with hsame | ⟨heq, -⟩
    · exact hsame
    · exact absurd heq hother

/-- A request for which the added declaration is not the best selects what it did before. -/
theorem Adds.answer?_eq (h : group.Adds key slot extended) {request : List String}
    (hbest : ¬ extended.table.IsBest request (Address.ofKey key)) :
    Table.answer? request extended.table = Table.answer? request group.table := by
  have hsearch : Table.search? request extended.table = Table.search? request group.table := by
    refine (h.adds_table.search? request).resolve_left ?_
    intro hfound
    exact hbest (Table.search?_isBest hfound)
  unfold Table.answer?
  rw [hsearch]
  cases hfound : Table.search? request group.table with
  | none => rfl
  | some address =>
      -- the search has ended at another address, where nothing is new
      have hother : address ≠ Address.ofKey key := by
        rintro rfl
        exact hbest (Table.search?_isBest (hsearch.trans hfound))
      exact h.adds_table.elsewhere address hother

/-- **Adding a declaration disturbs no other request.**  A request that the new key does not
match resolves as before, with the same questions to the runtime.  One that it matches resolves
as before too, unless the new key is the best of all that match; then it resolves like what is
declared there, which is the added declaration, or a reservation that was there already. -/
theorem evaluate_of_adds (hadds : group.Adds key slot extended) {compiled compiled' : Compiled}
    (hcompile : group.compile = .ok compiled) (hcompile' : extended.compile = .ok compiled')
    (path : String) {σ : Type} (runtime : Runtime σ) (state : σ) :
    (¬ (Address.ofKey key).Matches (components path) →
      compiled'.tree.evaluate path runtime state = compiled.tree.evaluate path runtime state) ∧
    ((Address.ofKey key).Matches (components path) →
      (¬ extended.table.IsBest (components path) (Address.ofKey key) ∧
        compiled'.tree.evaluate path runtime state =
          compiled.tree.evaluate path runtime state) ∨
      (extended.table.IsBest (components path) (Address.ofKey key) ∧
        ∃ held tree, extended.table (Address.ofKey key) = some held ∧
          (held = slot ∨ group.table (Address.ofKey key) = some held) ∧
          held.toTree = .ok tree ∧
          compiled'.tree.evaluate path runtime state = tree.evaluate path runtime state)) := by
  have hselect := isTreeOf_select hcompile (components path)
  have hselect' := isTreeOf_select hcompile' (components path)
  -- only the selected node matters, on both sides
  rw [← Tree.evaluate_select compiled.tree, ← Tree.evaluate_select compiled'.tree]
  have hsame : ¬ extended.table.IsBest (components path) (Address.ofKey key) →
      (compiled'.tree.select (components path)).evaluate path runtime state =
        (compiled.tree.select (components path)).evaluate path runtime state := by
    intro hbest
    rw [hadds.answer?_eq hbest] at hselect'
    rw [hselect'.unique hselect]
  constructor
  · intro hmatches
    apply hsame
    intro hbest
    exact hmatches hbest.candidate.accepts
  · intro _
    by_cases hbest : extended.table.IsBest (components path) (Address.ofKey key)
    · right
      obtain ⟨held, hheld⟩ := Option.ne_none_iff_exists'.mp hadds.declared
      rw [Table.answer?_eq_some hbest, hheld] at hselect'
      refine ⟨hbest, held, _, hheld, ?_, hselect', rfl⟩
      rcases hadds.table_cases (Address.ofKey key) with hkept | ⟨-, hnew⟩
      · exact Or.inr (hkept ▸ hheld)
      · left
        rw [hheld] at hnew
        exact Option.some.inj hnew
    · exact Or.inl ⟨hbest, hsame hbest⟩

/-- A group with a page for a literal, one for any text beside it, and a catch-all above both. -/
def members : RouteGroup where
  routes := [("/users/new/edit/", .page (.plain "/users/new/edit/" "users/new/edit")),
    ("/users/:id/edit/", .page (.plain "/users/:id/edit/" "users/[id]/edit")),
    ("/:section/*rest/", .page (.plain "/:section/*rest/" "[section]/[...rest]"))]

/-- The same group with all that is below a single user reserved. -/
def membersClosed : RouteGroup :=
  { members with reserved := ["/users/:/\\"] }

/-- The override takes the request for one user over, and no request for another section. -/
theorem evaluate_of_adds_members :
    ∃ compiled compiled' held tree,
      members.compile = .ok compiled ∧ membersClosed.compile = .ok compiled' ∧
      compiled'.tree.evaluate "/about/team" .passthrough () =
        compiled.tree.evaluate "/about/team" .passthrough () ∧
      (Address.ofKey "/users/:/\\").Matches (components "/users/7/edit") ∧
      Slot.toTree held = .ok tree ∧
      compiled'.tree.evaluate "/users/7/edit" .passthrough () =
        tree.evaluate "/users/7/edit" .passthrough () := by
  have hadds : members.Adds "/users/:/\\" .reserved membersClosed := .reservation
  obtain ⟨compiled, hcompile⟩ := exists_ok_of_isOk
    (show members.compile.isOk = true by decide +kernel)
  obtain ⟨compiled', hcompile'⟩ := exists_ok_of_isOk
    (show membersClosed.compile.isOk = true by decide +kernel)
  have hbest : membersClosed.table.IsBest (components "/users/7/edit")
      (Address.ofKey "/users/:/\\") :=
    Table.search?_isBest (by decide +kernel)
  have hother : ¬ (Address.ofKey "/users/:/\\").Matches (components "/about/team") := by
    intro hmatches
    obtain ⟨component, hfirst, -, hstep⟩ := hmatches.steps 0 (.literal "users") (by decide +kernel)
    have habout : (components "/about/team")[0]? = some "about" := by decide +kernel
    obtain rfl : "about" = component := Option.some.inj (habout.symm.trans hfirst)
    simp at hstep
  have hsame := (evaluate_of_adds hadds hcompile hcompile' "/about/team" .passthrough ()).1 hother
  rcases (evaluate_of_adds hadds hcompile hcompile' "/users/7/edit" .passthrough ()).2
    hbest.candidate.accepts with ⟨hnot, -⟩ | ⟨-, held, tree, -, -, htree, heval⟩
  · exact absurd hbest hnot
  · exact ⟨compiled, compiled', held, tree, hcompile, hcompile', hsame, hbest.candidate.accepts,
      htree, heval⟩

end RouteGroup
end RouteTree
