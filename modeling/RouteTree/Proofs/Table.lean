import RouteTree.Proofs.KeyAddress
import RouteTree.Group

/-!
# The registry as a flat table

A `Table` says for every address what is declared there, with no nodes in between.
The table of a list of declarations holds the last one for each address.

A registry is such a table: `Node.find?` reads it, and `find?_writeAll` shows that a
run of writes leaves in every place the last declaration for it, or what was there
before.  The nodes, their order and the nodes that a failed write leaves behind do not
show.
-/

namespace RouteTree

/-- What is declared at each address. -/
abbrev Table := Address → Option Slot

/-- The table that holds for each address the last of its declarations. -/
def Table.ofDeclarations (declarations : List (String × Slot)) : Table := fun address =>
  (declarations.filter fun declaration => Address.ofKey declaration.1 = address).getLast?.map (·.2)

@[simp] theorem Table.ofDeclarations_nil (address : Address) :
    Table.ofDeclarations [] address = none := rfl

/-- An earlier declaration counts where no later one has the same address. -/
theorem Table.ofDeclarations_cons (key : String) (slot : Slot)
    (declarations : List (String × Slot)) (address : Address) :
    Table.ofDeclarations ((key, slot) :: declarations) address =
      (Table.ofDeclarations declarations address).or
        (if Address.ofKey key = address then some slot else none) := by
  unfold Table.ofDeclarations
  by_cases hkey : Address.ofKey key = address
  · rw [List.filter_cons_of_pos (by simpa using hkey), List.getLast?_cons, if_pos hkey]
    cases (declarations.filter fun declaration =>
      Address.ofKey declaration.1 = address).getLast? <;> rfl
  · rw [List.filter_cons_of_neg (by simpa using hkey), if_neg hkey, Option.or_none]

theorem Table.ofDeclarations_append (earlier later : List (String × Slot)) (address : Address) :
    Table.ofDeclarations (earlier ++ later) address =
      (Table.ofDeclarations later address).or (Table.ofDeclarations earlier address) := by
  induction earlier with
  | nil => simp
  | cons first rest ih =>
      obtain ⟨key, slot⟩ := first
      rw [List.cons_append, Table.ofDeclarations_cons, ih, Table.ofDeclarations_cons,
        Option.or_assoc]

/-- The last declaration counts at its address. -/
theorem Table.ofDeclarations_concat (declarations : List (String × Slot)) (key : String)
    (slot : Slot) (address : Address) :
    Table.ofDeclarations (declarations ++ [(key, slot)]) address =
      if Address.ofKey key = address then some slot
      else Table.ofDeclarations declarations address := by
  rw [Table.ofDeclarations_append, Table.ofDeclarations_cons]
  by_cases hkey : Address.ofKey key = address <;> simp [hkey]

/-- Everything in the table was declared. -/
theorem Table.exists_mem_of_ofDeclarations {declarations : List (String × Slot)}
    {address : Address} {slot : Slot}
    (h : Table.ofDeclarations declarations address = some slot) :
    ∃ key, (key, slot) ∈ declarations ∧ Address.ofKey key = address := by
  obtain ⟨⟨key, held⟩, hlast, rfl⟩ := Option.map_eq_some_iff.mp h
  obtain ⟨hmem, hkey⟩ := List.mem_filter.mp (List.mem_of_getLast? hlast)
  exact ⟨key, hmem, by simpa using hkey⟩

theorem Table.ofDeclarations_ne_none_iff {declarations : List (String × Slot)}
    {address : Address} :
    Table.ofDeclarations declarations address ≠ none ↔
      ∃ declaration ∈ declarations, Address.ofKey declaration.1 = address := by
  simp [Table.ofDeclarations]

/-! ## Reading a node -/

namespace Node

@[simp] theorem find?_nil (node : Node) (place : Place) :
    node.find? ⟨[], place⟩ = node.slot? place := rfl

@[simp] theorem find?_cons (node : Node) (step : Step) (steps : List Step) (place : Place) :
    node.find? ⟨step :: steps, place⟩ =
      (node.child? step).bind (·.find? ⟨steps, place⟩) := by
  simp only [find?, at?, Option.bind_assoc]

@[simp] theorem slot?_empty (place : Place) : empty.slot? place = none := by
  cases place <;> rfl

@[simp] theorem find?_empty (address : Address) : empty.find? address = none := by
  obtain ⟨steps, place⟩ := address
  cases steps <;> simp

/-- A missing node is as good as an empty one. -/
theorem find?_getD_empty (node : Option Node) (address : Address) :
    (node.getD empty).find? address = node.bind (·.find? address) := by
  cases node <;> simp

/-- Changing the node at the end of some steps shows at that node only, as long as the
change keeps the children. -/
theorem find?_update {change : Node → Node}
    (hchange : ∀ node step, (change node).child? step = node.child? step)
    (node : Node) (steps : List Step) (address : Address) :
    (node.update change steps).find? address =
      if address.steps = steps then
        (change ((node.at? steps).getD empty)).slot? address.place
      else node.find? address := by
  obtain ⟨below, place⟩ := address
  induction steps generalizing node below with
  | nil =>
      cases below with
      | nil => simp [update, at?]
      | cons step below => simp [update, hchange]
  | cons first steps ih =>
      cases below with
      | nil => simp [update]
      | cons step below =>
          by_cases hstep : step = first
          · subst hstep
            have hat : (((node.child? step).getD empty).at? steps).getD empty =
                ((node.child? step).bind (·.at? steps)).getD empty := by
              cases node.child? step with
              | some child => rfl
              | none => cases steps <;> simp [at?]
            simp [update, at?, ih, hat, find?_getD_empty]
          · simp [update, hstep]

end Node

/-! ## Writing -/

namespace Registry

theorem exists_place_of_write {registry registry' : Registry} {key : String} {slot : Slot}
    (hwrite : registry.write key slot = (registry', none)) :
    ∃ place, (Walk.ofKey key).ending = .ok place ∧
      registry'.root = registry.root.update (·.setSlot place slot) (Walk.ofKey key).steps := by
  unfold write at hwrite
  cases hending : (Walk.ofKey key).ending with
  | error fault => simp [hending] at hwrite
  | ok place =>
      simp only [hending, Prod.mk.injEq, and_true] at hwrite
      exact ⟨place, rfl, by rw [← hwrite]⟩

/-- A write that succeeds changes what is declared at its key and nothing else. -/
theorem find?_write {registry registry' : Registry} {key : String} {slot : Slot}
    (hwrite : registry.write key slot = (registry', none)) (address : Address) :
    registry'.root.find? address =
      if Address.ofKey key = address then some slot else registry.root.find? address := by
  obtain ⟨place, hending, hroot⟩ := exists_place_of_write hwrite
  have hkey := Walk.ofKey_eq_of_ending hending
  obtain ⟨steps, other⟩ := address
  rw [hroot, Node.find?_update (fun node step => Node.child?_setSlot node place slot step), ← hkey]
  by_cases hsteps : steps = (Walk.ofKey key).steps
  · subst hsteps
    by_cases hplace : other = place
    · simp [hplace]
    · have hother : place ≠ other := fun h => hplace h.symm
      simp only [Node.slot?_setSlot, hplace, if_false, if_true, Address.mk.injEq, hother,
        and_false]
      cases hat : registry.root.at? (Walk.ofKey key).steps <;> simp [Node.find?, hat]
  · have hother : (Walk.ofKey key).steps ≠ steps := fun h => hsteps h.symm
    simp [hsteps, hother]

/-- A run of writes succeeds when its first write does and the others do after it. -/
theorem writeAll_cons_eq_none_iff {registry registry' : Registry} {key : String} {slot : Slot}
    {rest : List (String × Slot)} :
    registry.writeAll ((key, slot) :: rest) = (registry', none) ↔
      ∃ next, registry.write key slot = (next, none) ∧ next.writeAll rest = (registry', none) := by
  rw [writeAll]
  rcases registry.write key slot with ⟨next, error⟩
  cases error <;> simp

/-- After a run of writes every address holds the last declaration for it, or else what
it held before. -/
theorem find?_writeAll {registry registry' : Registry} {declarations : List (String × Slot)}
    (hwrite : registry.writeAll declarations = (registry', none)) (address : Address) :
    registry'.root.find? address =
      (Table.ofDeclarations declarations address).or (registry.root.find? address) := by
  induction declarations generalizing registry with
  | nil =>
      cases hwrite
      simp
  | cons first rest ih =>
      obtain ⟨key, slot⟩ := first
      obtain ⟨next, hfirst, hrest⟩ := writeAll_cons_eq_none_iff.mp hwrite
      rw [ih hrest, find?_write hfirst, Table.ofDeclarations_cons, Option.or_assoc]
      by_cases hkey : Address.ofKey key = address <;> simp [hkey]

theorem accepted_of_writeAll {registry registry' : Registry}
    {declarations : List (String × Slot)}
    (hwrite : registry.writeAll declarations = (registry', none)) :
    ∀ declaration ∈ declarations, ∃ place, (Walk.ofKey declaration.1).ending = .ok place := by
  induction declarations generalizing registry with
  | nil => simp
  | cons first rest ih =>
      obtain ⟨next, hfirst, hrest⟩ := writeAll_cons_eq_none_iff.mp hwrite
      obtain ⟨place, hending, -⟩ := exists_place_of_write hfirst
      exact List.forall_mem_cons.mpr ⟨⟨place, hending⟩, ih hrest⟩

theorem writeAll_of_ofDeclarations {declarations : List (String × Slot)} {registry : Registry}
    (h : ofDeclarations declarations = .ok registry) :
    empty.writeAll declarations = (registry, none) := by
  unfold ofDeclarations at h
  cases hwrite : empty.writeAll declarations with
  | mk last error =>
      cases error with
      | some error => simp [hwrite] at h
      | none =>
          simp only [hwrite, Except.ok.injEq] at h
          rw [h]

/-- A registry made from declarations is their table. -/
theorem find?_ofDeclarations {declarations : List (String × Slot)} {registry : Registry}
    (h : ofDeclarations declarations = .ok registry) :
    registry.root.find? = Table.ofDeclarations declarations := by
  funext address
  rw [find?_writeAll (writeAll_of_ofDeclarations h)]
  exact Option.or_eq_left_of_none (Node.find?_empty address)

end Registry
end RouteTree
