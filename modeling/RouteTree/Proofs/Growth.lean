import RouteTree.Proofs.Tidy

/-!
# The order of the children

A construction goes through the literal children of a node in the order in which they were
created.  A write creates the nodes along its walk that are not there yet, so a child is as old
as the first walk through it.

`Node.GrownBy` says that of a whole node: the labels at the end of some steps are those that a
walk has passed right there, and of two labels the one that was passed first stands first.  One
walk keeps it (`GrownBy.update`), and so does a run of writes that succeed
(`grownBy_writeAll`).
-/

namespace RouteTree
namespace Node

/-! ## Labels at the end of some steps -/

/-- The labels of the literal children of the node at the end of the steps. -/
def labelsAt (node : Node) (above : List Step) : List String :=
  ((node.at? above).getD empty).labels

@[simp] theorem labelsAt_empty (above : List Step) : empty.labelsAt above = [] := by
  cases above with
  | nil => rfl
  | cons step above =>
      rw [labelsAt, at?, child?_empty]
      rfl

theorem labelsAt_cons (node : Node) (step : Step) (above : List Step) :
    node.labelsAt (step :: above) = ((node.child? step).getD empty).labelsAt above := by
  unfold labelsAt
  rw [at?]
  cases node.child? step with
  | some child => rfl
  | none => exact (labelsAt_empty above).symm

/-- A walk that does not go on to a literal child of a node leaves the labels there as they
are. -/
theorem labelsAt_update_elsewhere {change : Node → Node}
    (hlabels : ∀ node, (change node).labels = node.labels)
    (hchildren : ∀ node step, (change node).child? step = node.child? step) (node : Node)
    {above steps : List Step} (h : ∀ text, ¬ above ++ [.literal text] <+: steps) :
    (node.update change steps).labelsAt above = node.labelsAt above := by
  induction above generalizing node steps with
  | nil =>
      cases steps with
      | nil => exact hlabels node
      | cons first steps =>
          cases first with
          | dynamic => rfl
          | literal text => exact absurd (by simp) (h text)
  | cons step above ih =>
      cases steps with
      | nil => rw [update, labelsAt_cons, labelsAt_cons, hchildren]
      | cons first steps =>
          rw [update, labelsAt_cons, labelsAt_cons, child?_setChild]
          by_cases hstep : step = first
          · subst hstep
            rw [if_pos rfl, Option.getD_some]
            apply ih
            intro text hbelow
            exact h text (List.cons_prefix_cons.mpr ⟨rfl, hbelow⟩)
          · rw [if_neg hstep]

/-- A walk to a literal child of a node adds its label at the end, unless it is there. -/
theorem labelsAt_update_through (change : Node → Node) (node : Node)
    {above steps : List Step} {text : String} (h : above ++ [.literal text] <+: steps) :
    (node.update change steps).labelsAt above =
      if text ∈ node.labelsAt above then node.labelsAt above
      else node.labelsAt above ++ [text] := by
  induction above generalizing node steps with
  | nil =>
      obtain ⟨rest, rfl⟩ := h
      exact labels_setChild node _ text
  | cons step above ih =>
      obtain ⟨rest, rfl⟩ := h
      have hbelow : above ++ [.literal text] <+: above ++ [.literal text] ++ rest :=
        List.prefix_append ..
      simp only [List.cons_append, update, labelsAt_cons, child?_setChild, if_true,
        Option.getD_some]
      exact ih _ hbelow

/-- Steps go on to one child at most. -/
theorem literal_eq_of_prefix {above steps : List Step} {text other : String}
    (h : above ++ [.literal text] <+: steps) (hother : above ++ [.literal other] <+: steps) :
    text = other := by
  have hsame := (List.prefix_of_prefix_length_le h hother (by simp)).eq_of_length (by simp)
  simpa using hsame

/-! ## The first walk through a node -/

/-- The number of the first walk that goes through the node at the end of the steps. -/
def firstThrough (walks : List (List Step)) (steps : List Step) : Nat :=
  walks.findIdx fun walk => decide (steps <+: walk)

theorem firstThrough_lt_iff {walks : List (List Step)} {steps : List Step} :
    firstThrough walks steps < walks.length ↔ ∃ walk ∈ walks, steps <+: walk := by
  simp [firstThrough, List.findIdx_lt_length]

/-- A later walk does not matter to what has been passed before. -/
theorem firstThrough_append {walks : List (List Step)} {steps : List Step}
    (h : ∃ walk ∈ walks, steps <+: walk) (later : List (List Step)) :
    firstThrough (walks ++ later) steps = firstThrough walks steps := by
  have hlt : firstThrough walks steps < walks.length := firstThrough_lt_iff.mpr h
  unfold firstThrough at hlt ⊢
  rw [List.findIdx_append, if_pos hlt]

theorem length_le_firstThrough {walks : List (List Step)} {steps : List Step}
    (h : ¬ ∃ walk ∈ walks, steps <+: walk) (later : List (List Step)) :
    walks.length ≤ firstThrough (walks ++ later) steps := by
  have hlt : ¬ firstThrough walks steps < walks.length := mt firstThrough_lt_iff.mp h
  unfold firstThrough at hlt ⊢
  rw [List.findIdx_append, if_neg hlt]
  exact Nat.le_add_left ..

/-! ## Nodes grown by walks -/

/-- The literal children are those that the walks go through, in the order in which they first
do. -/
structure GrownBy (node : Node) (walks : List (List Step)) : Prop where
  mem_labels : ∀ above text,
    text ∈ node.labelsAt above ↔ ∃ walk ∈ walks, above ++ [.literal text] <+: walk
  ordered : ∀ above, (node.labelsAt above).Pairwise fun first second =>
    firstThrough walks (above ++ [.literal first]) <
      firstThrough walks (above ++ [.literal second])

namespace GrownBy

variable {node : Node} {walks : List (List Step)}

theorem empty : Node.empty.GrownBy [] where
  mem_labels above text := by simp
  ordered above := by simp

/-- Another walk does not change the order of the labels that are there. -/
theorem ordered_append (h : node.GrownBy walks) (above : List Step) (later : List (List Step)) :
    (node.labelsAt above).Pairwise fun first second =>
      firstThrough (walks ++ later) (above ++ [.literal first]) <
        firstThrough (walks ++ later) (above ++ [.literal second]) := by
  apply (h.ordered above).imp_of_mem
  intro first second hfirst hsecond hlt
  rw [firstThrough_append ((h.mem_labels above first).mp hfirst),
    firstThrough_append ((h.mem_labels above second).mp hsecond)]
  exact hlt

/-- One more walk, at the end of which the node may change in other ways. -/
theorem update {change : Node → Node} (hlabels : ∀ node, (change node).labels = node.labels)
    (hchildren : ∀ node step, (change node).child? step = node.child? step)
    (h : node.GrownBy walks) (steps : List Step) :
    (node.update change steps).GrownBy (walks ++ [steps]) := by
  have hpassed : ∀ above text, (∃ walk ∈ walks ++ [steps], above ++ [.literal text] <+: walk) ↔
      text ∈ node.labelsAt above ∨ above ++ [.literal text] <+: steps := by
    intro above text
    rw [h.mem_labels]
    simp only [List.mem_append, List.mem_singleton, or_and_right, exists_or, exists_eq_left]
  constructor
  · intro above text
    rw [hpassed]
    by_cases hpass : ∃ label, above ++ [.literal label] <+: steps
    · obtain ⟨label, hlabel⟩ := hpass
      have hthis : above ++ [.literal text] <+: steps ↔ text = label := by
        constructor
        · intro htext
          exact literal_eq_of_prefix htext hlabel
        · rintro rfl
          exact hlabel
      rw [labelsAt_update_through change node hlabel, hthis]
      split
      · rename_i hold
        have hmem : text = label → text ∈ node.labelsAt above := by
          rintro rfl
          exact hold
        exact (or_iff_left_of_imp hmem).symm
      · rw [List.mem_append, List.mem_singleton]
    · have hnone : ∀ label, ¬ above ++ [.literal label] <+: steps := not_exists.mp hpass
      rw [labelsAt_update_elsewhere hlabels hchildren node hnone]
      simp only [hnone text, or_false]
  · intro above
    have hold := h.ordered_append above [steps]
    by_cases hpass : ∃ label, above ++ [.literal label] <+: steps
    · obtain ⟨label, hlabel⟩ := hpass
      rw [labelsAt_update_through change node hlabel]
      split
      · exact hold
      · rename_i hnew
        -- the new label has not been passed before, and all the others have
        have hlate : walks.length ≤ firstThrough (walks ++ [steps]) (above ++ [.literal label]) :=
          length_le_firstThrough (mt (h.mem_labels above label).mpr hnew) [steps]
        rw [List.pairwise_append]
        refine ⟨hold, List.pairwise_singleton .., ?_⟩
        intro text htext other hother
        obtain rfl := List.mem_singleton.mp hother
        have hbefore := (h.mem_labels above text).mp htext
        rw [firstThrough_append hbefore]
        exact Nat.lt_of_lt_of_le (firstThrough_lt_iff.mpr hbefore) hlate
    · rw [labelsAt_update_elsewhere hlabels hchildren node (not_exists.mp hpass)]
      exact hold

end GrownBy
end Node

namespace Registry

variable {registry next : Registry}

theorem grownBy_write {walks : List (List Step)} {key : String} {slot : Slot}
    (h : registry.root.GrownBy walks) (hwrite : registry.write key slot = (next, none)) :
    next.root.GrownBy (walks ++ [(Address.ofKey key).steps]) := by
  obtain ⟨place, hending, hroot⟩ := exists_place_of_write hwrite
  rw [hroot, ← Walk.ofKey_eq_of_ending hending]
  apply h.update
  · intro node
    cases place <;> rfl
  · intro node step
    exact Node.child?_setSlot ..

/-- After a run of writes the children stand in the order in which the keys have first gone
through them. -/
theorem grownBy_writeAll {walks : List (List Step)} {declarations : List (String × Slot)}
    (h : registry.root.GrownBy walks) (hwrite : registry.writeAll declarations = (next, none)) :
    next.root.GrownBy
      (walks ++ declarations.map fun declaration => (Address.ofKey declaration.1).steps) := by
  induction declarations generalizing registry walks with
  | nil =>
      cases hwrite
      simpa using h
  | cons first rest ih =>
      obtain ⟨key, slot⟩ := first
      obtain ⟨middle, hfirst, hrest⟩ := writeAll_cons_eq_none_iff.mp hwrite
      simpa using ih (grownBy_write h hfirst) hrest

theorem grownBy_ofDeclarations {declarations : List (String × Slot)}
    (h : ofDeclarations declarations = .ok registry) :
    registry.root.GrownBy
      (declarations.map fun declaration => (Address.ofKey declaration.1).steps) := by
  have hwrite := writeAll_of_ofDeclarations h
  simpa using grownBy_writeAll .empty hwrite

end Registry
end RouteTree
