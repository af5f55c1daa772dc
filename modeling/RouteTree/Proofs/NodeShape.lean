import RouteTree.Proofs.Growth

/-!
# The shape of a node

A node is made of declarations and of the nodes below it.  `Node.find?` reads the declarations.
`Node.SameShape` compares the rest: which nodes there are, and in which order the literal children
stand.  As long as no two children have one label, nodes that agree in both are equal
(`eq_of_sameShape`).

A walk creates the nodes that it passes and no others (`isSome_at?_update`).  So where all of them
are there, the shape stays as it is, whatever is changed at the end of the walk
(`sameShape_update`).
-/

namespace RouteTree
namespace Node

variable {node : Node} {above steps : List Step}

/-! ## Nodes on the way to a node -/

theorem at?_append (node : Node) (above below : List Step) :
    node.at? (above ++ below) = (node.at? above).bind (·.at? below) := by
  induction above generalizing node with
  | nil => rfl
  | cons step above ih => simp only [List.cons_append, at?, ih, Option.bind_assoc]

theorem isSome_at?_above (h : above <+: steps) (hnode : (node.at? steps).isSome = true) :
    (node.at? above).isSome = true := by
  obtain ⟨below, rfl⟩ := h
  rw [at?_append] at hnode
  exact Option.isSome_of_isSome_bind hnode

theorem isSome_at?_empty : ((empty.at? steps).isSome = true) ↔ steps = [] := by
  cases steps with
  | nil => simp [at?]
  | cons step steps => simp [at?]

/-- A label at the end of some steps is a node one step further down. -/
theorem mem_labelsAt_iff {text : String} :
    text ∈ node.labelsAt above ↔ (node.at? (above ++ [.literal text])).isSome = true := by
  have hlabels : ∀ node : Node, text ∈ node.labels ↔
      (node.child? (.literal text)).isSome = true := by
    intro node
    simp [labels, child?, List.lookup_isSome_iff]
  rw [labelsAt, at?_append]
  cases node.at? above with
  | none => simp [labels, empty]
  | some found =>
      rw [Option.getD_some, hlabels]
      simp [at?]

/-- A walk leaves the nodes that were there and those that it has passed. -/
theorem isSome_at?_update {change : Node → Node}
    (hchildren : ∀ node step, (change node).child? step = node.child? step) :
    ((node.update change steps).at? above).isSome = true ↔
      (node.at? above).isSome = true ∨ above <+: steps := by
  induction steps generalizing node above with
  | nil =>
      cases above with
      | nil => simp [update, at?]
      | cons step above => simp [update, at?, hchildren]
  | cons first steps ih =>
      cases above with
      | nil => simp [at?]
      | cons step above =>
          rw [update, at?, at?, child?_setChild, List.cons_prefix_cons]
          by_cases hstep : step = first
          · subst hstep
            rw [if_pos rfl, Option.bind_some, ih]
            cases hchild : node.child? step with
            | some child => simp
            | none =>
                -- the child is new, so it is the walk that has come to it
                have hnew : above = [] → above <+: steps := by
                  rintro rfl
                  exact List.nil_prefix
                simpa [isSome_at?_empty] using hnew
          · rw [if_neg hstep]
            simp [hstep]

/-! ## Nodes of one shape -/

/-- The same nodes are there, and their literal children stand in the same order. -/
structure SameShape (first second : Node) : Prop where
  isSome_at? : ∀ steps, (first.at? steps).isSome = (second.at? steps).isSome
  labelsAt : ∀ above, first.labelsAt above = second.labelsAt above

theorem SameShape.trans {first second third : Node} (h : first.SameShape second)
    (h' : second.SameShape third) : first.SameShape third where
  isSome_at? steps := (h.isSome_at? steps).trans (h'.isSome_at? steps)
  labelsAt above := (h.labelsAt above).trans (h'.labelsAt above)

theorem SameShape.child {first second child child' : Node} (h : first.SameShape second)
    {step : Step} (hchild : first.child? step = some child)
    (hchild' : second.child? step = some child') : child.SameShape child' where
  isSome_at? steps := by simpa [at?, hchild, hchild'] using h.isSome_at? (step :: steps)
  labelsAt above := by simpa [labelsAt_cons, hchild, hchild'] using h.labelsAt (step :: above)

/-- Nothing but its declarations tells a node from others of its shape. -/
theorem eq_of_sameShape {first second : Node} (htidy : first.Tidy) (htidy' : second.Tidy)
    (hshape : first.SameShape second) (hfind : first.find? = second.find?) : first = second := by
  induction htidy generalizing second with
  | @intro first hdistinct hgood hbelow ih =>
      obtain ⟨-, -, hbelow'⟩ := htidy'
      have hslot : ∀ place, first.slot? place = second.slot? place := by
        intro place
        simpa using congrFun hfind ⟨[], place⟩
      have hchild : ∀ step, first.child? step = second.child? step := by
        intro step
        have hthere : (first.child? step).isSome = (second.child? step).isSome := by
          simpa [at?] using hshape.isSome_at? [step]
        cases hone : first.child? step with
        | none =>
            rw [hone, Option.isSome_none, eq_comm, Option.isSome_eq_false_iff] at hthere
            exact (Option.isNone_iff_eq_none.mp hthere).symm
        | some child =>
            rw [hone, Option.isSome_some, eq_comm, Option.isSome_iff_exists] at hthere
            obtain ⟨child', hother⟩ := hthere
            have hdeclared : child.find? = child'.find? := by
              funext address
              simpa [hone, hother] using congrFun hfind ⟨step :: address.steps, address.place⟩
            rw [hother]
            exact congrArg some
              (ih step child hone (hbelow' step child' hother) (hshape.child hone hother) hdeclared)
      have hstatics : first.statics = second.statics :=
        eq_of_lookup_eq (hshape.labelsAt []) hdistinct fun text => hchild (.literal text)
      cases first
      cases second
      rw [Node.mk.injEq]
      exact ⟨hslot .exact, hchild .dynamic, hslot .catchAll, hslot .override, hstatics⟩

/-- A walk along nodes that are there changes no shape. -/
theorem sameShape_update {change : Node → Node}
    (hlabels : ∀ node, (change node).labels = node.labels)
    (hchildren : ∀ node step, (change node).child? step = node.child? step)
    (hthere : (node.at? steps).isSome = true) : (node.update change steps).SameShape node where
  isSome_at? above := by
    rw [Bool.eq_iff_iff, isSome_at?_update hchildren]
    exact or_iff_left_of_imp fun hprefix => isSome_at?_above hprefix hthere
  labelsAt above := by
    by_cases hpass : ∃ text, above ++ [.literal text] <+: steps
    · obtain ⟨text, htext⟩ := hpass
      rw [labelsAt_update_through change node htext]
      exact if_pos (mem_labelsAt_iff.mpr (isSome_at?_above htext hthere))
    · exact labelsAt_update_elsewhere hlabels hchildren node (not_exists.mp hpass)

end Node
end RouteTree
