import RouteTree.Proofs.History

/-!
# Registries are tidy

The literal children of a node are found by their labels, and the labels become those of a
switch.  A node is `Tidy` when no two of its children have the same label and every label
is a text that a path key can have between two slashes: not empty, no slash in it, not read
as a parameter and not the mark of an override.

Only a walk creates nodes.  It stops in front of every component that is no label, whether
it succeeds or fails (`Walk.isLabel_of_mem_steps`), so a registry stays tidy over any run of
calls: `Registry.tidy_applyAll`.
-/

namespace RouteTree

/-! ## Labels -/

/-- A text that leads to a literal child. -/
structure IsLabel (text : String) : Prop where
  ne_empty : text ≠ ""
  slash_not_mem : '/' ∉ text.toList
  head_ne_colon : text.toList.head? ≠ some ':'
  head_ne_asterisk : text.toList.head? ≠ some '*'
  ne_overrideMark : text ≠ overrideMark

theorem Segment.head_of_ofComponent_literal {component text : String}
    (h : Segment.ofComponent component = .literal text) :
    component.toList.head? ≠ some ':' ∧ component.toList.head? ≠ some '*' := by
  unfold Segment.ofComponent at h
  split at h
  · cases h
  · cases h
  · rename_i hcolon hasterisk
    constructor
    · intro hhead
      obtain ⟨name, hname⟩ := List.head?_eq_some_iff.mp hhead
      exact hcolon name hname
    · intro hhead
      obtain ⟨name, hname⟩ := List.head?_eq_some_iff.mp hhead
      exact hasterisk name hname

namespace Walk

/-- A step to a literal child is taken at a literal of the pattern that is neither empty
nor the mark of an override. -/
theorem of_mem_steps {pattern : List Segment} {text : String}
    (h : .literal text ∈ (ofSegments pattern).steps) :
    .literal text ∈ pattern ∧ text ≠ "" ∧ text ≠ overrideMark := by
  induction pattern with
  | nil => simp [ofSegments] at h
  | cons segment rest ih =>
      cases segment with
      | catchAll name => simp [ofSegments] at h
      | dynamic name =>
          obtain ⟨hmem, hne⟩ := ih (by simpa [ofSegments] using h)
          exact ⟨List.mem_cons_of_mem _ hmem, hne⟩
      | literal first =>
          simp only [ofSegments] at h
          split at h
          · simp at h
          · split at h
            · simp at h
            · rename_i hmark hempty
              rcases List.mem_cons.mp h with heq | hrest
              · obtain rfl : text = first := by simpa using heq
                exact ⟨List.mem_cons_self .., hempty, hmark⟩
              · obtain ⟨hmem, hne⟩ := ih hrest
                exact ⟨List.mem_cons_of_mem _ hmem, hne⟩

/-- The literal children that a key passes, or creates, have good labels. -/
theorem isLabel_of_mem_steps {key text : String} (h : .literal text ∈ (ofKey key).steps) :
    IsLabel text := by
  simp only [ofKey] at h
  split at h
  · simp at h
  · obtain ⟨hmem, hempty, hmark⟩ := of_mem_steps h
    obtain ⟨component, hcomponent, hsegment⟩ := List.mem_map.mp hmem
    obtain rfl := Segment.ofComponent_literal hsegment
    obtain ⟨hcolon, hasterisk⟩ := Segment.head_of_ofComponent_literal hsegment
    exact ⟨hempty, slash_not_mem_of_mem_components hcomponent, hcolon, hasterisk, hmark⟩

end Walk

/-! ## Nodes -/

namespace Node

/-- The labels of the literal children. -/
def labels (node : Node) : List String :=
  node.statics.map (·.1)

/-- A node whose labels, and those of all the nodes below it, are good and tell its
children apart. -/
inductive Tidy : Node → Prop
  | intro {node : Node} (hdistinct : node.labels.Nodup)
      (hlabels : ∀ label ∈ node.labels, IsLabel label)
      (hchildren : ∀ step child, node.child? step = some child → Tidy child) : Tidy node

theorem labels_setChild (node child : Node) (text : String) :
    (node.setChild (.literal text) child).labels =
      if text ∈ node.labels then node.labels else node.labels ++ [text] :=
  map_fst_assign text child node.statics

namespace Tidy

variable {node child : Node}

theorem empty : Node.empty.Tidy :=
  .intro List.nodup_nil (by simp [labels, Node.empty]) (by simp)

theorem setSlot (h : node.Tidy) (place : Place) (slot : Slot) :
    (node.setSlot place slot).Tidy := by
  obtain ⟨hdistinct, hlabels, hchildren⟩ := h
  have hsame : (node.setSlot place slot).labels = node.labels := by cases place <;> rfl
  refine .intro (by rwa [hsame]) (by rwa [hsame]) fun step child hchild => ?_
  exact hchildren step child (by simpa using hchild)

theorem setChild (h : node.Tidy) {step : Step}
    (hstep : ∀ text, step = .literal text → IsLabel text) (hchild : child.Tidy) :
    (node.setChild step child).Tidy := by
  obtain ⟨hdistinct, hlabels, hchildren⟩ := h
  have hbelow : ∀ other below, (node.setChild step child).child? other = some below →
      below.Tidy := by
    intro other below hother
    rw [child?_setChild] at hother
    split at hother
    · cases hother
      exact hchild
    · exact hchildren other below hother
  cases step with
  | dynamic => exact .intro hdistinct hlabels hbelow
  | literal text =>
      have hlabel := hstep text rfl
      by_cases hknown : text ∈ node.labels
      · have hsame := labels_setChild node child text
        rw [if_pos hknown] at hsame
        exact .intro (by rwa [hsame]) (by rwa [hsame]) hbelow
      · have hmore := labels_setChild node child text
        rw [if_neg hknown] at hmore
        refine .intro ?_ ?_ hbelow
        · rw [hmore]
          exact List.nodup_append.mpr ⟨hdistinct, by simp, by
            rintro label hmem other hother rfl
            exact hknown (by rwa [List.mem_singleton.mp hother] at hmem)⟩
        · rw [hmore]
          intro label hmem
          rcases List.mem_append.mp hmem with hold | hnew
          · exact hlabels label hold
          · rwa [List.mem_singleton.mp hnew]

/-- Creating the nodes along some steps and changing the last one keeps everything tidy. -/
theorem update {change : Node → Node} (hchange : ∀ node, node.Tidy → (change node).Tidy)
    (h : node.Tidy) {steps : List Step} (hsteps : ∀ text, .literal text ∈ steps → IsLabel text) :
    (node.update change steps).Tidy := by
  induction steps generalizing node with
  | nil => exact hchange node h
  | cons step steps ih =>
      have hstart : ((node.child? step).getD Node.empty).Tidy := by
        obtain ⟨-, -, hchildren⟩ := h
        cases hchild : node.child? step with
        | none => exact empty
        | some child => exact hchildren step child hchild
      -- the child is as tidy as the one that was there, or new
      refine h.setChild ?_ (ih hstart fun text hmem => hsteps text (List.mem_cons_of_mem _ hmem))
      rintro text rfl
      exact hsteps text (List.mem_cons_self ..)

end Tidy
end Node

/-! ## Registries -/

namespace Registry

/-- A write keeps the registry tidy, also where it fails half way. -/
theorem tidy_write {registry : Registry} (h : registry.root.Tidy) (key : String)
    (slot : Slot) : (registry.write key slot).1.root.Tidy := by
  have hsteps : ∀ text, .literal text ∈ (Walk.ofKey key).steps → IsLabel text :=
    fun text => Walk.isLabel_of_mem_steps
  simp only [write]
  split
  · exact h.update (fun _ h => h) hsteps
  · exact h.update (fun _ h => h.setSlot ..) hsteps

theorem tidy_of_write {registry next : Registry} {key : String} {slot : Slot}
    {result : Option CompileError} (h : registry.root.Tidy)
    (hwrite : registry.write key slot = (next, result)) : next.root.Tidy := by
  simpa [hwrite] using tidy_write h key slot

theorem tidy_writeAll {registry : Registry} (h : registry.root.Tidy)
    (declarations : List (String × Slot)) : (registry.writeAll declarations).1.root.Tidy :=
  @kept_writeAll (fun registry _ => registry.root.Tidy) tidy_of_write tidy_of_write registry [] h
    declarations

/-- Every run of calls leaves a tidy registry. -/
theorem tidy_applyAll (changes : List Change) : (empty.applyAll changes).root.Tidy :=
  @kept_applyAll (fun registry _ => registry.root.Tidy) tidy_of_write tidy_of_write empty []
    Node.Tidy.empty changes

end Registry
end RouteTree
