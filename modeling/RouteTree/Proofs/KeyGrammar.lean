import RouteTree.Proofs.Collision
import RouteTree.Proofs.KeyAddress

/-!
# The grammar of path keys

Which keys are good can be said on their components alone.  A component that starts with an
asterisk, and the mark of an override, must be the last one, and no component is empty.  Of
several faults the asterisk is reported, wherever it is, and otherwise the leftmost one.

A walk stops at the same fault (`Walk.failure?_ofKey`), so what a walk accepts is what the
grammar accepts.
-/

namespace RouteTree

/-- The leftmost component that is empty, or marks an override before the end. -/
def componentFault? : List String → Option PatternFault
  | [] => none
  | part :: rest =>
    if part = "" then some .emptySegment
    else if part = overrideMark ∧ rest ≠ [] then some .overrideNotLast
    else componentFault? rest

/-- What is wrong with the components of a key, if anything is. -/
def keyFault? (parts : List String) : Option PatternFault :=
  if ∃ part ∈ parts.dropLast, part.toList.head? = some '*' then some .catchAllNotLast
  else componentFault? parts

theorem Segment.isCatchAll_ofComponent (part : String) :
    (Segment.ofComponent part).isCatchAll = true ↔ part.toList.head? = some '*' := by
  unfold Segment.ofComponent
  split
  · rename_i name hcolon
    simp [Segment.isCatchAll, hcolon]
  · rename_i name hasterisk
    simp [Segment.isCatchAll, hasterisk]
  · rename_i hcolon hasterisk
    simp only [Segment.isCatchAll, Bool.false_eq_true, false_iff]
    intro hhead
    obtain ⟨name, hname⟩ := List.head?_eq_some_iff.mp hhead
    exact hasterisk name hname

theorem hasMisplacedCatchAll_iff (parts : List String) :
    hasMisplacedCatchAll (parts.map Segment.ofComponent) = true ↔
      ∃ part ∈ parts.dropLast, part.toList.head? = some '*' := by
  unfold hasMisplacedCatchAll
  rw [← List.map_dropLast, List.any_map, List.any_eq_true]
  simp only [Function.comp_apply, Segment.isCatchAll_ofComponent]

namespace Walk

/-- A walk stops at the leftmost fault. -/
theorem failure?_ofSegments {parts : List String}
    (hlast : hasMisplacedCatchAll (parts.map Segment.ofComponent) = false) :
    failure? (ofSegments (parts.map Segment.ofComponent)).ending = componentFault? parts := by
  induction parts with
  | nil => rfl
  | cons part rest ih =>
      have hrest : rest ≠ [] → (Segment.ofComponent part).isCatchAll = false ∧
          hasMisplacedCatchAll (rest.map Segment.ofComponent) = false := by
        intro hmore
        exact (hasMisplacedCatchAll_cons (by simpa using hmore)).mp hlast
      have hnext : failure? (ofSegments (rest.map Segment.ofComponent)).ending =
          componentFault? rest := by
        by_cases hmore : rest = []
        · subst hmore
          rfl
        · exact ih (hrest hmore).2
      rw [List.map_cons, componentFault?]
      cases hsegment : Segment.ofComponent part with
      | catchAll name =>
          have hmark : part ≠ overrideMark := Segment.ne_overrideMark (by simp [hsegment])
          have hempty : part ≠ "" := by
            rintro rfl
            cases hsegment
          cases rest with
          | nil => simp [ofSegments, componentFault?, hempty, hmark]
          | cons next rest =>
              have hcatchAll := (hrest (by simp)).1
              rw [hsegment] at hcatchAll
              cases hcatchAll
      | dynamic name =>
          have hmark : part ≠ overrideMark := Segment.ne_overrideMark (by simp [hsegment])
          have hempty : part ≠ "" := by
            rintro rfl
            cases hsegment
          simp [ofSegments, hempty, hmark, hnext]
      | literal text =>
          obtain rfl := Segment.ofComponent_literal hsegment
          by_cases hmark : text = overrideMark
          · subst hmark
            cases rest with
            | nil => rfl
            | cons next rest => rfl
          · by_cases hempty : text = ""
            · simp [ofSegments, hempty, overrideMark]
            · simp [ofSegments, hmark, hempty, hnext]

/-- A key is followed to its end unless the grammar finds a fault. -/
theorem failure?_ofKey (key : String) :
    failure? (ofKey key).ending = keyFault? (components key) := by
  have hlast : hasMisplacedCatchAll (segments key) = true ↔
      ∃ part ∈ (components key).dropLast, part.toList.head? = some '*' :=
    hasMisplacedCatchAll_iff (components key)
  unfold ofKey keyFault?
  by_cases hmisplaced : hasMisplacedCatchAll (segments key) = true
  · rw [if_pos (hlast.mp hmisplaced)]
    simp only [hmisplaced, if_true]
    rfl
  · rw [if_neg (mt hlast.mpr hmisplaced)]
    rw [Bool.not_eq_true] at hmisplaced
    simp only [hmisplaced, Bool.false_eq_true, if_false]
    exact failure?_ofSegments hmisplaced

end Walk
end RouteTree
