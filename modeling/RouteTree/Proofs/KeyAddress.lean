import RouteTree.Registry.Address

/-!
# The address that a path key spells

`Walk.ofKey` follows a key from left to right and may stop at a fault.  For a key
that it accepts there is a shorter way to say where it leads: the last component
decides the place, and the components before it, without the names of their
parameters, are the steps.  `Address.ofKey` says it that way, and
`ofKey_eq_of_ending` shows that an accepted walk ends there.
-/

namespace RouteTree

/-- The step of one component: a parameter steps to the child for any text, whatever
its name. -/
def Step.ofComponent (component : String) : Step :=
  match Segment.ofComponent component with
  | .dynamic _ => .dynamic
  | _ => .literal component

/-- The place that the last component of a key names, if it names one. -/
def Place.ofLast : Option String → Place
  | none => .exact
  | some component =>
    if component = overrideMark then .override
    else if (Segment.ofComponent component).isCatchAll then .catchAll
    else .exact

/-- The address spelled by the components of a key. -/
def Address.ofComponents (parts : List String) : Address :=
  match Place.ofLast parts.getLast? with
  | .exact => ⟨parts.map Step.ofComponent, .exact⟩
  | place => ⟨parts.dropLast.map Step.ofComponent, place⟩

def Address.ofKey (key : String) : Address :=
  Address.ofComponents (components key)

/-- The address one step further down. -/
def Address.after (step : Step) (address : Address) : Address :=
  ⟨step :: address.steps, address.place⟩

/-! ## Accepted keys -/

theorem Address.ofComponents_cons (component : String) {parts : List String}
    (hmore : parts ≠ []) :
    Address.ofComponents (component :: parts) =
      (Address.ofComponents parts).after (Step.ofComponent component) := by
  obtain ⟨next, rest, rfl⟩ := List.exists_cons_of_ne_nil hmore
  have hlast : (component :: next :: rest).getLast? = (next :: rest).getLast? := by
    rw [List.getLast?_cons_cons]
  unfold Address.ofComponents
  rw [hlast]
  cases Place.ofLast (next :: rest).getLast? <;> rfl

/-- A segment before the end is no catch-all, and leaves the rest of the pattern as
good as it was. -/
theorem hasMisplacedCatchAll_cons {segment : Segment} {pattern : List Segment}
    (hmore : pattern ≠ []) :
    hasMisplacedCatchAll (segment :: pattern) = false ↔
      segment.isCatchAll = false ∧ hasMisplacedCatchAll pattern = false := by
  unfold hasMisplacedCatchAll
  rw [List.dropLast_cons_of_ne_nil hmore, List.any_cons, Bool.or_eq_false_iff]

theorem Segment.ofComponent_literal {component text : String}
    (h : Segment.ofComponent component = .literal text) : text = component := by
  unfold Segment.ofComponent at h
  split at h
  · cases h
  · cases h
  · injection h with h
    exact h.symm

/-- The override mark is a literal, so a parameter is never mistaken for it. -/
theorem Segment.ne_overrideMark {component : String}
    (h : Segment.ofComponent component ≠ .literal component) : component ≠ overrideMark := by
  rintro rfl
  exact h (by decide)

namespace Walk

@[simp] theorem steps_after (step : Step) (walk : Walk) :
    (walk.after step).steps = step :: walk.steps := rfl

@[simp] theorem ending_after (step : Step) (walk : Walk) :
    (walk.after step).ending = walk.ending := rfl

/-- A walk that finds a place has taken a step at every component before the last. -/
theorem ofSegments_cons {component : String} {rest : List Segment} {place : Place}
    (hmore : rest ≠ []) (hfirst : (Segment.ofComponent component).isCatchAll = false)
    (hending : (ofSegments (Segment.ofComponent component :: rest)).ending = .ok place) :
    ofSegments (Segment.ofComponent component :: rest) =
      (ofSegments rest).after (Step.ofComponent component) := by
  cases hsegment : Segment.ofComponent component with
  | catchAll name => rw [hsegment] at hfirst; cases hfirst
  | dynamic name => simp only [ofSegments, Step.ofComponent, hsegment]
  | literal text =>
      obtain rfl := Segment.ofComponent_literal hsegment
      have hrest : rest.isEmpty = false := by simpa using hmore
      rw [hsegment] at hending
      simp only [ofSegments, hrest] at hending ⊢
      split at hending
      · cases hending
      · split at hending
        · cases hending
        · simp only [*, if_false, Step.ofComponent]

theorem ofSegments_singleton {component : String} {place : Place}
    (hending : (ofSegments [Segment.ofComponent component]).ending = .ok place) :
    ⟨(ofSegments [Segment.ofComponent component]).steps, place⟩ =
      Address.ofComponents [component] := by
  cases hsegment : Segment.ofComponent component with
  | catchAll name =>
      have hmark : component ≠ overrideMark := Segment.ne_overrideMark (by simp [hsegment])
      rw [hsegment] at hending
      cases hending
      simp [ofSegments, Address.ofComponents, Place.ofLast, hmark, hsegment, Segment.isCatchAll]
  | dynamic name =>
      have hmark : component ≠ overrideMark := Segment.ne_overrideMark (by simp [hsegment])
      rw [hsegment] at hending
      cases hending
      simp [ofSegments, Address.ofComponents, Place.ofLast, hmark, hsegment, Segment.isCatchAll,
        Step.ofComponent, after]
  | literal text =>
      obtain rfl := Segment.ofComponent_literal hsegment
      rw [hsegment] at hending
      simp only [ofSegments] at hending ⊢
      split at hending
      · rename_i htext
        cases hending
        simp [Address.ofComponents, Place.ofLast, htext]
      · split at hending
        · cases hending
        · rename_i htext hempty
          cases hending
          simp [Address.ofComponents, Place.ofLast, htext, hempty, hsegment, Segment.isCatchAll,
            Step.ofComponent, after]

/-- Walking along components to a place ends at the address that they spell. -/
theorem ofSegments_eq_ofComponents (parts : List String) {place : Place}
    (hlast : hasMisplacedCatchAll (parts.map Segment.ofComponent) = false)
    (hending : (ofSegments (parts.map Segment.ofComponent)).ending = .ok place) :
    ⟨(ofSegments (parts.map Segment.ofComponent)).steps, place⟩ =
      Address.ofComponents parts := by
  induction parts with
  | nil =>
      cases hending
      rfl
  | cons component rest ih =>
      by_cases hmore : rest = []
      · subst hmore
        exact ofSegments_singleton hending
      · have hmap : rest.map Segment.ofComponent ≠ [] := by simpa using hmore
        obtain ⟨hfirst, hrest⟩ := (hasMisplacedCatchAll_cons hmap).mp hlast
        have hwalk := ofSegments_cons hmap hfirst hending
        rw [List.map_cons] at hending ⊢
        rw [hwalk] at hending ⊢
        rw [Address.ofComponents_cons component hmore, ← ih hrest hending]
        rfl

theorem misplaced_of_ending {key : String} {place : Place}
    (hending : (ofKey key).ending = .ok place) :
    hasMisplacedCatchAll (segments key) = false := by
  unfold ofKey at hending
  cases hlast : hasMisplacedCatchAll (segments key) with
  | true => simp [hlast] at hending
  | false => rfl

/-- An accepted key leads to the address that it spells. -/
theorem ofKey_eq_of_ending {key : String} {place : Place}
    (hending : (ofKey key).ending = .ok place) :
    ⟨(ofKey key).steps, place⟩ = Address.ofKey key := by
  have hlast := misplaced_of_ending hending
  unfold ofKey at hending ⊢
  simp only [hlast] at hending ⊢
  exact ofSegments_eq_ofComponents (components key) hlast hending

end Walk
end RouteTree
