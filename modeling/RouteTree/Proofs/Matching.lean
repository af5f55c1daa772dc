import RouteTree.Proofs.Table

/-!
# Which declaration answers a request

This file says, on the flat table alone, which of all declared addresses a request is
meant for.  Three things decide it.

* `Address.Matches`: the steps accept the first components of the request, and the
  place accepts what is left of it.
* `Table.Live`: no override is declared at the node or above it, other than the
  declaration itself.
* `Address.rank`: of two candidates the one that is more special at the first step
  where they differ comes first.  A literal is more special than a parameter, and a
  parameter more than a catch-all, which takes no further step at all.

Nothing here mentions nodes, trees or a search.
-/

namespace RouteTree

/-! ## Matching -/

/-- What is left of a request before its end is the next component and what is left after
that. -/
theorem of_drop_eq_cons {request rest : List String} {depth : Nat} {component : String}
    (h : request.drop depth = component :: rest) :
    request[depth]? = some component ∧ request.drop (depth + 1) = rest := by
  refine ⟨?_, ?_⟩
  · rw [← List.head?_drop, h]
    rfl
  · rw [← List.tail_drop, h]
    rfl

/-- A step accepts a component that is not empty and is its literal, if it has one. -/
def Step.Accepts (step : Step) (component : String) : Prop :=
  component ≠ "" ∧ (step = .dynamic ∨ step = .literal component)

/-- What a place asks of a request once `depth` steps are taken: an exact declaration
that nothing is left, a catch-all that there is a next component and that it is not
empty, and an override nothing. -/
def Place.Accepts (place : Place) (request : List String) (depth : Nat) : Prop :=
  match place with
  | .exact => depth = request.length
  | .catchAll => ∃ component, request[depth]? = some component ∧ component ≠ ""
  | .override => True

/-- The address accepts the request. -/
structure Address.Matches (address : Address) (request : List String) : Prop where
  /-- every step has a component of its own, which it accepts -/
  steps : ∀ (j : Nat) (step : Step), address.steps[j]? = some step →
    ∃ component, request[j]? = some component ∧ step.Accepts component
  place : address.place.Accepts request address.steps.length

@[simp] theorem Place.accepts_cons (place : Place) (component : String) (rest : List String)
    (depth : Nat) :
    place.Accepts (component :: rest) (depth + 1) ↔ place.Accepts rest depth := by
  cases place <;> simp [Place.Accepts]

namespace Address

@[simp] theorem steps_after (step : Step) (address : Address) :
    (address.after step).steps = step :: address.steps := rfl

@[simp] theorem place_after (step : Step) (address : Address) :
    (address.after step).place = address.place := rfl

theorem after_eq_after_iff {step other : Step} {first second : Address} :
    first.after step = second.after other ↔ step = other ∧ first = second := by
  cases first
  cases second
  simp [after, and_assoc]

@[simp] theorem after_inj {step : Step} {first second : Address} :
    first.after step = second.after step ↔ first = second := by
  simp [after_eq_after_iff]

theorem eq_root_or_after (address : Address) :
    address = ⟨[], address.place⟩ ∨ ∃ step below, address = Address.after step below := by
  obtain ⟨steps, place⟩ := address
  cases steps with
  | nil => exact Or.inl rfl
  | cons step steps => exact Or.inr ⟨step, ⟨steps, place⟩, rfl⟩

@[simp] theorem matches_root (place : Place) (request : List String) :
    Address.Matches ⟨[], place⟩ request ↔ place.Accepts request 0 :=
  ⟨fun h => h.place, fun h => ⟨fun j step hstep => by simp at hstep, h⟩⟩

@[simp] theorem not_matches_after_nil (step : Step) (address : Address) :
    ¬ (address.after step).Matches [] := by
  intro h
  obtain ⟨component, hcomponent, _⟩ := h.steps 0 step rfl
  simp at hcomponent

@[simp] theorem matches_after_cons (step : Step) (address : Address) (component : String)
    (rest : List String) :
    (address.after step).Matches (component :: rest) ↔
      step.Accepts component ∧ address.Matches rest := by
  constructor
  · intro h
    obtain ⟨first, hfirst, haccepts⟩ := h.steps 0 step rfl
    obtain rfl : component = first := by simpa using hfirst
    refine ⟨haccepts, fun j step hstep => ?_, by simpa using h.place⟩
    simpa using h.steps (j + 1) step (by simpa using hstep)
  · rintro ⟨haccepts, h⟩
    refine ⟨fun j step' hstep => ?_, by simpa using h.place⟩
    cases j with
    | zero =>
        obtain rfl : step = step' := by simpa using hstep
        exact ⟨component, rfl, haccepts⟩
    | succ j => simpa using h.steps j step' (by simpa using hstep)

/-! ## Precedence -/

/-- How special the steps are, first step first.  A literal counts more than a
parameter, and as lists are compared like words, a further step counts more than
none. -/
def rank (address : Address) : List Nat :=
  address.steps.map fun step =>
    match step with
    | .literal _ => 1
    | .dynamic => 0

@[simp] theorem rank_root (place : Place) : rank ⟨[], place⟩ = [] := rfl

@[simp] theorem rank_after_literal (text : String) (address : Address) :
    (address.after (.literal text)).rank = 1 :: address.rank := rfl

@[simp] theorem rank_after_dynamic (address : Address) :
    (address.after .dynamic).rank = 0 :: address.rank := rfl

theorem rank_after_lt_iff (step : Step) (first second : Address) :
    (first.after step).rank < (second.after step).rank ↔ first.rank < second.rank := by
  cases step <;> simp

theorem rank_root_lt_after (place : Place) (step : Step) (address : Address) :
    rank ⟨[], place⟩ < (address.after step).rank := by
  cases step <;> simp

theorem rank_dynamic_lt_literal (text : String) (first second : Address) :
    (first.after .dynamic).rank < (second.after (.literal text)).rank := by
  simp [List.cons_lt_cons_iff]

end Address

namespace Table

/-! ## Live declarations -/

/-- The table seen from one step down. -/
def below (table : Table) (step : Step) : Table := fun address => table (address.after step)

/-- Something is declared at the address, and no override at its node or above it takes
its place. -/
structure Live (table : Table) (address : Address) : Prop where
  declared : table address ≠ none
  /-- the only override on the way is the address itself -/
  not_overridden : ∀ steps, steps <+: address.steps → table ⟨steps, .override⟩ ≠ none →
    address = ⟨steps, .override⟩

/-- A live declaration that matches the request. -/
structure Candidate (table : Table) (request : List String) (address : Address) : Prop where
  accepts : address.Matches request
  live : table.Live address

/-- The candidate that comes before all others. -/
structure IsBest (table : Table) (request : List String) (address : Address) : Prop where
  candidate : table.Candidate request address
  rank_lt : ∀ other, table.Candidate request other → other ≠ address →
    other.rank < address.rank

variable {table : Table} {request : List String}

theorem IsBest.unique {first second : Address} (hfirst : table.IsBest request first)
    (hsecond : table.IsBest request second) : first = second := by
  by_cases hne : first = second
  · exact hne
  · have hlt := hfirst.rank_lt second hsecond.candidate (Ne.symm hne)
    exact absurd (hsecond.rank_lt first hfirst.candidate hne) (List.lt_asymm hlt)

theorem live_after (hroot : table ⟨[], .override⟩ = none) (step : Step) (address : Address) :
    table.Live (address.after step) ↔ (table.below step).Live address := by
  constructor
  · rintro ⟨hdeclared, hover⟩
    refine ⟨hdeclared, fun steps hsteps hheld => ?_⟩
    have h := hover (step :: steps) (List.cons_prefix_cons.mpr ⟨rfl, hsteps⟩) hheld
    exact Address.after_inj.mp h
  · rintro ⟨hdeclared, hover⟩
    refine ⟨hdeclared, fun steps hsteps hheld => ?_⟩
    cases steps with
    | nil => exact absurd hroot hheld
    | cons first steps =>
        rw [Address.steps_after] at hsteps
        obtain ⟨rfl, hrest⟩ := List.cons_prefix_cons.mp hsteps
        exact Address.after_inj.mpr (hover steps hrest hheld)

theorem live_root (hroot : table ⟨[], .override⟩ = none) (place : Place) :
    table.Live ⟨[], place⟩ ↔ table ⟨[], place⟩ ≠ none := by
  refine ⟨fun h => h.declared, fun h => ⟨h, fun steps hsteps hheld => ?_⟩⟩
  obtain rfl := List.prefix_nil.mp hsteps
  exact absurd hroot hheld

/-- An override hides everything else. -/
theorem live_iff_of_override (hroot : table ⟨[], .override⟩ ≠ none) (address : Address) :
    table.Live address ↔ address = ⟨[], .override⟩ := by
  constructor
  · intro h
    exact h.not_overridden [] List.nil_prefix hroot
  · rintro rfl
    refine ⟨hroot, fun steps hsteps _ => ?_⟩
    rw [List.prefix_nil.mp hsteps]

/-! ## The candidates of a node -/

/-- An override leaves no other candidate. -/
theorem candidate_iff_of_override (hroot : table ⟨[], .override⟩ ≠ none) (address : Address) :
    table.Candidate request address ↔ address = ⟨[], .override⟩ := by
  constructor
  · intro h
    exact (live_iff_of_override hroot address).mp h.live
  · rintro rfl
    exact ⟨(Address.matches_root _ _).mpr trivial, (live_iff_of_override hroot _).mpr rfl⟩

/-- At the end of the request only the exact declaration is left. -/
theorem candidate_nil_iff (hroot : table ⟨[], .override⟩ = none) (address : Address) :
    table.Candidate [] address ↔
      address = ⟨[], .exact⟩ ∧ table ⟨[], .exact⟩ ≠ none := by
  constructor
  · rintro ⟨haccepts, hlive⟩
    obtain hplace | ⟨step, below, rfl⟩ := address.eq_root_or_after
    · rw [hplace] at haccepts hlive ⊢
      rw [live_root hroot] at hlive
      cases hkind : address.place with
      | exact => rw [hkind] at hlive; exact ⟨rfl, hlive⟩
      | catchAll => simp [hkind, Place.Accepts] at haccepts
      | override => rw [hkind] at hlive; exact absurd hroot hlive
    · exact absurd haccepts (Address.not_matches_after_nil step below)
  · rintro ⟨rfl, hheld⟩
    exact ⟨(Address.matches_root _ _).mpr rfl, (live_root hroot _).mpr hheld⟩

/-- Before the end it is the catch-all, or lies below a step that accepts the next
component. -/
theorem candidate_cons_iff (hroot : table ⟨[], .override⟩ = none) (component : String)
    (rest : List String) (address : Address) :
    table.Candidate (component :: rest) address ↔
      component ≠ "" ∧
        (address = ⟨[], .catchAll⟩ ∧ table ⟨[], .catchAll⟩ ≠ none ∨
          ∃ step below, address = Address.after step below ∧
            (step = .dynamic ∨ step = .literal component) ∧
              (table.below step).Candidate rest below) := by
  constructor
  · rintro ⟨haccepts, hlive⟩
    obtain hplace | ⟨step, below, rfl⟩ := address.eq_root_or_after
    · rw [hplace] at haccepts hlive ⊢
      rw [live_root hroot] at hlive
      cases hkind : address.place with
      | exact => simp [hkind, Place.Accepts] at haccepts
      | catchAll =>
          rw [hkind] at hlive haccepts
          exact ⟨by simpa [Place.Accepts] using haccepts, Or.inl ⟨rfl, hlive⟩⟩
      | override => rw [hkind] at hlive; exact absurd hroot hlive
    · obtain ⟨⟨hne, hstep⟩, haccepts⟩ := (Address.matches_after_cons ..).mp haccepts
      exact ⟨hne, Or.inr ⟨step, below, rfl, hstep, haccepts, (live_after hroot ..).mp hlive⟩⟩
  · rintro ⟨hne, ⟨rfl, hheld⟩ | ⟨step, below, rfl, hstep, haccepts, hlive⟩⟩
    · exact ⟨(Address.matches_root _ _).mpr ⟨component, rfl, hne⟩,
        (live_root hroot _).mpr hheld⟩
    · exact ⟨(Address.matches_after_cons ..).mpr ⟨⟨hne, hstep⟩, haccepts⟩,
        (live_after hroot ..).mpr hlive⟩

end Table
end RouteTree
