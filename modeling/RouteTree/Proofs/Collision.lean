import RouteTree.Proofs.Fitting
import RouteTree.Proofs.Lowering

/-!
# Which parameters collide

On the way down a route, from one pattern to the next, a parameter name may stand for one
position of the request only.  This file says without a scope what is checked of that.  A
`Visit` is a pattern that is met on the way, with the patterns above it.  Everything that
these mention is put in one list, and `checked` leaves out of it what is never looked at: a
catch-all that has another one before it.  Of what is left, every parameter needs a name,
and parameters of one name need one position.

`Scope.Binds` relates a scope to such a list.  With it the construction of a route becomes a
search for the first fault among its visits: `Route.failure?_toTree`, and with it
`exists_toTree_iff_sound`, which says which routes have a tree and which error the others
give.

The catch-alls that are left out are no formality.  A route below a catch-all may mention a
catch-all of the same name at another position and still be given a tree
(`archive_rebinds_catchAll`).
-/

namespace RouteTree

/-! ## The parameters of a pattern -/

namespace Binding

def isCatchAll : Binding → Bool
  | .dynamic .. => false
  | .catchAll .. => true

/-- What is wrong with a parameter of this sort that has no name. -/
def unnamed : Binding → PatternFault
  | .dynamic .. => .unnamedDynamic
  | .catchAll .. => .unnamedCatchAll

end Binding

/-- The parameters of a pattern that starts at a position, each at its own position. -/
def parametersFrom (index : Nat) : List Segment → List Binding
  | [] => []
  | segment :: rest => (segment.binding? index).toList ++ parametersFrom (index + 1) rest

/-- The parameters that a pattern mentions. -/
def parameters (pattern : String) : List Binding :=
  parametersFrom 0 (segments pattern)

theorem mem_parametersFrom {index : Nat} {pattern : List Segment} {binding : Binding} :
    binding ∈ parametersFrom index pattern ↔
      ∃ (j : Nat) (segment : Segment), pattern[j]? = some segment ∧
        segment.binding? (index + j) = some binding := by
  induction pattern generalizing index with
  | nil => simp [parametersFrom]
  | cons first rest ih =>
      rw [parametersFrom, List.mem_append, Option.mem_toList, ih]
      constructor
      · rintro (hfirst | ⟨j, segment, hsegment, hbinding⟩)
        · exact ⟨0, first, rfl, hfirst⟩
        · refine ⟨j + 1, segment, by simpa using hsegment, ?_⟩
          rwa [Nat.add_assoc, Nat.add_comm 1] at hbinding
      · rintro ⟨j, segment, hsegment, hbinding⟩
        cases j with
        | zero =>
            obtain rfl : first = segment := by simpa using hsegment
            exact Or.inl hbinding
        | succ j =>
            refine Or.inr ⟨j, segment, by simpa using hsegment, ?_⟩
            rwa [Nat.add_assoc, Nat.add_comm 1]

/-- A pattern has one parameter at a position, if it has any there. -/
theorem parameters_unique {pattern : String} {first second : Binding}
    (hfirst : first ∈ parameters pattern) (hsecond : second ∈ parameters pattern)
    (hindex : first.index = second.index) : first = second := by
  obtain ⟨i, segment, hsegment, hbinding⟩ := mem_parametersFrom.mp hfirst
  obtain ⟨j, segment', hsegment', hbinding'⟩ := mem_parametersFrom.mp hsecond
  have hi := Segment.index_of_binding? hbinding
  have hj := Segment.index_of_binding? hbinding'
  obtain rfl : i = j := by omega
  obtain rfl : segment = segment' := by simpa [hsegment] using hsegment'
  exact Option.some.inj (hbinding.symm.trans hbinding')

/-- The parameters that are looked at: all but the catch-alls behind the first.  `held` says
that there was one before. -/
def checked (held : Bool) : List Binding → List Binding
  | [] => []
  | binding :: rest =>
    if held && binding.isCatchAll then checked held rest
    else binding :: checked (held || binding.isCatchAll) rest

theorem checked_append (held : Bool) (first second : List Binding) :
    checked held (first ++ second) =
      checked held first ++ checked (held || first.any Binding.isCatchAll) second := by
  induction first generalizing held with
  | nil => simp [checked]
  | cons binding rest ih =>
      rw [List.cons_append]
      cases hskip : held && binding.isCatchAll with
      | true =>
          obtain ⟨rfl, -⟩ : held = true ∧ binding.isCatchAll = true := by simpa using hskip
          simp [checked, hskip, ih]
      | false => simp [checked, hskip, ih, Bool.or_assoc]

theorem mem_of_mem_checked {held : Bool} {bindings : List Binding} {binding : Binding}
    (h : binding ∈ checked held bindings) : binding ∈ bindings := by
  induction bindings generalizing held with
  | nil => exact h
  | cons first rest ih =>
      rw [checked] at h
      split at h
      · exact List.mem_cons_of_mem _ (ih h)
      · rcases List.mem_cons.mp h with rfl | hrest
        · exact List.mem_cons_self ..
        · exact List.mem_cons_of_mem _ (ih hrest)

/-- A dynamic parameter is always looked at. -/
theorem mem_checked_of_dynamic {held : Bool} {bindings : List Binding} {name : String}
    {index : Nat} (h : .dynamic name index ∈ bindings) :
    .dynamic name index ∈ checked held bindings := by
  induction bindings generalizing held with
  | nil => cases h
  | cons first rest ih =>
      rcases List.mem_cons.mp h with rfl | hrest
      · simp [checked, Binding.isCatchAll]
      · rw [checked]
        split
        · exact ih hrest
        · exact List.mem_cons_of_mem _ (ih hrest)

theorem checked_dynamic (held : Bool) (name : String) (index : Nat) :
    checked held [.dynamic name index] = [.dynamic name index] := by
  simp [checked, Binding.isCatchAll]

/-- A catch-all that is mentioned is looked at, or one before it was. -/
theorem or_any_checked (held : Bool) (bindings : List Binding) :
    (held || (checked held bindings).any Binding.isCatchAll) =
      (held || bindings.any Binding.isCatchAll) := by
  induction bindings generalizing held with
  | nil => rfl
  | cons binding rest ih =>
      cases hskip : held && binding.isCatchAll with
      | true =>
          obtain ⟨rfl, -⟩ : held = true ∧ binding.isCatchAll = true := by simpa using hskip
          simp
      | false =>
          have := ih (held || binding.isCatchAll)
          simpa [checked, hskip, Bool.or_assoc] using this

theorem any_checked (bindings : List Binding) :
    (checked false bindings).any Binding.isCatchAll = bindings.any Binding.isCatchAll := by
  simpa using or_any_checked false bindings

/-! ## Faults -/

/-- What is wrong with a parameter where others are bound: it has no name, or its name stands
for another position. -/
def Binding.fault? (pattern : String) (bound : List Binding) (binding : Binding) :
    Option CompileError :=
  if binding.name = "" then some (.malformed pattern binding.unnamed)
  else if ∃ other ∈ bound, other.name = binding.name ∧ other.index ≠ binding.index then
    some (.collision pattern binding.name)
  else none

/-- What is wrong with the first parameter at fault; each is bound for those behind it. -/
def firstFault? (pattern : String) (bound : List Binding) : List Binding → Option CompileError
  | [] => none
  | binding :: rest =>
    (binding.fault? pattern bound).or (firstFault? pattern (bound ++ [binding]) rest)

theorem firstFault?_append (pattern : String) (bound first second : List Binding) :
    firstFault? pattern bound (first ++ second) =
      (firstFault? pattern bound first).or
        (firstFault? pattern (bound ++ first) second) := by
  induction first generalizing bound with
  | nil => simp [firstFault?]
  | cons binding rest ih => simp [firstFault?, ih, Option.or_assoc]

theorem Binding.fault?_eq_none_iff {pattern : String} {bound : List Binding}
    {binding : Binding} :
    binding.fault? pattern bound = none ↔
      binding.name ≠ "" ∧
        ∀ other ∈ bound, other.name = binding.name → other.index = binding.index := by
  unfold Binding.fault?
  by_cases hname : binding.name = ""
  · simp [hname]
  · simp [hname]

theorem firstFault?_eq_none_iff {pattern : String} {bound bindings : List Binding} :
    firstFault? pattern bound bindings = none ↔
      (∀ binding ∈ bindings, binding.name ≠ "") ∧
        ∀ binding ∈ bindings, ∀ other ∈ bound ++ bindings,
          other.name = binding.name → other.index = binding.index := by
  induction bindings generalizing bound with
  | nil => simp [firstFault?]
  | cons first rest ih =>
      rw [firstFault?, Option.or_eq_none_iff, Binding.fault?_eq_none_iff, ih]
      constructor
      · rintro ⟨⟨hfirst, habove⟩, hnamed, hrest⟩
        refine ⟨List.forall_mem_cons.mpr ⟨hfirst, hnamed⟩, List.forall_mem_cons.mpr ⟨?_, ?_⟩⟩
        · intro other hother hname
          simp only [List.mem_append, List.mem_cons] at hother
          rcases hother with hother | rfl | hother
          · exact habove other hother hname
          · rfl
          · -- the one behind has been compared with the one before it
            exact (hrest other hother first (by simp) hname.symm).symm
        · intro binding hbinding other hother
          exact hrest binding hbinding other (by simpa using hother)
      · rintro ⟨hnamed, hall⟩
        obtain ⟨hfirst, hnamed⟩ := List.forall_mem_cons.mp hnamed
        obtain ⟨habove, hrest⟩ := List.forall_mem_cons.mp hall
        refine ⟨⟨hfirst, fun other hother => habove other (by simp [hother])⟩, hnamed, ?_⟩
        intro binding hbinding other hother
        exact hrest binding hbinding other (by simpa using hother)

/-- Where every parameter has a name, all that can be wrong is a collision. -/
theorem exists_collision_of_firstFault? {pattern : String} {bound bindings : List Binding}
    {error : CompileError} (hnamed : ∀ binding ∈ bindings, binding.name ≠ "")
    (h : firstFault? pattern bound bindings = some error) :
    ∃ name, error = .collision pattern name := by
  induction bindings generalizing bound with
  | nil => cases h
  | cons first rest ih =>
      obtain ⟨hfirst, hrest⟩ := List.forall_mem_cons.mp hnamed
      rw [firstFault?, Option.or_eq_some_iff] at h
      rcases h with hfault | ⟨-, hfault⟩
      · rw [Binding.fault?, if_neg hfirst] at hfault
        split at hfault
        · exact ⟨first.name, (Option.some.inj hfault).symm⟩
        · cases hfault
      · exact ih hrest hfault

/-! ## Scopes -/

/-- The error of a construction that has failed. -/
def failure? {ε α : Type} : Except ε α → Option ε
  | .ok _ => none
  | .error error => some error

@[simp] theorem failure?_ok {ε α : Type} (value : α) :
    failure? (.ok value : Except ε α) = none := rfl

@[simp] theorem failure?_error {ε α : Type} (error : ε) :
    failure? (.error error : Except ε α) = some error := rfl

theorem failure?_eq_some_iff {ε α : Type} {result : Except ε α} {error : ε} :
    failure? result = some error ↔ result = .error error := by
  cases result <;> simp

theorem failure?_eq_none_iff {ε α : Type} {result : Except ε α} :
    failure? result = none ↔ ∃ value, result = .ok value := by
  cases result <;> simp

/-- The last steps of a construction that cannot fail do not matter to its error. -/
@[simp] theorem failure?_bind_pure {ε α β : Type} (first : Except ε α) (f : α → β) :
    failure? (first >>= fun value => pure (f value)) = failure? first := by
  cases first <;> rfl

/-- Of two constructions that do not depend on each other, the first error is reported. -/
theorem failure?_bind_bind {ε α β γ : Type} (first : Except ε α) (second : Except ε β)
    (f : α → β → γ) :
    failure? (first >>= fun a => second >>= fun b => pure (f a b)) =
      (failure? first).or (failure? second) := by
  cases first <;> cases second <;> rfl

namespace Scope

/-- The scope holds these parameters, each at its position. -/
structure Binds (scope : Scope) (bindings : List Binding) : Prop where
  index : ∀ name index, scope.index? name = some index ↔
    ∃ binding ∈ bindings, binding.name = name ∧ binding.index = index
  catchAll : scope.hasCatchAll = bindings.any Binding.isCatchAll

namespace Binds

variable {scope : Scope} {bound : List Binding}

theorem empty : Scope.empty.Binds [] :=
  ⟨fun name index => by simp [Scope.empty, index?], rfl⟩

/-- A name that is free, or stands for the same position, can be bound. -/
theorem add (h : scope.Binds bound) (binding : Binding)
    (hfree : scope.index? binding.name = none ∨
      scope.index? binding.name = some binding.index) :
    (scope.add binding).Binds (bound ++ [binding]) := by
  constructor
  · intro name index
    rw [index?_add]
    by_cases hname : name = binding.name
    · subst hname
      rw [if_pos rfl]
      constructor
      · intro hindex
        exact ⟨binding, by simp, rfl, by simpa using hindex⟩
      · rintro ⟨other, hother, hsame, rfl⟩
        rcases List.mem_append.mp hother with hother | hother
        · have hindex := (h.index _ _).mpr ⟨other, hother, hsame, rfl⟩
          simpa [hindex, eq_comm] using hfree
        · rw [List.mem_singleton.mp hother]
    · rw [if_neg hname, h.index]
      constructor
      · rintro ⟨other, hother, hrest⟩
        exact ⟨other, by simp [hother], hrest⟩
      · rintro ⟨other, hother, rfl, hindex⟩
        have hmem : other ∈ bound := by
          rcases List.mem_append.mp hother with hother | hother
          · exact hother
          · rw [List.mem_singleton.mp hother] at hname
            exact absurd rfl hname
        exact ⟨other, hmem, rfl, hindex⟩
  · cases binding <;> simp [Scope.add, Binding.isCatchAll, h.catchAll]

/-- A parameter that is bound already may be mentioned again. -/
theorem mention (h : scope.Binds bound) {name : String} {index : Nat}
    (hbound : scope.index? name = some index) :
    scope.Binds (bound ++ [.dynamic name index]) := by
  constructor
  · intro other position
    rw [h.index]
    constructor
    · rintro ⟨binding, hbinding, hrest⟩
      exact ⟨binding, by simp [hbinding], hrest⟩
    · rintro ⟨binding, hbinding, rfl, rfl⟩
      rcases List.mem_append.mp hbinding with hbinding | hbinding
      · exact ⟨binding, hbinding, rfl, rfl⟩
      · rw [List.mem_singleton.mp hbinding]
        exact (h.index _ _).mp hbound
  · simp [h.catchAll, Binding.isCatchAll]

/-- Whether a name can be bound at a position is told by the parameters in scope. -/
theorem fault? (h : scope.Binds bound) (pattern : String) (binding : Binding) :
    binding.fault? pattern bound =
      if binding.name = "" then some (.malformed pattern binding.unnamed)
      else match scope.index? binding.name with
        | none => none
        | some index =>
          if index = binding.index then none else some (.collision pattern binding.name) := by
  unfold Binding.fault?
  by_cases hname : binding.name = ""
  · rw [if_pos hname, if_pos hname]
  rw [if_neg hname, if_neg hname]
  have hclash : (∃ other ∈ bound, other.name = binding.name ∧ other.index ≠ binding.index) ↔
      ∃ index, scope.index? binding.name = some index ∧ index ≠ binding.index := by
    simp only [h.index]
    constructor
    · rintro ⟨other, hother, hsame, hindex⟩
      exact ⟨other.index, ⟨other, hother, hsame, rfl⟩, hindex⟩
    · rintro ⟨index, ⟨other, hother, hsame, rfl⟩, hindex⟩
      exact ⟨other, hother, hsame, hindex⟩
  simp only [hclash]
  cases hindex : scope.index? binding.name with
  | none => simp
  | some index => by_cases hsame : index = binding.index <;> simp [hsame]

/-! ### Binding a pattern -/

/-- A segment fails as the parameter does that it adds to those that are looked at. -/
theorem failure?_bindingOf (h : scope.Binds bound) (pattern : String) (index : Nat)
    (segment : Segment) :
    failure? (scope.bindingOf pattern index segment) =
      firstFault? pattern bound
        (checked scope.hasCatchAll (segment.binding? index).toList) := by
  cases segment with
  | literal text => rfl
  | dynamic name =>
      rw [Segment.binding?, Option.toList_some, checked_dynamic, firstFault?, firstFault?,
        Option.or_none, h.fault?, bindingOf]
      by_cases hname : name = ""
      · simp [hname, Binding.name, Binding.unnamed]
      · cases hindex : scope.index? name with
        | none => simp [hname, hindex, Binding.name]
        | some bound =>
            by_cases hsame : bound = index <;>
              simp [hname, hindex, hsame, Binding.name, Binding.index]
  | catchAll name =>
      cases hheld : scope.hasCatchAll with
      | true => simp [bindingOf, hheld, Segment.binding?, checked, Binding.isCatchAll, firstFault?]
      | false =>
          have hchecked : checked false [Binding.catchAll name index] =
              [.catchAll name index] := rfl
          rw [Segment.binding?, Option.toList_some, hchecked, firstFault?, firstFault?,
            Option.or_none, h.fault?, bindingOf, hheld]
          by_cases hname : name = ""
          · simp [hname, Binding.name, Binding.unnamed]
          · cases hindex : scope.index? name with
            | none => simp [hname, hindex, Binding.name]
            | some bound =>
                by_cases hsame : bound = index <;>
                  simp [hname, hindex, hsame, Binding.name, Binding.index]

/-- A segment that comes through leaves the scope that holds its parameter, if that is
looked at. -/
theorem bindingOf (h : scope.Binds bound) {pattern : String} {index : Nat} {segment : Segment}
    {found : Option Binding} (hfound : scope.bindingOf pattern index segment = .ok found) :
    (scope.extend found).Binds
      (bound ++ checked scope.hasCatchAll (segment.binding? index).toList) := by
  cases segment with
  | literal text =>
      cases hfound
      simpa [Segment.binding?, checked] using h
  | dynamic name =>
      rw [Segment.binding?, Option.toList_some, checked_dynamic]
      obtain ⟨-, ⟨hnew, rfl⟩ | ⟨hbound, rfl⟩⟩ := bindingOf_dynamic_eq_ok_iff.mp hfound
      · exact h.add (.dynamic name index) (Or.inl hnew)
      · exact h.mention hbound
  | catchAll name =>
      obtain ⟨hheld, rfl⟩ | ⟨hheld, -, hfree, rfl⟩ := bindingOf_catchAll_eq_ok_iff.mp hfound
      · simpa [Segment.binding?, checked, hheld, Binding.isCatchAll] using h
      · simpa [Segment.binding?, checked, hheld] using h.add (.catchAll name index) hfree

/-- After a segment the scope has a catch-all if it had one before, or the segment is one. -/
theorem hasCatchAll_extend (h : scope.Binds bound) {pattern : String} {index : Nat}
    {segment : Segment} {found : Option Binding}
    (hfound : scope.bindingOf pattern index segment = .ok found) :
    (scope.extend found).hasCatchAll =
      (scope.hasCatchAll || (segment.binding? index).toList.any Binding.isCatchAll) := by
  rw [(h.bindingOf hfound).catchAll, List.any_append, ← h.catchAll]
  cases hheld : scope.hasCatchAll with
  | true => rfl
  | false => rw [Bool.false_or, Bool.false_or, any_checked]

/-- Binding segments fails with the first fault among the parameters that are looked at, and
else holds them all.  The induction is on the segments; what is bound grows with the scope. -/
theorem bindFrom (h : scope.Binds bound) (pattern : String) (index : Nat)
    (rest : List Segment) :
    failure? (Scope.bindFrom pattern scope index rest) =
        firstFault? pattern bound (checked scope.hasCatchAll (parametersFrom index rest)) ∧
      ∀ bindings inner, Scope.bindFrom pattern scope index rest = .ok (bindings, inner) →
        inner.Binds (bound ++ checked scope.hasCatchAll (parametersFrom index rest)) := by
  induction rest generalizing scope bound index with
  | nil =>
      refine ⟨rfl, fun bindings inner hbind => ?_⟩
      cases hbind
      simpa [parametersFrom, checked] using h
  | cons segment rest ih =>
      have hfailure := h.failure?_bindingOf pattern index segment
      rw [parametersFrom, checked_append, firstFault?_append, ← hfailure, ← List.append_assoc]
      cases hfound : scope.bindingOf pattern index segment with
      | error error =>
          refine ⟨by simp [Scope.bindFrom, hfound], fun bindings inner hbind => ?_⟩
          obtain ⟨found, -, hok, -⟩ := bindFrom_cons_eq_ok_iff.mp hbind
          rw [hfound] at hok
          cases hok
      | ok found =>
          obtain ⟨hrest, hinner⟩ := ih (h.bindingOf hfound) (index + 1)
          rw [h.hasCatchAll_extend hfound] at hrest hinner
          refine ⟨?_, fun bindings inner hbind => ?_⟩
          · rw [← hrest, failure?_ok, Option.none_or, Scope.bindFrom, hfound]
            cases found with
            | none => rfl
            | some binding =>
                rw [extend_some]
                cases hrest : Scope.bindFrom pattern (scope.add binding) (index + 1) rest <;>
                  simp [hrest]
          · obtain ⟨found', more, hfound', hmore, -⟩ := bindFrom_cons_eq_ok_iff.mp hbind
            obtain rfl : found = found' := by simpa [hfound] using hfound'
            exact hinner more inner hmore

end Binds
end Scope

/-! ## Visits -/

/-- A pattern that is met on the way down a route, and the patterns above it, the outermost
first. -/
structure Visit where
  above : List String
  pattern : String
  deriving DecidableEq, Repr, Inhabited

/-- What is bound after some patterns. -/
def boundAlong (patterns : List String) : List Binding :=
  checked false (patterns.flatMap parameters)

namespace Visit

/-- What is bound when the pattern is met. -/
def bound (visit : Visit) : List Binding :=
  boundAlong visit.above

/-- The parameters of the pattern that are looked at. -/
def added (visit : Visit) : List Binding :=
  checked (visit.bound.any Binding.isCatchAll) (parameters visit.pattern)

/-- What is wrong with the pattern: a catch-all before its end, or else its first parameter
at fault. -/
def fault? (visit : Visit) : Option CompileError :=
  if hasMisplacedCatchAll (segments visit.pattern) then
    some (.malformed visit.pattern .catchAllNotLast)
  else firstFault? visit.pattern visit.bound visit.added

theorem boundAlong_concat (visit : Visit) :
    boundAlong (visit.above ++ [visit.pattern]) = visit.bound ++ visit.added := by
  rw [boundAlong, List.flatMap_append, List.flatMap_singleton, checked_append, added, bound,
    boundAlong, any_checked, Bool.false_or]

/-- Nothing is wrong with the pattern where it is met. -/
structure Sound (visit : Visit) : Prop where
  /-- a catch-all is the last segment -/
  last : hasMisplacedCatchAll (segments visit.pattern) = false
  /-- every parameter that is looked at has a name -/
  named : ∀ binding ∈ visit.added, binding.name ≠ ""
  /-- the name stands for one position, in the pattern and above it -/
  single : ∀ binding ∈ visit.added, ∀ other ∈ visit.bound ++ visit.added,
    other.name = binding.name → other.index = binding.index

theorem fault?_eq_none_iff {visit : Visit} : visit.fault? = none ↔ visit.Sound := by
  unfold fault?
  cases hlast : hasMisplacedCatchAll (segments visit.pattern) with
  | true =>
      constructor
      · intro h
        cases h
      · intro h
        rw [h.last] at hlast
        cases hlast
  | false =>
      rw [if_neg Bool.false_ne_true, firstFault?_eq_none_iff]
      exact ⟨fun h => ⟨hlast, h.1, h.2⟩, fun h => ⟨h.named, h.single⟩⟩

end Visit

/-- Binding a pattern fails as its visit does, and else holds what is bound after it. -/
theorem Scope.Binds.bind {scope : Scope} (visit : Visit) (h : scope.Binds visit.bound) :
    failure? (scope.bind visit.pattern) = visit.fault? ∧
      ∀ bindings inner, scope.bind visit.pattern = .ok (bindings, inner) →
        inner.Binds (boundAlong (visit.above ++ [visit.pattern])) := by
  obtain ⟨hfailure, hinner⟩ := h.bindFrom visit.pattern 0 (segments visit.pattern)
  rw [h.catchAll] at hfailure hinner
  rw [visit.boundAlong_concat]
  constructor
  · rw [Scope.bind, Visit.fault?]
    split
    · rfl
    · exact hfailure
  · intro bindings inner hbind
    exact hinner bindings inner (Scope.bind_eq_ok_iff.mp hbind).2

mutual

/-- The patterns that are met along a route, each before those below it.  A continuation that
the route does not look at is left out. -/
def Route.visits (above : List String) : Route → List Visit
  | ⟨segment, kind, onward, forward⟩ =>
    ⟨above, segment.externalPath⟩ ::
      match kind with
      | .next => []
      | .middleware => continuationVisits (above ++ [segment.externalPath]) onward
      | .dynamicForward _ | .staticForward =>
        continuationVisits (above ++ [segment.externalPath]) onward ++
          continuationVisits (above ++ [segment.externalPath]) forward
termination_by structural route => route

def Endpoint.visits (above : List String) : Endpoint → List Visit
  | .route declared => declared.visits above
  | .page segment => [⟨above, segment.externalPath⟩]
termination_by structural endpoint => endpoint

def continuationVisits (above : List String) : Option Endpoint → List Visit
  | none => []
  | some endpoint => endpoint.visits above
termination_by structural endpoint => endpoint

end

/-! ## Routes fail with the first fault -/

theorem Page.failure?_toTree (page : Page) {scope : Scope} {above : List String}
    (h : scope.Binds (boundAlong above)) :
    failure? (page.toTree scope) = Visit.fault? ⟨above, page.externalPath⟩ := by
  have hbind := (Scope.Binds.bind ⟨above, page.externalPath⟩ h).1
  rw [← hbind, Page.toTree]
  exact failure?_bind_pure _ _

mutual

/-- A route has no tree exactly when one of the patterns met along it is at fault, and the
first such fault is its error. -/
theorem Route.failure?_toTree (route : Route) {scope : Scope} {above : List String}
    (h : scope.Binds (boundAlong above)) :
    failure? (route.toTree scope) = (route.visits above).findSome? Visit.fault? := by
  obtain ⟨segment, kind, onward, forward⟩ := route
  obtain ⟨hfailure, hbinds⟩ := Scope.Binds.bind ⟨above, segment.externalPath⟩ h
  dsimp only at hfailure hbinds
  cases hbind : scope.bind segment.externalPath with
  | error error =>
      rw [hbind, failure?_error] at hfailure
      simp [Route.toTree, hbind, bind, Except.bind, Route.visits, ← hfailure]
  | ok result =>
      obtain ⟨bindings, inner⟩ := result
      rw [hbind, failure?_ok] at hfailure
      have hinner := hbinds bindings inner hbind
      have honward := failure?_continuationTree onward hinner
      have hforward := failure?_continuationTree forward hinner
      rw [Route.toTree, hbind]
      simp only [Route.visits, List.findSome?_cons, ← hfailure]
      cases kind with
      | next => rfl
      | middleware =>
          rw [← honward]
          exact failure?_bind_pure _ _
      | dynamicForward name =>
          rw [List.findSome?_append, ← honward, ← hforward]
          exact failure?_bind_bind _ _ _
      | staticForward =>
          rw [List.findSome?_append, ← honward, ← hforward]
          exact failure?_bind_bind _ _ _
termination_by structural route

theorem Endpoint.failure?_toTree (endpoint : Endpoint) {scope : Scope} {above : List String}
    (h : scope.Binds (boundAlong above)) :
    failure? (endpoint.toTree scope) = (endpoint.visits above).findSome? Visit.fault? := by
  cases endpoint with
  | route declared => exact declared.failure?_toTree h
  | page segment =>
      rw [Endpoint.toTree, segment.failure?_toTree h, Endpoint.visits]
      simp
termination_by structural endpoint

theorem failure?_continuationTree (continuation : Option Endpoint) {scope : Scope}
    {above : List String} (h : scope.Binds (boundAlong above)) :
    failure? (continuationTree scope continuation) =
      (continuationVisits above continuation).findSome? Visit.fault? := by
  cases continuation with
  | none => rfl
  | some endpoint => exact endpoint.failure?_toTree h
termination_by structural continuation

end

/-- **Collisions are caught where they are looked for.**  A route has a tree exactly when
every visit along it is sound: among the parameters of its pattern that are looked at, and
of the patterns above it, no name stands for two positions.  Any other route has the error of
its first visit at fault; and where no pattern is malformed, that is a collision. -/
theorem Route.exists_toTree_iff_sound (route : Route) :
    ((∃ tree, route.toTree .empty = .ok tree) ↔ ∀ visit ∈ route.visits [], visit.Sound) ∧
    (∀ error, route.toTree .empty = .error error ↔
      (route.visits []).findSome? Visit.fault? = some error) ∧
    ((∀ visit ∈ route.visits [], hasMisplacedCatchAll (segments visit.pattern) = false ∧
        ∀ binding ∈ visit.added, binding.name ≠ "") →
      ∀ error, route.toTree .empty = .error error →
        ∃ pattern name, error = .collision pattern name) := by
  have hempty : Scope.empty.Binds (boundAlong []) := Scope.Binds.empty
  have hfailure := route.failure?_toTree hempty
  have herror : ∀ error, route.toTree .empty = .error error ↔
      (route.visits []).findSome? Visit.fault? = some error := by
    intro error
    rw [← hfailure, failure?_eq_some_iff]
  refine ⟨?_, herror, ?_⟩
  · rw [← failure?_eq_none_iff, hfailure, List.findSome?_eq_none_iff]
    simp only [Visit.fault?_eq_none_iff]
  · intro hformed error hfailed
    obtain ⟨visit, hvisit, hfault⟩ := List.exists_of_findSome?_eq_some ((herror error).mp hfailed)
    obtain ⟨hlast, hnamed⟩ := hformed visit hvisit
    rw [Visit.fault?, hlast, if_neg Bool.false_ne_true] at hfault
    obtain ⟨name, hname⟩ := exists_collision_of_firstFault? hnamed hfault
    exact ⟨visit.pattern, name, hname⟩

/-- A catch-all, and below it a page with a catch-all of the same name one component
further on. -/
def Route.archive : Route :=
  .middleware (.plain "/files/*path/" "files/middleware")
    (some (.page (.plain "/files/archive/*path/" "files/archive")))

/-- The second catch-all is left out, and its name goes on standing for the position of the
first. -/
theorem Route.archive_rebinds_catchAll :
    (∃ tree, Route.archive.toTree .empty = .ok tree) ∧
      ∃ visit ∈ Route.archive.visits [], ∃ binding ∈ parameters visit.pattern,
        ∃ other ∈ visit.bound, other.name = binding.name ∧ other.index ≠ binding.index :=
  ⟨exists_ok_of_isOk (by decide +kernel), by decide +kernel⟩

end RouteTree
