import RouteTree.Scope
import RouteTree.Tree.Resolve

/-!
# What bindings do

A binding names a parameter and stands for a value of the request.  `run_allBefore` says
what the bindings in front of a tree do to a run, and `bindFrom_cons_eq_ok_iff` takes the
binding of a pattern apart, segment by segment: each segment finds its binding, or finds
that it needs none, in the scope that the segments before it have left.
-/

namespace RouteTree

/-! ## The value of a binding -/

namespace Binding

/-- The parameter that is bound. -/
def name : Binding → String
  | .dynamic name _ => name
  | .catchAll name _ => name

/-- The position that it is bound at. -/
def index : Binding → Nat
  | .dynamic _ index => index
  | .catchAll _ index => index

/-- What it is bound to: one component, the empty one past the end, or all components
from a position on. -/
def value (request : List String) : Binding → Param
  | .dynamic _ index => .single (request[index]?.getD "")
  | .catchAll _ index => .rest (request.drop index)

end Binding

namespace Tree

variable {σ : Type}

/-- The binding that a node makes. -/
def binding? : Tree → Option Binding
  | .dynamic name index _ => some (.dynamic name index)
  | .catchAll name index _ => some (.catchAll name index)
  | _ => none

@[simp] theorem binding?_before (binding : Binding) (onward : Tree) :
    (binding.before onward).binding? = some binding := by
  cases binding <;> rfl

/-- The bindings that some nodes make, in their order. -/
def bindingsOn (path : List Tree) : List Binding :=
  path.filterMap binding?

@[simp] theorem bindingsOn_nil : bindingsOn [] = [] := rfl

theorem bindingsOn_cons (node : Tree) (path : List Tree) :
    bindingsOn (node :: path) = node.binding?.toList ++ bindingsOn path := by
  rw [bindingsOn, List.filterMap_cons]
  cases node.binding? <;> rfl

/-- The progress after some bindings, in order. -/
def Progress.bindAll (progress : Progress σ) (request : List String)
    (bindings : List Binding) : Progress σ :=
  bindings.foldl (fun progress binding => progress.bind binding.name (binding.value request))
    progress

@[simp] theorem Progress.bindAll_nil (progress : Progress σ) (request : List String) :
    progress.bindAll request [] = progress := rfl

@[simp] theorem Progress.bindAll_cons (progress : Progress σ) (request : List String)
    (binding : Binding) (bindings : List Binding) :
    progress.bindAll request (binding :: bindings) =
      (progress.bind binding.name (binding.value request)).bindAll request bindings := rfl

/-- Bindings in front of a tree are made before it runs. -/
theorem run_allBefore (runtime : Runtime σ) (request : List String) (progress : Progress σ)
    (bindings : List Binding) (action : Tree) :
    (Binding.allBefore bindings action).run runtime request progress =
      action.run runtime request (progress.bindAll request bindings) := by
  induction bindings generalizing progress with
  | nil => rfl
  | cons binding bindings ih =>
      have hfold : Binding.allBefore (binding :: bindings) action =
          binding.before (Binding.allBefore bindings action) := rfl
      rw [hfold, Progress.bindAll_cons, ← ih]
      cases binding <;> simp only [Binding.before, run, Binding.name, Binding.value]

end Tree

/-! ## Binding one segment -/

namespace Scope

/-- The scope after the binding that a segment has asked for, if it has. -/
def extend (scope : Scope) : Option Binding → Scope
  | none => scope
  | some binding => scope.add binding

@[simp] theorem extend_none (scope : Scope) : scope.extend none = scope := rfl

@[simp] theorem extend_some (scope : Scope) (binding : Binding) :
    scope.extend (some binding) = scope.add binding := rfl

theorem index?_add (scope : Scope) (binding : Binding) (name : String) :
    (scope.add binding).index? name =
      if name = binding.name then some binding.index else scope.index? name := by
  cases binding <;> exact lookup_cons_pair ..

/-- A dynamic segment is bound where its name is new, and needs no binding where the
name stands for the same position. -/
theorem bindingOf_dynamic_eq_ok_iff {scope : Scope} {pattern name : String} {index : Nat}
    {found : Option Binding} :
    scope.bindingOf pattern index (.dynamic name) = .ok found ↔
      name ≠ "" ∧
        (scope.index? name = none ∧ found = some (.dynamic name index) ∨
          scope.index? name = some index ∧ found = none) := by
  unfold bindingOf
  by_cases hname : name = ""
  · simp [hname]
  · cases hindex : scope.index? name with
    | none => simp [hname, hindex, eq_comm (a := found)]
    | some bound =>
        by_cases hbound : bound = index <;> simp [hname, hindex, hbound, eq_comm (a := found)]

/-- A catch-all needs no binding once the scope has one; else it is bound where its name
is new or stands for the same position. -/
theorem bindingOf_catchAll_eq_ok_iff {scope : Scope} {pattern name : String} {index : Nat}
    {found : Option Binding} :
    scope.bindingOf pattern index (.catchAll name) = .ok found ↔
      scope.hasCatchAll = true ∧ found = none ∨
        scope.hasCatchAll = false ∧ name ≠ "" ∧
          (scope.index? name = none ∨ scope.index? name = some index) ∧
            found = some (.catchAll name index) := by
  unfold bindingOf
  cases hcatchAll : scope.hasCatchAll with
  | true => simp [eq_comm (a := found)]
  | false =>
      by_cases hname : name = ""
      · simp [hname]
      · cases hindex : scope.index? name with
        | none => simp [hname, hindex, eq_comm (a := found)]
        | some bound =>
            by_cases hbound : bound = index <;>
              simp [hname, hindex, hbound, eq_comm (a := found)]

/-- A pattern is bound by binding its first segment, and the others in the scope after
it. -/
theorem bindFrom_cons_eq_ok_iff {pattern : String} {scope inner : Scope} {index : Nat}
    {segment : Segment} {rest : List Segment} {bindings : List Binding} :
    bindFrom pattern scope index (segment :: rest) = .ok (bindings, inner) ↔
      ∃ found more, scope.bindingOf pattern index segment = .ok found ∧
        bindFrom pattern (scope.extend found) (index + 1) rest = .ok (more, inner) ∧
          bindings = found.toList ++ more := by
  rw [bindFrom]
  constructor
  · intro h
    cases hfound : scope.bindingOf pattern index segment with
    | error error => simp [hfound] at h
    | ok found =>
        cases found with
        | none => exact ⟨none, bindings, rfl, by simpa [hfound] using h, rfl⟩
        | some binding =>
            cases hrest : bindFrom pattern (scope.add binding) (index + 1) rest with
            | error error => simp [hfound, hrest] at h
            | ok result =>
                obtain ⟨rfl, rfl⟩ : binding :: result.1 = bindings ∧ result.2 = inner := by
                  simpa [hfound, hrest] using h
                exact ⟨some binding, result.1, rfl, hrest, rfl⟩
  · rintro ⟨found, more, hfound, hrest, rfl⟩
    cases found with
    | none => simpa [hfound] using hrest
    | some binding =>
        rw [extend_some] at hrest
        simp [hfound, hrest]

theorem bind_eq_ok_iff {scope inner : Scope} {pattern : String} {bindings : List Binding} :
    scope.bind pattern = .ok (bindings, inner) ↔
      hasMisplacedCatchAll (segments pattern) = false ∧
        bindFrom pattern scope 0 (segments pattern) = .ok (bindings, inner) := by
  unfold bind
  cases hasMisplacedCatchAll (segments pattern) <;> simp

end Scope
end RouteTree
