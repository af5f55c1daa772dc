import Mathlib.Data.List.Nodup
import RouteTree.Proofs.Collision
import RouteTree.Proofs.Layers
import RouteTree.Proofs.LoweringRules

/-!
# What a page becomes

A page with nothing bound before it needs no scope to be described.  Its pattern is a list
of parameters at increasing positions, and these have a tree exactly when the pattern has no
catch-all before its end and the parameters are `Distinct`: each has a name, and no two have
the same.  The tree then binds all of them in the order of the pattern, above an action that
the four flags of the page decide (`Page.action_eq`).  Otherwise the first parameter that
spoils this is the one that is reported.

Since no two parameters of one pattern share a position (`nodup_index_parameters`), a name
that stands for two positions, which is what the scope looks for, is a name that occurs
twice: `firstFault?_eq_none_iff_distinct` and `fault?_eq_of_index`.
-/

namespace RouteTree

/-! ## Parameters of one pattern -/

/-- Every parameter has a name, and no two have the same. -/
structure Distinct (bindings : List Binding) : Prop where
  named : ∀ binding ∈ bindings, binding.name ≠ ""
  nodup : (bindings.map Binding.name).Nodup

theorem le_index_of_mem_parametersFrom {index : Nat} {pattern : List Segment}
    {binding : Binding} (h : binding ∈ parametersFrom index pattern) :
    index ≤ binding.index := by
  obtain ⟨j, segment, -, hbinding⟩ := mem_parametersFrom.mp h
  rw [Segment.index_of_binding? hbinding]
  exact Nat.le_add_right index j

theorem pairwise_index_parametersFrom (index : Nat) (pattern : List Segment) :
    (parametersFrom index pattern).Pairwise (·.index < ·.index) := by
  induction pattern generalizing index with
  | nil => exact List.Pairwise.nil
  | cons segment rest ih =>
      rw [parametersFrom]
      cases hbinding : segment.binding? index with
      | none => exact ih (index + 1)
      | some binding =>
          refine List.pairwise_cons.mpr ⟨fun other hother => ?_, ih (index + 1)⟩
          rw [Segment.index_of_binding? hbinding]
          exact le_index_of_mem_parametersFrom hother

/-- A parameter stands at its own position of the pattern. -/
theorem mem_parameters {pattern : String} {binding : Binding} :
    binding ∈ parameters pattern ↔
      ∃ segment, (segments pattern)[binding.index]? = some segment ∧
        segment.binding? binding.index = some binding := by
  rw [parameters, mem_parametersFrom]
  constructor
  · rintro ⟨j, segment, hsegment, hbinding⟩
    rw [Nat.zero_add] at hbinding
    obtain rfl := Segment.index_of_binding? hbinding
    exact ⟨segment, hsegment, hbinding⟩
  · rintro ⟨segment, hsegment, hbinding⟩
    exact ⟨binding.index, segment, hsegment, by rwa [Nat.zero_add]⟩

theorem nodup_index_parameters (pattern : String) :
    ((parameters pattern).map Binding.index).Nodup :=
  List.pairwise_map.mpr
    ((pairwise_index_parametersFrom 0 (segments pattern)).imp fun h => Nat.ne_of_lt h)

/-! ## A catch-all at the end -/

theorem Segment.isCatchAll_of_binding? {segment : Segment} {index : Nat} {binding : Binding}
    (h : segment.binding? index = some binding) : binding.isCatchAll = segment.isCatchAll := by
  cases segment <;> cases h <;> rfl

/-- Where a catch-all ends the pattern, the parameters before the last are dynamic. -/
theorem dropLast_parametersFrom {pattern : List Segment}
    (hlast : hasMisplacedCatchAll pattern = false) (index : Nat) :
    ∀ binding ∈ (parametersFrom index pattern).dropLast, binding.isCatchAll = false := by
  induction pattern generalizing index with
  | nil => simp [parametersFrom]
  | cons first rest ih =>
      cases rest with
      | nil => cases hbinding : first.binding? index <;> simp [parametersFrom, hbinding]
      | cons second rest =>
          obtain ⟨hfirst, hrest⟩ := (hasMisplacedCatchAll_cons (by simp)).mp hlast
          rw [parametersFrom]
          cases hbinding : first.binding? index with
          | none => exact ih hrest (index + 1)
          | some binding =>
              have hbelow := ih hrest (index + 1)
              rw [Option.toList_some, List.singleton_append]
              cases hmore : parametersFrom (index + 1) (second :: rest) with
              | nil => simp
              | cons next more =>
                  rw [hmore] at hbelow
                  refine List.forall_mem_cons.mpr ⟨?_, hbelow⟩
                  rw [Segment.isCatchAll_of_binding? hbinding, hfirst]

/-- No parameter is left out that has no catch-all before it. -/
theorem checked_eq_self {bindings : List Binding}
    (h : ∀ binding ∈ bindings.dropLast, binding.isCatchAll = false) :
    checked false bindings = bindings := by
  induction bindings with
  | nil => rfl
  | cons first rest ih =>
      cases rest with
      | nil => simp [checked]
      | cons second rest =>
          obtain ⟨hfirst, hrest⟩ := List.forall_mem_cons.mp h
          rw [checked, hfirst, Bool.and_false, if_neg Bool.false_ne_true, Bool.or_false, ih hrest]

/-! ## The first parameter at fault -/

/-- Among parameters at different positions a name stands for one position exactly when it
occurs once. -/
theorem nodup_name_iff {bindings : List Binding} (hindex : (bindings.map Binding.index).Nodup) :
    (bindings.map Binding.name).Nodup ↔
      ∀ binding ∈ bindings, ∀ other ∈ bindings, other.name = binding.name →
        other.index = binding.index := by
  rw [List.nodup_map_iff_inj_on (hindex.of_map Binding.index)]
  constructor
  · intro hinj binding hbinding other hother hname
    rw [hinj other hother binding hbinding hname]
  · intro hsingle binding hbinding other hother hname
    exact List.inj_on_of_nodup_map hindex hbinding hother
      (hsingle other hother binding hbinding hname)

theorem firstFault?_eq_none_iff_distinct {pattern : String} {bindings : List Binding}
    (hindex : (bindings.map Binding.index).Nodup) :
    firstFault? pattern [] bindings = none ↔ Distinct bindings := by
  rw [firstFault?_eq_none_iff, List.nil_append, ← nodup_name_iff hindex]
  exact ⟨fun h => ⟨h.1, h.2⟩, fun h => ⟨h.named, h.nodup⟩⟩

/-- The first fault is that of a parameter behind others that have none. -/
theorem firstFault?_eq_some_iff {pattern : String} {bound bindings : List Binding}
    {error : CompileError} :
    firstFault? pattern bound bindings = some error ↔
      ∃ before binding after, bindings = before ++ binding :: after ∧
        firstFault? pattern bound before = none ∧
          binding.fault? pattern (bound ++ before) = some error := by
  constructor
  · intro h
    induction bindings generalizing bound with
    | nil => cases h
    | cons first rest ih =>
        rw [firstFault?, Option.or_eq_some_iff] at h
        rcases h with hfirst | ⟨hnone, hrest⟩
        · exact ⟨[], first, rest, rfl, rfl, by rwa [List.append_nil]⟩
        · obtain ⟨before, binding, after, rfl, hbefore, hfault⟩ := ih hrest
          refine ⟨first :: before, binding, after, rfl, ?_, ?_⟩
          · rw [firstFault?, hnone, Option.none_or, hbefore]
          · rwa [List.append_assoc] at hfault
  · rintro ⟨before, binding, after, rfl, hbefore, hfault⟩
    rw [firstFault?_append, hbefore, Option.none_or, firstFault?, hfault, Option.some_or]

/-- What is wrong with a parameter behind others of its pattern: it has no name, or one of
theirs. -/
theorem fault?_eq_of_index {pattern : String} {before : List Binding} {binding : Binding}
    (hindex : binding.index ∉ before.map Binding.index) :
    binding.fault? pattern before =
      if binding.name = "" then some (.malformed pattern binding.unnamed)
      else if binding.name ∈ before.map Binding.name then
        some (.collision pattern binding.name)
      else none := by
  have hclash : (∃ other ∈ before, other.name = binding.name ∧ other.index ≠ binding.index) ↔
      binding.name ∈ before.map Binding.name := by
    rw [List.mem_map]
    constructor
    · rintro ⟨other, hother, hname, -⟩
      exact ⟨other, hother, hname⟩
    · rintro ⟨other, hother, hname⟩
      exact ⟨other, hother, hname, fun h => hindex (List.mem_map.mpr ⟨other, hother, h⟩)⟩
  simp only [Binding.fault?, hclash]

/-! ## Binding parameters that are new -/

namespace Scope

/-- A segment whose parameter has a name that is not in scope is given its binding. -/
theorem bindingOf_of_fresh {scope : Scope} {index : Nat} {segment : Segment}
    (hcatchAll : scope.hasCatchAll = false)
    (hfresh : ∀ binding ∈ segment.binding? index,
      binding.name ≠ "" ∧ scope.index? binding.name = none) (pattern : String) :
    scope.bindingOf pattern index segment = .ok (segment.binding? index) := by
  cases segment with
  | literal text => rfl
  | dynamic name =>
      obtain ⟨hname, hnew⟩ := hfresh (.dynamic name index) rfl
      exact bindingOf_dynamic_eq_ok_iff.mpr ⟨hname, Or.inl ⟨hnew, rfl⟩⟩
  | catchAll name =>
      obtain ⟨hname, hnew⟩ := hfresh (.catchAll name index) rfl
      exact bindingOf_catchAll_eq_ok_iff.mpr (Or.inr ⟨hcatchAll, hname, Or.inl hnew, rfl⟩)

theorem hasCatchAll_extend_binding? (scope : Scope) (index : Nat) (segment : Segment) :
    (scope.extend (segment.binding? index)).hasCatchAll =
      (scope.hasCatchAll || segment.isCatchAll) := by
  cases segment <;> simp [Segment.binding?, Segment.isCatchAll, add]

theorem index?_extend_of_ne {scope : Scope} {found : Option Binding} {name : String}
    (h : ∀ binding ∈ found, binding.name ≠ name) :
    (scope.extend found).index? name = scope.index? name := by
  cases found with
  | none => rfl
  | some binding => rw [extend_some, index?_add, if_neg (h binding rfl).symm]

/-- Distinct parameters that are not in scope are all bound, in their order. -/
theorem exists_bindFrom_eq_parametersFrom {scope : Scope} {index : Nat} {rest : List Segment}
    (hlast : hasMisplacedCatchAll rest = false) (hcatchAll : scope.hasCatchAll = false)
    (hdistinct : Distinct (parametersFrom index rest))
    (hfresh : ∀ binding ∈ parametersFrom index rest, scope.index? binding.name = none)
    (pattern : String) :
    ∃ inner, bindFrom pattern scope index rest = .ok (parametersFrom index rest, inner) := by
  induction rest generalizing scope index with
  | nil => exact ⟨scope, rfl⟩
  | cons segment rest ih =>
      obtain ⟨hnamed, hnodup⟩ := hdistinct
      rw [parametersFrom] at hnamed hnodup hfresh ⊢
      rw [List.map_append, List.nodup_append] at hnodup
      have hhead : ∀ binding ∈ segment.binding? index,
          binding ∈ (segment.binding? index).toList ++ parametersFrom (index + 1) rest :=
        fun binding hbinding => List.mem_append_left _ (Option.mem_toList.mpr hbinding)
      have hfound : scope.bindingOf pattern index segment = .ok (segment.binding? index) :=
        bindingOf_of_fresh hcatchAll
          (fun binding hbinding =>
            ⟨hnamed binding (hhead binding hbinding), hfresh binding (hhead binding hbinding)⟩)
          pattern
      -- no catch-all is in scope for the others, since one would have to come last
      have hrest : ∃ inner, bindFrom pattern (scope.extend (segment.binding? index)) (index + 1)
          rest = .ok (parametersFrom (index + 1) rest, inner) := by
        cases rest with
        | nil => exact ⟨_, rfl⟩
        | cons second rest =>
            obtain ⟨hfirst, hlast⟩ := (hasMisplacedCatchAll_cons (by simp)).mp hlast
            apply ih hlast
            · rw [hasCatchAll_extend_binding?, hcatchAll, hfirst, Bool.false_or]
            · exact ⟨fun other hother => hnamed other (List.mem_append_right _ hother),
                hnodup.2.1⟩
            · intro other hother
              rw [index?_extend_of_ne, hfresh other (List.mem_append_right _ hother)]
              intro binding hbinding
              exact hnodup.2.2 binding.name
                (List.mem_map_of_mem (Option.mem_toList.mpr hbinding)) other.name
                (List.mem_map_of_mem hother)
      obtain ⟨inner, hrest⟩ := hrest
      exact ⟨inner, bindFrom_cons_eq_ok_iff.mpr ⟨_, _, hfound, hrest, rfl⟩⟩

end Scope

/-! ## The action -/

namespace Tree

/-- What a page may do. -/
def isPageAction : Tree → Bool
  | .rewrite .. | .redirect .. | .external | .next .. => true
  | _ => false

theorem binding?_of_isPageAction {tree : Tree} (h : tree.isPageAction = true) :
    tree.binding? = none := by
  cases tree <;> first | rfl | cases h

/-- What holds of a node and of all that its branches contain holds of all that it
contains. -/
theorem Contains.forall_of_children {tree : Tree} {motive : Tree → Prop} (htree : motive tree)
    (hchildren : ∀ child ∈ tree.children, ∀ node, child.Contains node → motive node) :
    ∀ node, tree.Contains node → motive node := by
  intro node hnode
  cases hnode with
  | here => exact htree
  | deeper hchild hnode => exact hchildren _ hchild node hnode

end Tree

namespace Page

/-- A page goes on, where it is refused, with what is left of it without the refused
action. -/
theorem action_eq (page : Page) :
    page.action =
      if page.external then .external
      else if page.rewrite then
        .rewrite page.location page.internalPath
          (if page.redirect || page.page then some { page with rewrite := false }.action
            else none)
      else if page.redirect then
        .redirect page.location page.internalPath
          (if page.page then some { page with redirect := false }.action else none)
      else .next page.internalPath page.externalPath := by
  by_cases hexternal : page.external = true
  · rw [if_pos hexternal, action_external hexternal]
  rw [if_neg hexternal]
  replace hexternal := eq_false_of_ne_true hexternal
  by_cases hrewrite : page.rewrite = true
  · rw [if_pos hrewrite, action_rewrite hexternal hrewrite]
  rw [if_neg hrewrite]
  replace hrewrite := eq_false_of_ne_true hrewrite
  by_cases hredirect : page.redirect = true
  · rw [if_pos hredirect, action_redirect hexternal hrewrite hredirect]
  · rw [if_neg hredirect,
      action_served hexternal hrewrite (eq_false_of_ne_true hredirect)]

theorem isPageAction_of_redirectAction (page : Page) :
    ∀ node, page.redirectAction.Contains node → node.isPageAction = true := by
  have hserved : ∀ node, (Tree.next page.internalPath page.externalPath).Contains node →
      node.isPageAction = true :=
    Tree.Contains.forall_of_children rfl (by simp [Tree.children])
  unfold redirectAction
  dsimp only
  split
  · refine Tree.Contains.forall_of_children rfl ?_
    split
    · simpa [Tree.children] using hserved
    · simp [Tree.children]
  · exact hserved

/-- Nothing but the actions of pages stands below the bindings of a page. -/
theorem isPageAction_of_action (page : Page) :
    ∀ node, page.action.Contains node → node.isPageAction = true := by
  unfold action
  split
  · exact Tree.Contains.forall_of_children rfl (by simp [Tree.children])
  · split
    · refine Tree.Contains.forall_of_children rfl ?_
      split
      · simpa [Tree.children] using page.isPageAction_of_redirectAction
      · simp [Tree.children]
    · exact page.isPageAction_of_redirectAction

/-! ## The tree and the error -/

variable {page : Page}

theorem toTree_of_misplaced
    (hlast : hasMisplacedCatchAll (segments page.externalPath) = true) (scope : Scope) :
    page.toTree scope = .error (.malformed page.externalPath .catchAllNotLast) := by
  rw [Page.toTree, Scope.bind, hlast, if_pos rfl]
  rfl

theorem toTree_of_distinct
    (hlast : hasMisplacedCatchAll (segments page.externalPath) = false)
    (hdistinct : Distinct (parameters page.externalPath)) :
    page.toTree .empty =
      .ok (Binding.allBefore (parameters page.externalPath) page.action) := by
  have hcatchAll : Scope.empty.hasCatchAll = false := rfl
  have hfresh : ∀ binding ∈ parameters page.externalPath,
      Scope.empty.index? binding.name = none := fun _ _ => rfl
  obtain ⟨inner, hbind⟩ := Scope.exists_bindFrom_eq_parametersFrom hlast hcatchAll hdistinct
    hfresh page.externalPath
  exact Page.toTree_eq_ok_iff.mpr
    ⟨parameters page.externalPath, inner, Scope.bind_eq_ok_iff.mpr ⟨hlast, hbind⟩, rfl⟩

/-- Where the catch-all is in its place, the first parameter at fault is reported. -/
theorem failure?_toTree_empty
    (hlast : hasMisplacedCatchAll (segments page.externalPath) = false) :
    failure? (page.toTree .empty) =
      firstFault? page.externalPath [] (parameters page.externalPath) := by
  have hchecked : checked false (parameters page.externalPath) = parameters page.externalPath :=
    checked_eq_self (dropLast_parametersFrom hlast 0)
  rw [page.failure?_toTree (show Scope.empty.Binds (boundAlong []) from Scope.Binds.empty),
    Visit.fault?, hlast, if_neg Bool.false_ne_true]
  exact congrArg (firstFault? page.externalPath []) hchecked

theorem exists_toTree_iff :
    (∃ tree, page.toTree .empty = .ok tree) ↔
      hasMisplacedCatchAll (segments page.externalPath) = false ∧
        Distinct (parameters page.externalPath) := by
  cases hlast : hasMisplacedCatchAll (segments page.externalPath) with
  | true => simp [toTree_of_misplaced hlast]
  | false =>
      rw [← failure?_eq_none_iff, failure?_toTree_empty hlast,
        firstFault?_eq_none_iff_distinct (nodup_index_parameters page.externalPath)]
      exact (and_iff_right rfl).symm

/-- The parameter at fault is the first that has no name, or the name of one before it. -/
theorem toTree_empty_eq_error_iff
    (hlast : hasMisplacedCatchAll (segments page.externalPath) = false) {error : CompileError} :
    page.toTree .empty = .error error ↔
      ∃ before binding after, parameters page.externalPath = before ++ binding :: after ∧
        Distinct before ∧
          (binding.name = "" ∧ error = .malformed page.externalPath binding.unnamed ∨
            binding.name ≠ "" ∧ binding.name ∈ before.map Binding.name ∧
              error = .collision page.externalPath binding.name) := by
  rw [← failure?_eq_some_iff, failure?_toTree_empty hlast, firstFault?_eq_some_iff]
  refine exists_congr fun before => exists_congr fun binding => exists_congr fun after =>
    and_congr_right fun hsplit => ?_
  have hindex := nodup_index_parameters page.externalPath
  rw [hsplit, List.map_append, List.map_cons] at hindex
  have hbefore := (List.nodup_append.mp hindex).1
  have hfirst := (List.nodup_cons.mp (List.nodup_middle.mp hindex)).1
  rw [firstFault?_eq_none_iff_distinct hbefore, List.nil_append,
    fault?_eq_of_index fun h => hfirst (List.mem_append_left _ h)]
  refine and_congr_right fun _ => ?_
  by_cases hname : binding.name = ""
  · simp [hname, eq_comm (a := error)]
  · by_cases hmem : binding.name ∈ before.map Binding.name
    · simp only [hname, hmem, if_pos, if_false, ne_eq, not_false_iff, true_and, false_and, false_or,
        Option.some.injEq, eq_comm (a := error)]
    · simp only [hname, hmem, if_false, false_and, and_false, or_self, reduceCtorEq]

/-- **What a page becomes.**  With nothing bound before it, a page has a tree exactly when no
catch-all stands before the end of its pattern and its parameters have names, each its own.
The tree binds them in the order of their positions, a catch-all last; below that nothing is
bound, and the flags say what is done.  Otherwise the error is a catch-all before the end, or
that of the first parameter that has no name or the name of an earlier one.  The rules that
look for one binding at a time come to the same. -/
theorem exists_toTree_iff_distinct (page : Page) :
    ((∃ tree, page.toTree .empty = .ok tree) ↔
      hasMisplacedCatchAll (segments page.externalPath) = false ∧
        Distinct (parameters page.externalPath)) ∧
    (∀ tree, page.toTree .empty = .ok tree →
      tree = Binding.allBefore (parameters page.externalPath) page.action ∧
        (∀ binding, binding ∈ parameters page.externalPath ↔
          ∃ segment, (segments page.externalPath)[binding.index]? = some segment ∧
            segment.binding? binding.index = some binding) ∧
        (parameters page.externalPath).Pairwise (·.index < ·.index) ∧
        ∀ binding ∈ (parameters page.externalPath).dropLast, binding.isCatchAll = false) ∧
    (∀ node, page.action.Contains node → node.binding? = none) ∧
    (page.action =
      if page.external then .external
      else if page.rewrite then
        .rewrite page.location page.internalPath
          (if page.redirect || page.page then some { page with rewrite := false }.action
            else none)
      else if page.redirect then
        .redirect page.location page.internalPath
          (if page.page then some { page with redirect := false }.action else none)
      else .next page.internalPath page.externalPath) ∧
    (∀ error, page.toTree .empty = .error error ↔
      if hasMisplacedCatchAll (segments page.externalPath) then
        error = .malformed page.externalPath .catchAllNotLast
      else
        ∃ before binding after, parameters page.externalPath = before ++ binding :: after ∧
          Distinct before ∧
            (binding.name = "" ∧ error = .malformed page.externalPath binding.unnamed ∨
              binding.name ≠ "" ∧ binding.name ∈ before.map Binding.name ∧
                error = .collision page.externalPath binding.name)) ∧
    ∀ result, Lowers .empty (some (.page page)) result ↔ page.toTree .empty = result := by
  refine ⟨exists_toTree_iff, ?_, fun node hnode =>
    Tree.binding?_of_isPageAction (page.isPageAction_of_action node hnode), page.action_eq, ?_,
    fun result => lowers_iff⟩
  · intro tree htree
    obtain ⟨hlast, hdistinct⟩ := exists_toTree_iff.mp ⟨tree, htree⟩
    exact ⟨Except.ok.inj (htree.symm.trans (toTree_of_distinct hlast hdistinct)),
      fun _ => mem_parameters, pairwise_index_parametersFrom 0 _,
      dropLast_parametersFrom hlast 0⟩
  · intro error
    cases hlast : hasMisplacedCatchAll (segments page.externalPath) with
    | true => simp [toTree_of_misplaced hlast, eq_comm (a := error)]
    | false => exact toTree_empty_eq_error_iff hlast

end Page

end RouteTree
