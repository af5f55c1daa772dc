import Mathlib.Algebra.Order.BigOperators.Group.List
import Mathlib.Algebra.Order.Group.Nat
import RouteTree.Proofs.Joining
import RouteTree.Proofs.Selection
import RouteTree.Proofs.Tidy

/-!
# Every declaration is reached

A literal beside a parameter, a catch-all above both: whatever else is declared, there is a
request that ends at a given declaration.  It takes the literals of the address as they are,
and for every parameter a text that no declaration has for a literal.  Such a text is found
with no literal child anywhere, so the search has to go on with the parameter.  A catch-all
needs one more component of that sort, and is passed over if there is a parameter beside it
that could take it.

`Tree.destination?` says where the switches of a tree lead to.  For a compiled tree this is
the address at which the search of the table ends (`Node.destination?_toTree`), and the
search is followed along the steps in `Table.search?_through`.
-/

namespace RouteTree

namespace Tree

/-! ## Where the switches lead to -/

mutual

/-- The address of the declaration whose branch `select` ends at: the cases taken on the way,
and the place of the last one.  A branch that leads nowhere has none. -/
def destination? (components : List String) : Tree → Option Address
  | .switch index cases other lastResort =>
    match components[index]? with
    | none =>
      if (selectCase components "" cases).isNotFound then none else some ⟨[], .exact⟩
    | some component =>
      if component = "" then none
      else
        ((caseDestination? components component cases).map
            (Address.after (.literal component))).or
          (((destination? components other).map (Address.after .dynamic)).or
            (if (selectOption components lastResort).isNotFound then none
              else some ⟨[], .catchAll⟩))
  | tree => if tree.isNotFound then none else some ⟨[], .override⟩
termination_by structural tree => tree

def caseDestination? (components : List String) (label : String) :
    List (String × Tree) → Option Address
  | [] => none
  | (other, branch) :: rest =>
    if other = label then destination? components branch
    else caseDestination? components label rest
termination_by structural cases => cases

end

mutual

/-- The switches of any tree lead somewhere exactly when they select a node that does. -/
theorem isNone_destination? (request : List String) (tree : Tree) :
    (tree.destination? request).isNone = (tree.select request).isNotFound := by
  cases tree with
  | switch index cases other lastResort =>
      have hcase := fun label => isNone_caseDestination? request label cases
      have hother := isNone_destination? request other
      simp only [destination?, select]
      cases request[index]? with
      | none =>
          cases (selectCase request "" cases).isNotFound <;> simp
      | some component =>
          have hliteral := hcase component
          by_cases hempty : component = ""
          · simp [hempty, isNotFound]
          · cases h₁ : (selectCase request component cases).isNotFound <;>
              cases h₂ : (other.select request).isNotFound <;>
              cases h₃ : (selectOption request lastResort).isNotFound <;>
              simp_all
  | notFound => rfl
  | _ => rfl
termination_by structural tree

theorem isNone_caseDestination? (request : List String) (label : String)
    (cases : List (String × Tree)) :
    (caseDestination? request label cases).isNone =
      (selectCase request label cases).isNotFound := by
  cases cases with
  | nil => rfl
  | cons first rest =>
      obtain ⟨other, branch⟩ := first
      simp only [caseDestination?, selectCase]
      split
      · exact isNone_destination? request branch
      · exact isNone_caseDestination? request label rest
termination_by structural cases

end

theorem destination?_of_isAnswer {tree : Tree} (h : tree.IsAnswer) (request : List String) :
    tree.destination? request = some ⟨[], .override⟩ := by
  obtain ⟨hswitch, hanswer⟩ := h
  cases tree with
  | switch => cases hswitch
  | notFound => cases hanswer
  | _ => rfl

end Tree

theorem IsTreeOf.here?_eq {table : Table} {place : Place} {tree : Tree}
    (h : IsTreeOf (table ⟨[], place⟩) tree) :
    (if tree.isNotFound then none else some ⟨[], place⟩) = table.here? place := by
  unfold Table.here?
  rw [h.isNotFound_eq]
  cases table ⟨[], place⟩ <;> rfl

theorem caseDestination?_eq {request rest : List String} {depth : Nat}
    (hchild : ∀ (child : Node) (tree : Tree), child.toTree depth = .ok tree →
      tree.destination? request = Table.search? rest child.find?)
    (label : String) {children : List (String × Node)} {cases : List (String × Tree)}
    (h : staticTrees depth children = .ok cases) :
    Tree.caseDestination? request label cases =
      Table.search? rest (childTable (children.lookup label)) := by
  induction children generalizing cases with
  | nil =>
      cases h
      simp [Tree.caseDestination?]
  | cons first children ih =>
      obtain ⟨literal, child⟩ := first
      obtain ⟨tree, trees, htree, htrees, rfl⟩ := staticTrees_cons_eq_ok h
      rw [Tree.caseDestination?, lookup_cons_pair]
      by_cases hlabel : label = literal
      · rw [if_pos hlabel.symm, if_pos hlabel]
        exact hchild child tree htree
      · rw [if_neg (Ne.symm hlabel), if_neg hlabel]
        exact ih htrees

theorem destination?_of_override {depth : Nat} {node : Node} {slot : Slot} {tree : Tree}
    (hroot : node.override = some slot) (h : node.toTree depth = .ok tree)
    (request rest : List String) :
    tree.destination? request = Table.search? rest node.find? := by
  have hheld : node.find? ⟨[], .override⟩ = some slot := hroot
  rw [Node.toTree_of_override hroot] at h
  rw [Tree.destination?_of_isAnswer (Slot.isAnswer_toTree h),
    Table.search?_of_override (by simp [hheld])]

/-- The switches of a tree lead where the search of its node's table ends. -/
theorem Node.destination?_toTree (request : List String) {depth : Nat} {node : Node}
    {tree : Tree} (h : node.toTree depth = .ok tree) :
    tree.destination? request = Table.search? (request.drop depth) node.find? := by
  generalize hrest : request.drop depth = rest
  induction rest generalizing depth node tree with
  | nil =>
      cases hroot : node.override with
      | some slot =>
          exact destination?_of_override hroot h request _
      | none =>
          obtain ⟨exact, cases, other, lastResort, rfl, hexact, -⟩ := Node.exists_switch hroot h
          have htable : node.find? ⟨[], .override⟩ = none := hroot
          have hend : request[depth]? = none := by
            simpa [List.drop_eq_nil_iff] using hrest
          have hcase : Tree.selectCase request "" (("", exact) :: cases) = exact.select request := by
            rw [Tree.selectCase, if_pos rfl]
          rw [Table.search?_nil htable, Tree.destination?, hend]
          dsimp only
          rw [hcase]
          exact IsTreeOf.here?_eq (hexact.select request)
  | cons component rest ih =>
      cases hroot : node.override with
      | some slot =>
          exact destination?_of_override hroot h request _
      | none =>
          obtain ⟨exact, cases, other, lastResort, rfl, -, hcases, hother, hlast⟩ :=
            Node.exists_switch hroot h
          have htable : node.find? ⟨[], .override⟩ = none := hroot
          obtain ⟨hhere, hnext⟩ := of_drop_eq_cons hrest
          rw [Tree.destination?, hhere]
          dsimp only
          by_cases hne : component = ""
          · subst hne
            rw [if_pos rfl, Table.search?_empty_cons htable]
          · have hchild : ∀ (child : Node) (tree : Tree), child.toTree (depth + 1) = .ok tree →
                tree.destination? request = Table.search? rest child.find? :=
              fun child tree htree => ih htree hnext
            have hliteral := caseDestination?_eq hchild component hcases
            have hdynamic : other.destination? request =
                Table.search? rest (childTable node.dynamic) := by
              cases hdyn : node.dynamic with
              | none =>
                  rw [hdyn] at hother
                  cases hother
                  simp [Tree.destination?, Tree.isNotFound]
              | some child =>
                  rw [hdyn] at hother
                  exact hchild child other hother
            have hresort : IsTreeOf (node.find? ⟨[], .catchAll⟩)
                (Tree.selectOption request lastResort) := isTreeOf_selectOption hlast request
            have hcatchAll := hresort.here?_eq
            -- the label for the end of the path is passed over: no component is empty here
            rw [if_neg hne, Tree.caseDestination?, if_neg (Ne.symm hne), hliteral, hdynamic,
              hcatchAll, Table.search?_cons htable hne, below_find?, below_find?]
            rfl

/-! ## A request for every address -/

/-- The component that a step is taken with, where `fresh` stands for any text. -/
def Step.component (fresh : String) : Step → String
  | .literal text => text
  | .dynamic => fresh

/-- There is always a component that no declaration has for a literal. -/
theorem exists_fresh (texts : List String) :
    ∃ text, text ∉ texts ∧ text ≠ "" ∧ '/' ∉ text.toList := by
  -- longer than all of them
  refine ⟨String.ofList (List.replicate ((texts.map String.length).sum + 1) 'x'), ?_, ?_, ?_⟩
  · intro hmem
    have hsum : ∀ text ∈ texts, text.length ≤ (texts.map String.length).sum := by
      intro text htext
      exact List.le_sum_of_mem (List.mem_map.mpr ⟨text, htext, rfl⟩)
    have hlength := hsum _ hmem
    simp at hlength
  · intro hnil
    simp at hnil
  · simp

namespace Table

/-- The table seen from the end of some steps. -/
def belowAll (table : Table) (steps : List Step) : Table :=
  fun address => table ⟨steps ++ address.steps, address.place⟩

/-- No declared address has the text for a literal. -/
def Unused (table : Table) (text : String) : Prop :=
  ∀ address, .literal text ∈ address.steps → table address = none

variable {table : Table} {fresh : String}

theorem Unused.below (h : table.Unused fresh) (step : Step) : (table.below step).Unused fresh := by
  intro address hmem
  exact h _ (List.mem_cons_of_mem _ hmem)

theorem Unused.belowAll (h : table.Unused fresh) (steps : List Step) :
    (table.belowAll steps).Unused fresh := by
  intro address hmem
  exact h _ (List.mem_append_right _ hmem)

/-- With a text that is not used the search finds no literal child. -/
theorem Unused.search?_literal (h : table.Unused fresh) (request : List String) :
    search? request (table.below (.literal fresh)) = none := by
  have hnothing : table.below (.literal fresh) = fun _ => none := by
    funext address
    exact h _ (List.mem_cons_self ..)
  rw [hnothing, search?_empty]

/-- Where no override is on the way, the search goes through the steps of an address and on to
what is found at their end. -/
theorem search?_through {steps : List Step} {place : Place} {rest : List String}
    (hne : fresh ≠ "") (hunused : table.Unused fresh)
    (hlabels : ∀ text, .literal text ∈ steps → text ≠ "")
    (hover : ∀ above, above <+: steps → above ≠ steps → table ⟨above, .override⟩ = none)
    (hend : search? rest (table.belowAll steps) = some ⟨[], place⟩) :
    search? (steps.map (Step.component fresh) ++ rest) table = some ⟨steps, place⟩ := by
  induction steps generalizing table with
  | nil => exact hend
  | cons step steps ih =>
      have hroot : table ⟨[], .override⟩ = none := hover [] List.nil_prefix (by simp)
      have hbelow : search? (steps.map (Step.component fresh) ++ rest) (table.below step) =
          some ⟨steps, place⟩ := by
        refine ih (hunused.below step) ?_ ?_ hend
        · intro text hmem
          exact hlabels text (List.mem_cons_of_mem _ hmem)
        · intro above habove hproper
          refine hover (step :: above) (List.cons_prefix_cons.mpr ⟨rfl, habove⟩) ?_
          intro heq
          exact hproper (List.cons.inj heq).2
      have hcomponent : step.component fresh ≠ "" := by
        cases step with
        | literal text => exact hlabels text (List.mem_cons_self ..)
        | dynamic => exact hne
      rw [List.map_cons, List.cons_append, search?_cons hroot hcomponent]
      cases step with
      | literal text =>
          show ((search? _ (table.below (.literal text))).map _).or _ = _
          rw [hbelow, Option.map_some, Option.some_or]
          rfl
      | dynamic =>
          show ((search? _ (table.below (.literal fresh))).map _).or _ = _
          rw [hunused.search?_literal, hbelow, Option.map_none, Option.none_or, Option.map_some,
            Option.some_or]
          rfl

theorem Live.override_eq_none {address : Address} (h : table.Live address)
    (hplace : address.place ≠ .override) {above : List Step} (habove : above <+: address.steps) :
    table ⟨above, .override⟩ = none := by
  by_contra hheld
  apply hplace
  rw [h.not_overridden above habove hheld]

/-- At the end of the steps an exact declaration is found by a request that ends there. -/
theorem search?_belowAll_nil {steps : List Step} (hlive : table.Live ⟨steps, .exact⟩) :
    search? [] (table.belowAll steps) = some ⟨[], .exact⟩ := by
  have hroot : table.belowAll steps ⟨[], .override⟩ = none := by
    unfold belowAll
    rw [List.append_nil]
    exact hlive.override_eq_none (by simp) List.prefix_rfl
  rw [search?_nil hroot, here?_eq_some_iff]
  refine ⟨rfl, ?_⟩
  unfold belowAll
  rw [List.append_nil]
  exact hlive.declared

/-- A catch-all is found by a request that goes on with a text that is not used, if nothing is
declared below a parameter beside it. -/
theorem search?_belowAll_singleton {steps : List Step} (hne : fresh ≠ "")
    (hunused : table.Unused fresh) (hlive : table.Live ⟨steps, .catchAll⟩)
    (hdynamic : ∀ other, steps ++ [.dynamic] <+: other.steps → table other = none) :
    search? [fresh] (table.belowAll steps) = some ⟨[], .catchAll⟩ := by
  have hroot : table.belowAll steps ⟨[], .override⟩ = none := by
    unfold belowAll
    rw [List.append_nil]
    exact hlive.override_eq_none (by simp) List.prefix_rfl
  have hnothing : (table.belowAll steps).below .dynamic = fun _ => none := by
    funext other
    apply hdynamic
    exact ⟨other.steps, by simp [Address.after]⟩
  rw [search?_cons hroot hne, (hunused.belowAll steps).search?_literal, hnothing, search?_empty,
    Option.map_none, Option.none_or, Option.map_none, Option.none_or, here?_eq_some_iff]
  refine ⟨rfl, ?_⟩
  unfold belowAll
  rw [List.append_nil]
  exact hlive.declared

end Table

namespace RouteGroup

variable {group : RouteGroup} {compiled : Compiled}

/-- The literals on the way to a declaration can stand between two slashes. -/
theorem isLabel_of_declared (hcompile : group.compile = .ok compiled) {address : Address}
    (hdeclared : group.table address ≠ none) {text : String}
    (hmem : .literal text ∈ address.steps) : IsLabel text := by
  obtain ⟨declaration, hdeclaration, rfl⟩ := Table.ofDeclarations_ne_none_iff.mp hdeclared
  obtain ⟨place, hending⟩ := accepted_of_compile hcompile declaration hdeclaration
  rw [← Walk.ofKey_eq_of_ending hending] at hmem
  exact Walk.isLabel_of_mem_steps hmem

/-- There is always a text that a group does not use. -/
theorem exists_unused (group : RouteGroup) :
    ∃ fresh, group.table.Unused fresh ∧ fresh ≠ "" ∧ '/' ∉ fresh.toList := by
  obtain ⟨fresh, hfresh, hne, hslash⟩ := exists_fresh
    (group.declarations.flatMap fun declaration =>
      (Address.ofKey declaration.1).steps.map (Step.component ""))
  refine ⟨fresh, ?_, hne, hslash⟩
  intro address hmem
  by_contra hdeclared
  obtain ⟨declaration, hdeclaration, rfl⟩ := Table.ofDeclarations_ne_none_iff.mp hdeclared
  apply hfresh
  exact List.mem_flatMap.mpr ⟨declaration, hdeclaration, List.mem_map.mpr ⟨_, hmem, rfl⟩⟩

/-- An exact declaration is the end of some search, and so is a catch-all without a parameter
beside it. -/
theorem exists_request_of_live (hcompile : group.compile = .ok compiled) {address : Address}
    (hlive : group.table.Live address)
    (hplace : address.place = .exact ∨ address.place = .catchAll ∧
      ∀ declaration ∈ group.declarations,
        ¬ address.steps ++ [.dynamic] <+: (Address.ofKey declaration.1).steps) :
    ∃ request, (∀ part ∈ request, part ≠ "" ∧ '/' ∉ part.toList) ∧
      Table.search? request group.table = some address := by
  obtain ⟨fresh, hunused, hne, hslash⟩ := group.exists_unused
  obtain ⟨steps, place⟩ := address
  have hlabels : ∀ text, .literal text ∈ steps → IsLabel text :=
    fun text hmem => isLabel_of_declared hcompile hlive.declared hmem
  have hover : ∀ above, above <+: steps → above ≠ steps →
      group.table ⟨above, .override⟩ = none := by
    intro above habove _
    refine hlive.override_eq_none ?_ habove
    rcases hplace with rfl | ⟨rfl, -⟩ <;> simp
  -- what the request goes on with at the end of the steps
  obtain ⟨rest, hrest, hend⟩ : ∃ rest : List String, (∀ part ∈ rest, part = fresh) ∧
      Table.search? rest (group.table.belowAll steps) = some ⟨[], place⟩ := by
    rcases hplace with rfl | ⟨rfl, hdynamic⟩
    · exact ⟨[], by simp, Table.search?_belowAll_nil hlive⟩
    · refine ⟨[fresh], by simp, Table.search?_belowAll_singleton hne hunused hlive ?_⟩
      intro other hother
      by_contra hdeclared
      obtain ⟨declaration, hmem, rfl⟩ := Table.ofDeclarations_ne_none_iff.mp hdeclared
      exact hdynamic declaration hmem hother
  refine ⟨steps.map (Step.component fresh) ++ rest, ?_, ?_⟩
  · intro part hpart
    rcases List.mem_append.mp hpart with hmap | hlast
    · obtain ⟨step, hstep, rfl⟩ := List.mem_map.mp hmap
      cases step with
      | literal text => exact ⟨(hlabels text hstep).ne_empty, (hlabels text hstep).slash_not_mem⟩
      | dynamic => exact ⟨hne, hslash⟩
    · rw [hrest part hlast]
      exact ⟨hne, hslash⟩
  · exact Table.search?_through hne hunused (fun text hmem => (hlabels text hmem).ne_empty)
      hover hend

/-- **Every declaration is reached.**  In a compiled group every exact declaration without an
override at its node or above has a request without empty components that ends there, and so
does every such catch-all that has no parameter beside it.  The request resolves like the tree
of that declaration. -/
theorem exists_path_of_live (hcompile : group.compile = .ok compiled) {address : Address}
    (hlive : group.table.Live address)
    (hplace : address.place = .exact ∨ address.place = .catchAll ∧
      ∀ declaration ∈ group.declarations,
        ¬ address.steps ++ [.dynamic] <+: (Address.ofKey declaration.1).steps) :
    ∃ path slot tree, "" ∉ components path ∧
      compiled.tree.destination? (components path) = some address ∧
      group.table address = some slot ∧ slot.toTree = .ok tree ∧
      compiled.tree.select (components path) = tree ∧
      ∀ {σ : Type} (runtime : Runtime σ) (state : σ),
        compiled.tree.evaluate path runtime state = tree.evaluate path runtime state := by
  obtain ⟨request, hparts, hsearch⟩ := exists_request_of_live hcompile hlive hplace
  have hone : request ≠ [""] := by
    rintro rfl
    exact (hparts "" (List.mem_singleton.mpr rfl)).1 rfl
  have hpath : components (pathOf request) = request :=
    components_pathOf hone fun part hpart => (hparts part hpart).2
  obtain ⟨slot, hslot⟩ := Option.ne_none_iff_exists'.mp hlive.declared
  obtain ⟨registry, root, hregistry, hroot, rfl⟩ := compile_eq_ok_iff.mp hcompile
  have hdestination := Node.destination?_toTree request hroot
  have hselect := isTreeOf_select hcompile request
  rw [Registry.find?_ofDeclarations hregistry] at hdestination
  rw [Table.answer?, hsearch, Option.bind_some, hslot] at hselect
  refine ⟨pathOf request, slot, _, ?_, ?_, hslot, hselect, by rw [hpath], ?_⟩
  · rw [hpath]
    exact fun hempty => (hparts "" hempty).1 rfl
  · rw [hpath]
    exact hdestination.trans hsearch
  · intro σ runtime state
    rw [← Tree.evaluate_select, hpath]

/-- A group with a catch-all beside literals, below a node with a parameter of its own. -/
def handbook : RouteGroup where
  routes := [("/:slug/", .page (.plain "/:slug/" "[slug]")),
    ("/docs/*path/", .page (.plain "/docs/*path/" "docs/[...path]")),
    ("/docs/intro/", .page (.plain "/docs/intro/" "docs/intro"))]
  reserved := ["/docs/intro/assets/*/"]

/-- The catch-all of the handbook is reached. -/
theorem exists_path_of_live_handbook :
    ∃ compiled path, handbook.compile = .ok compiled ∧ "" ∉ components path ∧
      compiled.tree.destination? (components path) = some ⟨[.literal "docs"], .catchAll⟩ := by
  obtain ⟨compiled, hcompile⟩ := exists_ok_of_isOk
    (show handbook.compile.isOk = true by decide +kernel)
  have hbest : handbook.table.IsBest (components "/docs/intro/more")
      ⟨[.literal "docs"], .catchAll⟩ :=
    Table.search?_isBest (by decide +kernel)
  obtain ⟨path, slot, tree, hpath, hdestination, -⟩ :=
    exists_path_of_live hcompile hbest.candidate.live (Or.inr ⟨rfl, by decide +kernel⟩)
  exact ⟨compiled, path, hcompile, hpath, hdestination⟩

end RouteGroup
end RouteTree
