import RouteTree.Proofs.Lowering
import RouteTree.Proofs.Tidy

/-!
# The layers of a constructed tree

The tree of a registry has its switches on top.  The switch at the root looks at the first
component of the request, the switches below it at the second, and so on; below the last
switch of a way down there are only bindings, actions and ends.  So no component is looked
at twice, and none once something has been bound or run.

The switches mirror the nodes of the registry: `Tree.at?` finds the branch that stands for
the node at the end of some steps.  `Tree.WellFormed` says what holds for the layers, for the
labels and branches of every switch, and where something is skipped, which is at the end of
a path, at a catch-all, or in place of a node whose override is a reservation.
`Registry.wellFormed_toTree` shows it for all trees of registries that calls have made, from
the tidiness of their nodes.
-/

namespace RouteTree
namespace Tree

/-! ## Ways down a tree -/

/-- The nodes on a way from the root of a tree to one of its leaves. -/
inductive Lineage : Tree → List Tree → Prop
  | leaf {tree : Tree} (hleaf : tree.children = []) : Lineage tree [tree]
  | child {tree child : Tree} {path : List Tree} (hchild : child ∈ tree.children)
      (hpath : Lineage child path) : Lineage tree (tree :: path)

/-- A node occurs in a tree. -/
inductive Contains : Tree → Tree → Prop
  | here (tree : Tree) : Contains tree tree
  | deeper {tree child node : Tree} (hchild : child ∈ tree.children)
      (hnode : Contains child node) : Contains tree node

def switchIndex? : Tree → Option Nat
  | .switch index .. => some index
  | _ => none

/-- The branch of a switch for one step in the registry: a literal child has the case of
its label, behind the case for the end of the path, and the child for any text has the
branch for all other components. -/
def child? : Tree → Step → Option Tree
  | .switch _ cases _ _, .literal text => cases.tail.lookup text
  | .switch _ _ other _, .dynamic => some other
  | _, _ => none

/-- The branch that stands for the node at the end of some steps. -/
def at? (tree : Tree) : List Step → Option Tree
  | [] => some tree
  | step :: steps => (tree.child? step).bind (·.at? steps)

theorem Contains.of_lineage {tree : Tree} {path : List Tree} (h : tree.Lineage path) :
    ∀ node ∈ path, tree.Contains node := by
  induction h with
  | leaf hleaf =>
      intro node hmem
      obtain rfl := List.mem_singleton.mp hmem
      exact .here node
  | child hchild hpath ih =>
      intro node hmem
      rcases List.mem_cons.mp hmem with rfl | hrest
      · exact .here node
      · exact .deeper hchild (ih node hrest)

theorem child?_of_isSwitch {tree : Tree} (h : tree.isSwitch = false) (step : Step) :
    tree.child? step = none := by
  cases tree <;> simp_all [child?, isSwitch]

/-! ## Chains -/

/-- A tree without switches in which nothing is left to others. -/
inductive IsChain : Tree → Prop
  | intro {tree : Tree} (hswitch : tree.isSwitch = false) (hskip : tree ≠ .skip)
      (hchildren : ∀ child ∈ tree.children, IsChain child) : IsChain tree

theorem IsChain.of_contains {tree node : Tree} (h : tree.IsChain) (hnode : tree.Contains node) :
    node.IsChain := by
  induction hnode with
  | here => exact h
  | deeper hchild hnode ih =>
      obtain ⟨-, -, hchildren⟩ := h
      exact ih (hchildren _ hchild)

theorem isChain_notFound : IsChain .notFound :=
  .intro rfl (by simp) (by simp [children])

theorem IsChain.allBefore {action : Tree} (h : action.IsChain) (bindings : List Binding) :
    (Binding.allBefore bindings action).IsChain := by
  induction bindings with
  | nil => exact h
  | cons binding rest ih =>
      have hcons : Binding.allBefore (binding :: rest) action =
          binding.before (Binding.allBefore rest action) := rfl
      rw [hcons]
      cases binding <;>
        exact .intro rfl (by simp [Binding.before]) (by simpa [Binding.before, children] using ih)

end Tree

theorem Page.isChain_redirectAction (page : Page) : page.redirectAction.IsChain := by
  have hserved : Tree.IsChain (.next page.internalPath page.externalPath) :=
    .intro rfl (by simp) (by simp [Tree.children])
  unfold Page.redirectAction
  dsimp only
  split
  · exact .intro rfl (by simp) (by cases page.page <;> simp [Tree.children, hserved])
  · exact hserved

theorem Page.isChain_action (page : Page) : page.action.IsChain := by
  unfold Page.action
  split
  · exact .intro rfl (by simp) (by simp [Tree.children])
  · split
    · refine .intro rfl (by simp) ?_
      split <;> simp [Tree.children, page.isChain_redirectAction]
    · exact page.isChain_redirectAction

theorem Page.isChain_toTree {page : Page} {scope : Scope} {tree : Tree}
    (h : page.toTree scope = .ok tree) : tree.IsChain := by
  obtain ⟨bindings, inner, -, rfl⟩ := Page.toTree_eq_ok_iff.mp h
  exact page.isChain_action.allBefore bindings

mutual

theorem Route.isChain_toTree {scope : Scope} {tree : Tree} :
    (route : Route) → route.toTree scope = .ok tree → tree.IsChain
  | ⟨segment, kind, onward, forward⟩, h => by
      obtain ⟨bindings, inner, action, -, haction, rfl⟩ := Route.exists_actsAs h
      refine Tree.IsChain.allBefore ?_ bindings
      cases haction with
      | next => exact segment.isChain_action
      | middleware honward =>
          have hchain := isChain_continuationTree onward honward
          exact .intro rfl (by simp) (by simpa [Tree.children] using hchain)
      | forward honward hforward hforwards =>
          have hchain := isChain_continuationTree onward honward
          have hchain' := isChain_continuationTree forward hforward
          cases hforwards <;>
            exact .intro rfl (by simp) (by simp [Tree.children, hchain, hchain'])
termination_by structural route => route

theorem Endpoint.isChain_toTree {scope : Scope} {tree : Tree} :
    (endpoint : Endpoint) → endpoint.toTree scope = .ok tree → tree.IsChain
  | .route declared, h => Route.isChain_toTree declared h
  | .page _, h => Page.isChain_toTree h
termination_by structural endpoint => endpoint

theorem isChain_continuationTree {scope : Scope} {tree : Tree} :
    (endpoint : Option Endpoint) → continuationTree scope endpoint = .ok tree → tree.IsChain
  | none, h => by
      cases h
      exact Tree.isChain_notFound
  | some endpoint, h => Endpoint.isChain_toTree endpoint h
termination_by structural endpoint => endpoint

end

/-! ## What stands below the switches -/

/-- Nothing but a reservation is skipped. -/
theorem Slot.toTree_cases {slot : Slot} {tree : Tree} (h : slot.toTree = .ok tree) :
    (slot = .reserved ∧ tree = .skip) ∨ tree.IsChain := by
  cases slot with
  | reserved =>
      cases h
      exact Or.inl ⟨rfl, rfl⟩
  | route declared => exact Or.inr (Route.isChain_toTree declared h)

/-- A tree that may stand where a way leaves the switches. -/
def Tree.IsTail (tree : Tree) : Prop :=
  tree = .skip ∨ tree.IsChain

theorem Slot.isTail_toTree {slot : Slot} {tree : Tree} (h : slot.toTree = .ok tree) :
    tree.IsTail :=
  (Slot.toTree_cases h).imp_left (·.2)

theorem IsTreeOf.isTail {slot : Option Slot} {tree : Tree} (h : IsTreeOf slot tree) :
    tree.IsTail := by
  cases slot with
  | none =>
      obtain rfl := isTreeOf_none.mp h
      exact Or.inr Tree.isChain_notFound
  | some slot => exact slot.isTail_toTree (isTreeOf_some.mp h)

namespace Tree.IsTail

variable {tree node : Tree}

theorem isSwitch_eq (h : tree.IsTail) : tree.isSwitch = false := by
  rcases h with rfl | ⟨hswitch, -, -⟩
  · rfl
  · exact hswitch

theorem skip_not_mem (h : tree.IsTail) : .skip ∉ tree.children := by
  rcases h with rfl | ⟨-, -, hchildren⟩
  · simp [children]
  · intro hskip
    obtain ⟨-, hne, -⟩ := hchildren _ hskip
    exact hne rfl

theorem of_contains (h : tree.IsTail) (hnode : tree.Contains node) : node.IsTail := by
  rcases h with rfl | hchain
  · cases hnode with
    | here => exact Or.inl rfl
    | deeper hchild => simp [children] at hchild
  · exact Or.inr (hchain.of_contains hnode)

end Tree.IsTail

theorem Tree.IsTail.of_at? {tree found : Tree} (h : tree.IsTail) {steps : List Step}
    (hfound : tree.at? steps = some found) : steps = [] ∧ tree = found := by
  cases steps with
  | nil => exact ⟨rfl, Option.some.inj hfound⟩
  | cons step steps => simp [at?, child?_of_isSwitch h.isSwitch_eq] at hfound

/-! ## One node -/

theorem map_fst_staticTrees {depth : Nat} {children : List (String × Node)}
    {cases : List (String × Tree)} (h : staticTrees depth children = .ok cases) :
    cases.map (·.1) = children.map (·.1) := by
  induction children generalizing cases with
  | nil =>
      cases h
      rfl
  | cons first rest ih =>
      obtain ⟨literal, child⟩ := first
      obtain ⟨tree, trees, -, htrees, rfl⟩ := staticTrees_cons_eq_ok h
      simp [ih htrees]

theorem exists_child_of_lookup {depth : Nat} {children : List (String × Node)}
    {cases : List (String × Tree)} (h : staticTrees depth children = .ok cases)
    {label : String} {branch : Tree} (hbranch : cases.lookup label = some branch) :
    ∃ child, children.lookup label = some child ∧ child.toTree depth = .ok branch := by
  induction children generalizing cases with
  | nil =>
      cases h
      simp at hbranch
  | cons first rest ih =>
      obtain ⟨literal, child⟩ := first
      obtain ⟨tree, trees, htree, htrees, rfl⟩ := staticTrees_cons_eq_ok h
      rw [lookup_cons_pair] at hbranch ⊢
      split at hbranch
      · rename_i hlabel
        cases hbranch
        exact ⟨child, if_pos hlabel, htree⟩
      · rename_i hlabel
        rw [if_neg hlabel]
        exact ih htrees hbranch

theorem exists_slot_of_lastResortTree {catchAll : Option Slot} {branch : Tree}
    (h : lastResortTree catchAll = .ok (some branch)) :
    ∃ slot, catchAll = some slot ∧ slot.toTree = .ok branch := by
  rcases lastResortTree_cases h with ⟨-, hnone⟩ | ⟨slot, _, rfl, hslot, heq⟩
  · cases hnone
  · cases heq
    exact ⟨slot, rfl, hslot⟩

/-- What holds for the cases and the catch-all of a switch. -/
structure OrderlySwitch (cases : List (String × Tree)) (lastResort : Option Tree) : Prop where
  /-- the case for the end of the path comes first and is no switch; the labels of the
  other cases differ, and none of these ends at once without an answer -/
  cases_eq : ∃ exact others, cases = ("", exact) :: others ∧ exact.isSwitch = false ∧
    (others.map (·.1)).Nodup ∧ ∀ case ∈ others, IsLabel case.1 ∧ case.2.isNotFound = false
  /-- the catch-all is no switch and does not end at once without an answer -/
  lastResort_isAnswer : ∀ branch, lastResort = some branch → branch.IsAnswer

namespace Node

variable {node : Node} {depth : Nat} {tree : Tree}

theorem isNotFound_toTree (h : node.toTree depth = .ok tree) : tree.isNotFound = false := by
  rcases toTree_cases h with ⟨slot, -, hslot⟩ | ⟨exact, cases, other, lastResort, rfl, -⟩
  · exact (Slot.isAnswer_toTree hslot).2
  · rfl

theorem isTail_or_switch (htidy : node.Tidy) (h : node.toTree depth = .ok tree) :
    tree.IsTail ∨ ∃ cases other lastResort,
      tree = .switch depth cases other lastResort ∧ OrderlySwitch cases lastResort := by
  rcases toTree_cases h with
    ⟨slot, -, hslot⟩ | ⟨exact, cases, other, lastResort, rfl, hexact, hcases, -, hlast⟩
  · exact Or.inl (Slot.isTail_toTree hslot)
  · obtain ⟨hdistinct, hlabels, -⟩ := htidy
    have hsame := map_fst_staticTrees hcases
    refine Or.inr ⟨_, other, lastResort, rfl, ?_, ?_⟩
    · have hothers : (cases.map (·.1)).Nodup := by rwa [hsame]
      refine ⟨exact, cases, rfl, hexact.isTail.isSwitch_eq, hothers, ?_⟩
      rintro ⟨label, branch⟩ hmem
      obtain ⟨child, -, hbranch⟩ := exists_child_of_lookup hcases (lookup_of_mem hothers hmem)
      refine ⟨hlabels label ?_, isNotFound_toTree hbranch⟩
      rw [labels, ← hsame]
      exact List.mem_map_of_mem hmem
    · rintro branch rfl
      obtain ⟨slot, -, hslot⟩ := exists_slot_of_lastResortTree hlast
      exact Slot.isAnswer_toTree hslot

/-- The branch for a step is the tree of the child there, or a dead end for want of one. -/
theorem exists_child_of_child? (h : node.toTree depth = .ok tree) {step : Step} {child : Tree}
    (hchild : tree.child? step = some child) :
    child = .notFound ∨
      ∃ below, node.child? step = some below ∧ below.toTree (depth + 1) = .ok child := by
  rcases toTree_cases h with
    ⟨slot, -, hslot⟩ | ⟨exact, cases, other, lastResort, rfl, -, hcases, hother, -⟩
  · rw [Tree.child?_of_isSwitch (Slot.isAnswer_toTree hslot).1] at hchild
    cases hchild
  · cases step with
    | literal text => exact Or.inr (exists_child_of_lookup hcases hchild)
    | dynamic =>
        obtain rfl : other = child := Option.some.inj hchild
        simp only [Node.child?]
        cases hdynamic : node.dynamic with
        | none =>
            rw [hdynamic] at hother
            cases hother
            exact Or.inl rfl
        | some below =>
            rw [hdynamic] at hother
            exact Or.inr ⟨below, rfl, hother⟩

theorem isTail_or_child (htidy : node.Tidy) (h : node.toTree depth = .ok tree) {child : Tree}
    (hmem : child ∈ tree.children) :
    child.IsTail ∨ ∃ step below, tree.child? step = some child ∧
      node.child? step = some below ∧ below.toTree (depth + 1) = .ok child := by
  have hstep : ∀ step, tree.child? step = some child →
      child.IsTail ∨ ∃ step below, tree.child? step = some child ∧
        node.child? step = some below ∧ below.toTree (depth + 1) = .ok child := by
    intro step hchild
    rcases exists_child_of_child? h hchild with rfl | ⟨below, hbelow, htree⟩
    · exact Or.inl (Or.inr Tree.isChain_notFound)
    · exact Or.inr ⟨step, below, hchild, hbelow, htree⟩
  rcases toTree_cases h with
    ⟨slot, -, hslot⟩ | ⟨exact, cases, other, lastResort, rfl, hexact, hcases, -, hlast⟩
  · exact Or.inl ((Slot.isTail_toTree hslot).of_contains (.deeper hmem (.here child)))
  · obtain ⟨hdistinct, -, -⟩ := htidy
    -- the branches in the order of the switch: exact, cases, other, catch-all
    simp only [Tree.children, List.map_cons, List.cons_append, List.mem_cons, List.mem_append,
      List.mem_map, Option.mem_toList] at hmem
    rcases hmem with rfl | ⟨⟨label, branch⟩, hcase, rfl⟩ | rfl | hcatchAll
    · exact Or.inl hexact.isTail
    · have hothers : (cases.map (·.1)).Nodup := by rwa [map_fst_staticTrees hcases]
      exact hstep (.literal label) (lookup_of_mem hothers hcase)
    · exact hstep .dynamic rfl
    · obtain rfl : lastResort = some child := hcatchAll
      obtain ⟨slot, -, hslot⟩ := exists_slot_of_lastResortTree hlast
      exact Or.inl (Slot.isTail_toTree hslot)

/-! ## The whole tree -/

/-- Everything in the tree of a tidy node has left the switches, or is itself an orderly
switch that stands for a node below. -/
theorem isTail_or_at? (htidy : node.Tidy) (h : node.toTree depth = .ok tree) {found : Tree}
    (hfound : tree.Contains found) :
    found.IsTail ∨ (∃ steps, tree.at? steps = some found) ∧
      ∃ index cases other lastResort,
        found = .switch index cases other lastResort ∧ OrderlySwitch cases lastResort := by
  -- on the way to what is found, each branch stands for a node one step further down, until
  -- the switches are left
  induction hfound generalizing node depth with
  | here tree =>
      rcases isTail_or_switch htidy h with htail | ⟨cases, other, lastResort, hswitch⟩
      · exact Or.inl htail
      · exact Or.inr ⟨⟨[], rfl⟩, depth, cases, other, lastResort, hswitch⟩
  | deeper hmem hbelow ih =>
      rcases isTail_or_child htidy h hmem with htail | ⟨step, below, hstep, hchild, htree⟩
      · exact Or.inl (htail.of_contains hbelow)
      · obtain ⟨-, -, hchildren⟩ := htidy
        refine (ih (hchildren step below hchild) htree).imp_right ?_
        rintro ⟨⟨steps, hsteps⟩, hswitch⟩
        exact ⟨⟨step :: steps, by simpa [Tree.at?, hstep] using hsteps⟩, hswitch⟩

/-- On every way down the tree of a tidy node the switches come first, and each looks at
the component behind that of the switch above. -/
theorem exists_switches (htidy : node.Tidy) (h : node.toTree depth = .ok tree)
    {path : List Tree} (hpath : tree.Lineage path) :
    ∃ switches chain, path = switches ++ chain ∧
      switches.map Tree.switchIndex? = (List.range' depth switches.length).map some ∧
      ∀ found ∈ chain, found.isSwitch = false := by
  induction hpath generalizing node depth with
  | leaf hleaf =>
      rename_i tree
      -- a switch always has the branch for all other components, so it is no leaf
      refine ⟨[], [tree], rfl, rfl, fun found hfound => ?_⟩
      obtain rfl := List.mem_singleton.mp hfound
      cases found <;> simp [Tree.children, Tree.isSwitch] at hleaf ⊢
  | child hmem hrest ih =>
      rename_i tree child path
      have hwhole : ∀ {top : Tree} {nodes : List Tree}, top.IsTail → top.Lineage nodes →
          ∀ found ∈ nodes, found.isSwitch = false := fun htail hnodes found hfound =>
        (htail.of_contains (Tree.Contains.of_lineage hnodes found hfound)).isSwitch_eq
      rcases isTail_or_switch htidy h with htail | ⟨cases, other, lastResort, hswitch, -⟩
      · exact ⟨[], tree :: path, rfl, rfl, hwhole htail (.child hmem hrest)⟩
      · have hindex : tree.switchIndex? = some depth := by rw [hswitch]; rfl
        rcases isTail_or_child htidy h hmem with htail | ⟨step, below, -, hchild, htree⟩
        · exact ⟨[tree], path, rfl, by simp [hindex], hwhole htail hrest⟩
        · obtain ⟨-, -, hchildren⟩ := htidy
          obtain ⟨switches, chain, rfl, hindices, hchain⟩ :=
            ih (hchildren step below hchild) htree
          refine ⟨tree :: switches, chain, rfl, ?_, hchain⟩
          simp [hindex, hindices, List.range'_succ]

/-- Where a node of the registry is skipped as a whole, its override is a reservation. -/
theorem override_of_at?_skip (h : node.toTree depth = .ok tree) {steps : List Step}
    (hskip : tree.at? steps = some .skip) :
    ∃ found, node.at? steps = some found ∧ found.override = some .reserved := by
  induction steps generalizing node depth tree with
  | nil =>
      obtain rfl : tree = .skip := Option.some.inj hskip
      rcases toTree_cases h with ⟨slot, hroot, hslot⟩ | ⟨_, _, _, _, hswitch, -⟩
      · rcases Slot.toTree_cases hslot with ⟨rfl, -⟩ | ⟨-, hne, -⟩
        · exact ⟨node, rfl, hroot⟩
        · exact absurd rfl hne
      · cases hswitch
  | cons step steps ih =>
      obtain ⟨child, hchild, hrest⟩ := Option.bind_eq_some_iff.mp hskip
      rcases exists_child_of_child? h hchild with rfl | ⟨below, hbelow, htree⟩
      · -- there is no child for any text, and nothing below its dead end
        obtain ⟨-, hnotFound⟩ := Tree.IsTail.of_at? (Or.inr Tree.isChain_notFound) hrest
        cases hnotFound
      · obtain ⟨found, hfound, hoverride⟩ := ih htree hrest
        exact ⟨found, by simpa [Node.at?, hbelow] using hfound, hoverride⟩

end Node

/-! ## Constructed trees are well formed -/

/-- What holds for every tree that is constructed from a registry with this root. -/
structure Tree.WellFormed (tree : Tree) (root : Node) : Prop where
  /-- on every way down the switches come first and look at the components 0, 1, 2, … -/
  layers : ∀ path, tree.Lineage path → ∃ switches chain, path = switches ++ chain ∧
    switches.map switchIndex? = (List.range switches.length).map some ∧
    ∀ node ∈ chain, node.isSwitch = false
  /-- all switches are orderly -/
  orderly : ∀ index cases other lastResort,
    tree.Contains (.switch index cases other lastResort) → OrderlySwitch cases lastResort
  /-- a switch stands for a node of the registry, and so do its cases but the first and the
  branch for all other components -/
  switch_at : ∀ node, tree.Contains node → node.isSwitch = true →
    ∃ steps, tree.at? steps = some node
  /-- only a switch leads to what is skipped -/
  skip_below : ∀ node, tree.Contains node → .skip ∈ node.children → node.isSwitch = true
  /-- where a whole node is skipped, the root or one below, it has an override -/
  skip_at : ∀ steps, tree.at? steps = some .skip →
    ∃ node, root.at? steps = some node ∧ node.override = some .reserved

/-- **Every constructed tree is well formed**, whatever calls have made the registry, those
that failed included. -/
theorem Registry.wellFormed_toTree {changes : List Change} {tree : Tree}
    (h : (empty.applyAll changes).toTree = .ok tree) :
    tree.WellFormed (empty.applyAll changes).root := by
  have htidy := tidy_applyAll changes
  constructor
  case layers =>
    intro path hpath
    obtain ⟨switches, chain, hsplit, hindices, hchain⟩ := Node.exists_switches htidy h hpath
    exact ⟨switches, chain, hsplit, by rwa [List.range_eq_range'], hchain⟩
  case orderly =>
    intro index cases other lastResort hswitch
    rcases Node.isTail_or_at? htidy h hswitch with htail | ⟨-, _, _, _, _, heq, horderly⟩
    · cases htail.isSwitch_eq
    · cases heq
      exact horderly
  case switch_at =>
    intro node hnode hswitch
    rcases Node.isTail_or_at? htidy h hnode with htail | ⟨hsteps, -⟩
    · simp [htail.isSwitch_eq] at hswitch
    · exact hsteps
  case skip_below =>
    intro node hnode hskip
    rcases Node.isTail_or_at? htidy h hnode with htail | ⟨-, _, _, _, _, rfl, -⟩
    · exact absurd hskip htail.skip_not_mem
    · rfl
  case skip_at =>
    intro steps hskip
    exact Node.override_of_at?_skip h hskip

/-- Calls of which the third fails, after it has reserved a key and created a node for the
next one. -/
def Change.assets : List Change :=
  [.insert "/users/:id/" (.page (.plain "/users/:id/" "users/[id]")),
    .insert "/files/*path/" (.page (.plain "/files/*path/" "files/[...path]")),
    .reserve ["/static/\\/", "/users//edit/", "/never/"]]

/-- The literal child `static` has an override and is skipped as a whole. -/
theorem Registry.wellFormed_toTree_assets :
    ∃ tree, (empty.applyAll Change.assets).toTree = .ok tree ∧
      (tree.at? [.literal "static"]).map Tree.sort = some "SKIP" ∧
      tree.WellFormed (empty.applyAll Change.assets).root := by
  obtain ⟨tree, htree⟩ := exists_ok_of_isOk
    (show (empty.applyAll Change.assets).toTree.isOk = true by decide +kernel)
  have hskip : ((empty.applyAll Change.assets).toTree.toOption.bind fun tree =>
      (tree.at? [.literal "static"]).map Tree.sort) = some "SKIP" := by decide +kernel
  rw [htree] at hskip
  exact ⟨tree, htree, hskip, wellFormed_toTree htree⟩

end RouteTree
