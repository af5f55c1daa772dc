import RouteTree.Proofs.Layers

/-!
# The way that a run takes

A run goes down one way of its tree, whatever the tree is like and whatever the runtime
answers.  `Tree.Journey` is such a way: the nodes in the order in which they are visited, each
with the question that was put to the runtime there and the answer that was given.  A node
and an answer settle where the run goes on (`Moves`) or how it ends (`Ends`), and one of the
two is always the case (`ends_or_moves`).

`Tree.evaluate_journey` reads the whole result off the journey.  That its calls are those which
were made is seen from outside: `Runtime.logged` lets any runtime keep the list of what it was
asked and answered, and the list comes out as the calls of the journey.  One step of a run is
`run_of_ends` or `run_of_moves`, the same step with and without the log; the run follows by
induction on the size of the tree, which every step makes smaller.
-/

namespace RouteTree

/-! ## Calls -/

namespace Call

/-- What was bound when the runtime was asked. -/
def params : Call → Params
  | .middleware _ params => params
  | .forward _ params _ => params
  | .rewrite _ params _ => params
  | .redirect _ params _ => params

/-- The handler that a call runs; rewrites and redirects run none. -/
def handler? : Call → Option String
  | .middleware path _ => some path
  | .forward path _ _ => some path
  | .rewrite .. | .redirect .. => none

end Call

/-- The runtime that also lists what it was asked, and what it answered. -/
def Runtime.logged {σ : Type} (runtime : Runtime σ) : Runtime (σ × List Call) where
  middleware path params state :=
    (runtime.middleware path params state.1, state.2 ++ [.middleware path params])
  forward path params state :=
    let (answer, next) := runtime.forward path params state.1
    (answer, next, state.2 ++ [.forward path params answer])
  rewrite path params state :=
    let (answer, next) := runtime.rewrite path params state.1
    (answer, next, state.2 ++ [.rewrite path params answer])
  redirect path params state :=
    let (answer, next) := runtime.redirect path params state.1
    (answer, next, state.2 ++ [.redirect path params answer])

namespace Params

/-- Binds parameters in order. -/
def bindAll (params : Params) (request : List String) (bindings : List Binding) : Params :=
  bindings.foldl (fun params binding => params.insert binding.name (binding.value request)) params

theorem bindAll_append (params : Params) (request : List String) (first second : List Binding) :
    params.bindAll request (first ++ second) =
      (params.bindAll request first).bindAll request second :=
  List.foldl_append

/-- The last binding of a name counts. -/
theorem get?_bindAll (params : Params) (request : List String) (bindings : List Binding)
    (name : String) :
    (params.bindAll request bindings).get? name =
      ((bindings.reverse.find? (·.name = name)).map (·.value request)).or (params.get? name) := by
  induction bindings generalizing params with
  | nil => rfl
  | cons binding rest ih =>
      rw [bindAll, List.foldl_cons]
      refine (ih _).trans ?_
      rw [get?_insert, List.reverse_cons, List.find?_append]
      cases rest.reverse.find? (·.name = name) with
      | some last => rfl
      | none => by_cases hname : name = binding.name <;> simp [hname, eq_comm]

end Params

namespace Tree

/-! ## Selection -/

/-- A node is reached from another through switches only. -/
inductive ThroughSwitches : Tree → Tree → Prop
  | here (tree : Tree) : ThroughSwitches tree tree
  | deeper {tree child node : Tree} (hswitch : tree.isSwitch = true)
      (hchild : child ∈ tree.children) (hnode : ThroughSwitches child node) :
      ThroughSwitches tree node

theorem ThroughSwitches.contains {tree node : Tree} (h : tree.ThroughSwitches node) :
    tree.Contains node := by
  induction h with
  | here tree => exact .here tree
  | deeper hswitch hchild hnode ih => exact .deeper hchild ih

mutual

theorem select_throughSwitches (components : List String) (tree : Tree) :
    tree.select components = .notFound ∨ tree.ThroughSwitches (tree.select components) := by
  cases tree with
  | switch index cases other lastResort =>
      -- a branch that leads to the node is one step above
      have hbranch : ∀ branch ∈ (Tree.switch index cases other lastResort).children,
          ∀ node, node = .notFound ∨ branch.ThroughSwitches node →
            node = .notFound ∨ (Tree.switch index cases other lastResort).ThroughSwitches node :=
        fun branch hmem node => Or.imp_right (.deeper rfl hmem)
      have hcase : ∀ label, selectCase components label cases = .notFound ∨
          (Tree.switch index cases other lastResort).ThroughSwitches
            (selectCase components label cases) := by
        intro label
        obtain hnone | ⟨branch, hmem, hnode⟩ :=
          selectCase_throughSwitches components label cases
        · exact Or.inl hnone
        · exact hbranch branch (List.mem_append_left _ hmem) _ (Or.inr hnode)
      have hother := hbranch other (by simp [children]) _ (select_throughSwitches components other)
      have hlast : selectOption components lastResort = .notFound ∨
          (Tree.switch index cases other lastResort).ThroughSwitches
            (selectOption components lastResort) := by
        obtain hnone | ⟨branch, hmem, hnode⟩ := selectOption_throughSwitches components lastResort
        · exact Or.inl hnone
        · exact hbranch branch (by simp [children, hmem]) _ (Or.inr hnode)
      simp only [select]
      split
      · exact hcase ""
      · split
        · exact Or.inl rfl
        · split
          · split
            · exact hlast
            · exact hother
          · exact hcase _
  | _ => exact Or.inr (.here _)
termination_by structural tree

theorem selectCase_throughSwitches (components : List String) (label : String)
    (cases : List (String × Tree)) :
    selectCase components label cases = .notFound ∨
      ∃ branch ∈ cases.map (·.2),
        branch.ThroughSwitches (selectCase components label cases) := by
  cases cases with
  | nil => exact Or.inl rfl
  | cons first rest =>
      obtain ⟨other, branch⟩ := first
      rw [selectCase]
      split
      · exact (select_throughSwitches components branch).imp_right fun h =>
          ⟨branch, List.mem_cons_self .., h⟩
      · obtain hnone | ⟨found, hmem, hnode⟩ := selectCase_throughSwitches components label rest
        · exact Or.inl hnone
        · exact Or.inr ⟨found, List.mem_cons_of_mem _ hmem, hnode⟩
termination_by structural cases

theorem selectOption_throughSwitches (components : List String) (branch : Option Tree) :
    selectOption components branch = .notFound ∨
      ∃ found, branch = some found ∧
        found.ThroughSwitches (selectOption components branch) := by
  cases branch with
  | none => exact Or.inl rfl
  | some branch =>
      exact (select_throughSwitches components branch).imp_right fun h => ⟨branch, rfl, h⟩
termination_by structural branch

end

/-! ## One node -/

/-- What the runtime is asked at a node, with its answer, and its state after that. -/
def ask {σ : Type} (runtime : Runtime σ) (params : Params) (state : σ) :
    Tree → Option Call × σ
  | .middleware path _ _ =>
    (some (.middleware path params), runtime.middleware path params state)
  | .dynamicForward _ path _ _ _ | .staticForward path _ _ _ =>
    let (answer, state) := runtime.forward path params state
    (some (.forward path params answer), state)
  | .rewrite _ path _ =>
    let (answer, state) := runtime.rewrite path params state
    (some (.rewrite path params answer), state)
  | .redirect _ path _ =>
    let (answer, state) := runtime.redirect path params state
    (some (.redirect path params answer), state)
  | _ => (none, state)

/-- Where a run goes on from a node, after what was asked there. -/
inductive Moves (request : List String) : Tree → Option Call → Tree → Prop
  | switch (index : Nat) (cases : List (String × Tree)) (other : Tree)
      (lastResort : Option Tree) :
      Moves request (.switch index cases other lastResort) none
        ((Tree.switch index cases other lastResort).select request)
  | dynamic (name : String) (index : Nat) (onward : Tree) :
      Moves request (.dynamic name index onward) none onward
  | catchAll (name : String) (index : Nat) (onward : Tree) :
      Moves request (.catchAll name index onward) none onward
  | middleware (path : String) (location : Option String) (onward : Tree) (params : Params) :
      Moves request (.middleware path location onward) (some (.middleware path params)) onward
  | dynamicForward (name path : String) (location : Option String) (onward forward : Tree)
      (params : Params) (answer : Bool) :
      Moves request (.dynamicForward name path location onward forward)
        (some (.forward path params answer)) (if answer then forward else onward)
  | staticForward (path : String) (location : Option String) (onward forward : Tree)
      (params : Params) (answer : Bool) :
      Moves request (.staticForward path location onward forward)
        (some (.forward path params answer)) (if answer then forward else onward)
  | rewrite (location : Option String) (path : String) (fallback : Tree) (params : Params) :
      Moves request (.rewrite location path (some fallback))
        (some (.rewrite path params false)) fallback
  | redirect (location : Option String) (path : String) (fallback : Tree) (params : Params) :
      Moves request (.redirect location path (some fallback))
        (some (.redirect path params false)) fallback

/-- How a run ends at a node, after what was asked there. -/
inductive Ends : Tree → Option Call → Outcome → Prop
  | rewrite (location : Option String) (path : String) (fallback : Option Tree)
      (params : Params) :
      Ends (.rewrite location path fallback) (some (.rewrite path params true))
        (.rewrite path location)
  | redirect (location : Option String) (path : String) (fallback : Option Tree)
      (params : Params) :
      Ends (.redirect location path fallback) (some (.redirect path params true))
        (.redirect path location)
  /-- a refused rewrite with nothing behind it -/
  | noRewrite (location : Option String) (path : String) (params : Params) :
      Ends (.rewrite location path none) (some (.rewrite path params false)) .notFound
  /-- a refused redirect with nothing behind it -/
  | noRedirect (location : Option String) (path : String) (params : Params) :
      Ends (.redirect location path none) (some (.redirect path params false)) .notFound
  | external : Ends .external none .external
  | next (internalPath externalPath : String) :
      Ends (.next internalPath externalPath) none (.next internalPath externalPath)
  | notFound : Ends .notFound none .notFound
  | skip : Ends .skip none .skip

/-- The progress once a node has been visited: its binding is made, and the runtime has been
asked. -/
def Progress.visit {σ : Type} (progress : Progress σ) (runtime : Runtime σ)
    (request : List String) (node : Tree) : Progress σ :=
  let (call?, state) := node.ask runtime progress.params progress.state
  { params := progress.params.bindAll request node.binding?.toList
    handlers := progress.handlers ++ (call?.bind Call.handler?).toList
    state }

section Step

variable {σ : Type} {runtime : Runtime σ} {request : List String}

/-- Logging asks the same questions and leaves the answers as they are. -/
theorem ask_logged (runtime : Runtime σ) (params : Params) (state : σ) (log : List Call)
    (node : Tree) :
    node.ask runtime.logged params (state, log) =
      ((node.ask runtime params state).1, (node.ask runtime params state).2,
        log ++ (node.ask runtime params state).1.toList) := by
  cases node <;> simp [ask, Runtime.logged]

/-- At every node a run ends or goes on. -/
theorem ends_or_moves (runtime : Runtime σ) (request : List String) (params : Params) (state : σ)
    (node : Tree) :
    (∃ outcome, Ends node (node.ask runtime params state).1 outcome) ∨
      ∃ next, Moves request node (node.ask runtime params state).1 next := by
  cases node with
  | switch index cases other lastResort => exact Or.inr ⟨_, .switch ..⟩
  | dynamic name index onward => exact Or.inr ⟨_, .dynamic ..⟩
  | catchAll name index onward => exact Or.inr ⟨_, .catchAll ..⟩
  | middleware path location onward => exact Or.inr ⟨_, .middleware ..⟩
  | dynamicForward name path location onward forward => exact Or.inr ⟨_, .dynamicForward ..⟩
  | staticForward path location onward forward => exact Or.inr ⟨_, .staticForward ..⟩
  | rewrite location path fallback =>
      rw [ask]
      rcases runtime.rewrite path params state with ⟨_ | _, after⟩
      · cases fallback with
        | none => exact Or.inl ⟨_, .noRewrite ..⟩
        | some fallback => exact Or.inr ⟨_, .rewrite ..⟩
      · exact Or.inl ⟨_, .rewrite ..⟩
  | redirect location path fallback =>
      rw [ask]
      rcases runtime.redirect path params state with ⟨_ | _, after⟩
      · cases fallback with
        | none => exact Or.inl ⟨_, .noRedirect ..⟩
        | some fallback => exact Or.inr ⟨_, .redirect ..⟩
      · exact Or.inl ⟨_, .redirect ..⟩
  | external => exact Or.inl ⟨_, .external⟩
  | next internalPath externalPath => exact Or.inl ⟨_, .next ..⟩
  | notFound => exact Or.inl ⟨_, .notFound⟩
  | skip => exact Or.inl ⟨_, .skip⟩

/-! ### What a visit does -/

namespace Progress

variable {progress : Progress σ}

@[simp] theorem visit_switch (index : Nat) (cases : List (String × Tree)) (other : Tree)
    (lastResort : Option Tree) :
    progress.visit runtime request (.switch index cases other lastResort) = progress := by
  simp [visit, ask, binding?, Params.bindAll]

@[simp] theorem visit_dynamic (name : String) (index : Nat) (onward : Tree) :
    progress.visit runtime request (.dynamic name index onward) =
      progress.bind name (.single (request[index]?.getD "")) := by
  simp [visit, ask, binding?, Params.bindAll, bind, Binding.name, Binding.value]

@[simp] theorem visit_catchAll (name : String) (index : Nat) (onward : Tree) :
    progress.visit runtime request (.catchAll name index onward) =
      progress.bind name (.rest (request.drop index)) := by
  simp [visit, ask, binding?, Params.bindAll, bind, Binding.name, Binding.value]

@[simp] theorem visit_middleware (path : String) (location : Option String) (onward : Tree) :
    progress.visit runtime request (.middleware path location onward) =
      progress.middleware runtime path := by
  simp [visit, ask, binding?, Params.bindAll, middleware, Call.handler?]

@[simp] theorem visit_dynamicForward (name path : String) (location : Option String)
    (onward forward : Tree) :
    progress.visit runtime request (.dynamicForward name path location onward forward) =
      (progress.forward runtime path).2 := by
  simp [visit, ask, binding?, Params.bindAll, Progress.forward, Call.handler?]

@[simp] theorem visit_staticForward (path : String) (location : Option String)
    (onward forward : Tree) :
    progress.visit runtime request (.staticForward path location onward forward) =
      (progress.forward runtime path).2 := by
  simp [visit, ask, binding?, Params.bindAll, Progress.forward, Call.handler?]

@[simp] theorem visit_rewrite (location : Option String) (path : String)
    (fallback : Option Tree) :
    progress.visit runtime request (.rewrite location path fallback) =
      (progress.rewrite runtime path).2 := by
  simp [visit, ask, binding?, Params.bindAll, Progress.rewrite, Call.handler?]

@[simp] theorem visit_redirect (location : Option String) (path : String)
    (fallback : Option Tree) :
    progress.visit runtime request (.redirect location path fallback) =
      (progress.redirect runtime path).2 := by
  simp [visit, ask, binding?, Params.bindAll, Progress.redirect, Call.handler?]

end Progress

/-! ### One step of a run -/

theorem run_of_ends {progress : Progress σ} {node : Tree} {outcome : Outcome}
    (h : Ends node (node.ask runtime progress.params progress.state).1 outcome) :
    node.run runtime request progress = (outcome, progress.visit runtime request node) := by
  cases node with
  | rewrite location path fallback =>
      change Ends _ (some (.rewrite path _ (progress.rewrite runtime path).1)) outcome at h
      rcases hdecided : progress.rewrite runtime path with ⟨answer, after⟩
      rw [hdecided] at h
      cases h <;> simp [run, hdecided]
  | redirect location path fallback =>
      change Ends _ (some (.redirect path _ (progress.redirect runtime path).1)) outcome at h
      rcases hdecided : progress.redirect runtime path with ⟨answer, after⟩
      rw [hdecided] at h
      cases h <;> simp [run, hdecided]
  | _ => cases h <;> simp [run, Progress.visit, ask, binding?, Params.bindAll]

theorem run_of_moves {progress : Progress σ} {node next : Tree}
    (h : Moves request node (node.ask runtime progress.params progress.state).1 next) :
    node.run runtime request progress =
      next.run runtime request (progress.visit runtime request node) := by
  cases node with
  | rewrite location path fallback =>
      change Moves _ _ (some (.rewrite path _ (progress.rewrite runtime path).1)) next at h
      rcases hdecided : progress.rewrite runtime path with ⟨answer, after⟩
      rw [hdecided] at h
      cases h
      simp [run, hdecided]
  | redirect location path fallback =>
      change Moves _ _ (some (.redirect path _ (progress.redirect runtime path).1)) next at h
      rcases hdecided : progress.redirect runtime path with ⟨answer, after⟩
      rw [hdecided] at h
      cases h
      simp [run, hdecided]
  | dynamicForward name path location onward forward =>
      change Moves _ _ (some (.forward path _ (progress.forward runtime path).1)) next at h
      rcases hdecided : progress.forward runtime path with ⟨answer, after⟩
      rw [hdecided] at h
      cases h
      cases answer <;> simp [run, hdecided]
  | staticForward path location onward forward =>
      change Moves _ _ (some (.forward path _ (progress.forward runtime path).1)) next at h
      rcases hdecided : progress.forward runtime path with ⟨answer, after⟩
      rw [hdecided] at h
      cases h
      cases answer <;> simp [run, hdecided]
  | switch index cases other lastResort =>
      cases h
      rw [run_switch, Progress.visit_switch]
  | dynamic name index onward =>
      cases h
      rw [run, Progress.visit_dynamic]
  | catchAll name index onward =>
      cases h
      rw [run, Progress.visit_catchAll]
  | middleware path location onward =>
      cases h
      rw [run, Progress.visit_middleware]
  | _ => cases h

/-- What is asked is asked with what is bound. -/
theorem params_of_ask {params : Params} {state : σ} {node : Tree} {call : Call}
    (h : call ∈ (node.ask runtime params state).1) : call.params = params := by
  cases node <;> simp only [ask, Option.mem_def, Option.some.injEq, reduceCtorEq] at h <;>
    (subst h
     rfl)

/-- The progress of a run that is also logged. -/
def Progress.withLog (progress : Progress σ) (log : List Call) : Progress (σ × List Call) where
  params := progress.params
  handlers := progress.handlers
  state := (progress.state, log)

theorem Progress.visit_withLog (progress : Progress σ) (log : List Call) (node : Tree) :
    (progress.withLog log).visit runtime.logged request node =
      (progress.visit runtime request node).withLog
        (log ++ (node.ask runtime progress.params progress.state).1.toList) := by
  simp only [visit, withLog, ask_logged]

end Step

/-! ## Descending -/

theorem Contains.trans {tree middle node : Tree} (h : tree.Contains middle)
    (hnode : middle.Contains node) : tree.Contains node := by
  induction h with
  | here => exact hnode
  | deeper hchild hmiddle ih => exact .deeper hchild (ih hnode)

/-- A node is smaller than another and stands below it, unless it is a dead end. -/
def Descends (tree node : Tree) : Prop :=
  node.size < tree.size ∧ (node = .notFound ∨ ∃ child ∈ tree.children, child.Contains node)

theorem Descends.of_mem_children {tree child : Tree} (h : child ∈ tree.children) :
    tree.Descends child :=
  ⟨size_lt_of_mem_children h, Or.inr ⟨child, h, .here child⟩⟩

theorem Descends.trans {tree middle node : Tree} (h : tree.Descends middle)
    (hnode : middle.Descends node) : tree.Descends node := by
  refine ⟨Nat.lt_trans hnode.1 h.1, ?_⟩
  obtain rfl | ⟨child, hchild, hcontains⟩ := hnode.2
  · exact Or.inl rfl
  · obtain rfl | ⟨above, habove, hmiddle⟩ := h.2
    · cases hchild
    · exact Or.inr ⟨above, habove, hmiddle.trans (.deeper hchild hcontains)⟩

/-- A run goes on further down. -/
theorem Moves.descends {request : List String} {node next : Tree} {call? : Option Call}
    (h : Moves request node call? next) : node.Descends next := by
  cases h with
  | switch index cases other lastResort =>
      refine ⟨size_select_lt .., ?_⟩
      obtain hnone | hthrough :=
        select_throughSwitches request (.switch index cases other lastResort)
      · exact Or.inl hnone
      · have hnode := isSwitch_select request (.switch index cases other lastResort)
        generalize (Tree.switch index cases other lastResort).select request = node
          at hthrough hnode ⊢
        cases hthrough with
        | here => cases hnode
        | deeper hswitch hmem hbelow => exact Or.inr ⟨_, hmem, hbelow.contains⟩
  | dynamicForward name path location onward forward params answer =>
      cases answer <;> exact .of_mem_children (by simp [children])
  | staticForward path location onward forward params answer =>
      cases answer <;> exact .of_mem_children (by simp [children])
  | _ => exact .of_mem_children (by simp [children])

/-! ## Journeys -/

/-- A node that is visited, with what is asked there and what is answered. -/
structure Stop where
  node : Tree
  call? : Option Call

/-- The nodes that a run visits, from the root of a tree to the one where it ends. -/
inductive Journey (request : List String) : Tree → List Stop → Outcome → Prop
  | ends {node : Tree} {call? : Option Call} {outcome : Outcome} (h : Ends node call? outcome) :
      Journey request node [⟨node, call?⟩] outcome
  | moves {node next : Tree} {call? : Option Call} {stops : List Stop} {outcome : Outcome}
      (h : Moves request node call? next) (hrest : Journey request next stops outcome) :
      Journey request node (⟨node, call?⟩ :: stops) outcome

namespace Journey

variable {request : List String} {tree : Tree} {stops : List Stop} {outcome : Outcome}

theorem length_le (h : Journey request tree stops outcome) : stops.length ≤ tree.size := by
  induction h with
  | @ends node call? outcome hends => exact node.size_pos
  | moves hmoves hrest ih =>
      rw [List.length_cons]
      exact Nat.lt_of_le_of_lt ih hmoves.descends.1

theorem pairwise_descends (h : Journey request tree stops outcome) :
    (stops.map Stop.node).Pairwise Descends ∧
      ∀ node ∈ stops.map Stop.node, node = tree ∨ tree.Descends node := by
  induction h with
  | ends hends => simp
  | @moves node next call? stops outcome hmoves hrest ih =>
      obtain ⟨hpairwise, hbelow⟩ := ih
      have hlater : ∀ later ∈ stops.map Stop.node, node.Descends later := by
        intro later hmem
        rcases hbelow later hmem with rfl | hdescends
        · exact hmoves.descends
        · exact hmoves.descends.trans hdescends
      rw [List.map_cons]
      exact ⟨List.pairwise_cons.mpr ⟨hlater, hpairwise⟩,
        List.forall_mem_cons.mpr ⟨Or.inl rfl, fun later hmem => Or.inr (hlater later hmem)⟩⟩

end Journey

/-- The questions that were asked on the way, in their order. -/
def callsOn (stops : List Stop) : List Call :=
  stops.filterMap Stop.call?

theorem callsOn_cons (stop : Stop) (stops : List Stop) :
    callsOn (stop :: stops) = stop.call?.toList ++ callsOn stops := by
  rw [callsOn, List.filterMap_cons]
  cases stop.call? <;> rfl

/-- Every question was asked with the bindings before it. -/
def AskedInPassing (request : List String) (params : Params) (stops : List Stop) : Prop :=
  ∀ before stop after, stops = before ++ stop :: after → ∀ call ∈ stop.call?,
    call.params = params.bindAll request (bindingsOn (before.map Stop.node))

theorem AskedInPassing.nil (request : List String) (params : Params) :
    AskedInPassing request params [] := by
  intro before stop after hsplit
  simp at hsplit

theorem AskedInPassing.cons {request : List String} {params : Params} {stop : Stop}
    {stops : List Stop} (hfirst : ∀ call ∈ stop.call?, call.params = params)
    (hrest : AskedInPassing request (params.bindAll request stop.node.binding?.toList) stops) :
    AskedInPassing request params (stop :: stops) := by
  intro before found after hsplit call hcall
  cases before with
  | nil =>
      obtain ⟨rfl, -⟩ := List.cons.inj hsplit
      exact hfirst call hcall
  | cons first before =>
      obtain ⟨rfl, hmore⟩ := List.cons.inj hsplit
      rw [List.map_cons, bindingsOn_cons, Params.bindAll_append]
      exact hrest before found after hmore call hcall

section Run

variable {σ : Type} {runtime : Runtime σ} {request : List String}

/-- The progress at the end of a journey. -/
def Progress.visitAll (progress : Progress σ) (request : List String) (stops : List Stop)
    (state : σ) : Progress σ where
  params := progress.params.bindAll request (bindingsOn (stops.map Stop.node))
  handlers := progress.handlers ++ (callsOn stops).filterMap Call.handler?
  state

theorem Progress.visitAll_nil (progress : Progress σ) :
    progress.visitAll request [] progress.state = progress := by
  simp [visitAll, callsOn, Params.bindAll]

theorem Progress.visitAll_visit (progress : Progress σ) (node : Tree) (stops : List Stop)
    (state : σ) :
    (progress.visit runtime request node).visitAll request stops state =
      progress.visitAll request
        (⟨node, (node.ask runtime progress.params progress.state).1⟩ :: stops) state := by
  simp only [visitAll, visit, List.map_cons, bindingsOn_cons, Params.bindAll_append,
    callsOn_cons, List.filterMap_append, List.append_assoc]
  cases (node.ask runtime progress.params progress.state).1 with
  | none => rfl
  | some call => cases hhandler : call.handler? <;> simp [hhandler]

/-- Every run has its journey.  The induction is on the size of the tree. -/
theorem exists_journey (runtime : Runtime σ) (request : List String) (tree : Tree)
    (progress : Progress σ) (log : List Call) :
    ∃ stops outcome state, Journey request tree stops outcome ∧
      AskedInPassing request progress.params stops ∧
      tree.run runtime request progress = (outcome, progress.visitAll request stops state) ∧
      tree.run runtime.logged request (progress.withLog log) =
        (outcome, (progress.visitAll request stops state).withLog (log ++ callsOn stops)) := by
  induction hsize : tree.size using Nat.strongRecOn generalizing tree progress log with
  | ind size ih =>
      have hasked : ((tree.ask runtime.logged (progress.withLog log).params
          (progress.withLog log).state).1) =
            (tree.ask runtime progress.params progress.state).1 := by
        simp only [Progress.withLog, ask_logged]
      obtain ⟨outcome, hends⟩ | ⟨next, hmoves⟩ :=
        ends_or_moves runtime request progress.params progress.state tree
      · refine ⟨[⟨tree, _⟩], outcome, (progress.visit runtime request tree).state, .ends hends,
          .cons (fun call => params_of_ask) (.nil _ _), ?_, ?_⟩
        · rw [run_of_ends hends, ← Progress.visitAll_visit, Progress.visitAll_nil]
        · rw [run_of_ends (hasked ▸ hends), Progress.visit_withLog, ← Progress.visitAll_visit,
            Progress.visitAll_nil, callsOn_cons, callsOn, List.filterMap_nil, List.append_nil]
      · obtain ⟨stops, outcome, state, hjourney, hparams, hrun, hlogged⟩ :=
          ih next.size (hsize ▸ hmoves.descends.1) next (progress.visit runtime request tree)
            (log ++ (tree.ask runtime progress.params progress.state).1.toList) rfl
        refine ⟨⟨tree, _⟩ :: stops, outcome, state, .moves hmoves hjourney,
          .cons (fun call => params_of_ask) hparams, ?_, ?_⟩
        · rw [run_of_moves hmoves, hrun, Progress.visitAll_visit]
        · rw [run_of_moves (hasked ▸ hmoves), Progress.visit_withLog, hlogged,
            Progress.visitAll_visit, callsOn_cons, List.append_assoc]

end Run

/-- **A run is one way down.**  Selection ends at a dead end or at a node that is no switch
and is reached through switches only.  Every run visits nodes each of which stands below all
before it, so no more than the tree has; from each it goes on, or ends there, as the runtime has
answered.  What the runtime was asked, in order and with its answers, are the calls of this
journey, each with the parameters bound before it, the last binding of a name counting; and
the journey has the outcome, the parameters and the handlers of the whole answer. -/
theorem evaluate_journey {σ : Type} (tree : Tree) (path : String) (runtime : Runtime σ)
    (state : σ) :
    (∀ node : Tree, (node.select (components path)).isSwitch = false ∧
      (node.select (components path) = .notFound ∨
        node.ThroughSwitches (node.select (components path)))) ∧
    (∀ bindings name, (Params.empty.bindAll (components path) bindings).get? name =
      (bindings.reverse.find? (·.name = name)).map (·.value (components path))) ∧
    ∃ stops outcome after, Journey (components path) tree stops outcome ∧
      stops.length ≤ tree.size ∧ (stops.map Stop.node).Pairwise Descends ∧
      AskedInPassing (components path) .empty stops ∧
      tree.evaluate path runtime state =
        (⟨outcome, Params.empty.bindAll (components path) (bindingsOn (stops.map Stop.node)),
          (callsOn stops).filterMap Call.handler?⟩, after) ∧
      tree.evaluate path runtime.logged (state, []) =
        ((tree.evaluate path runtime state).1, after, callsOn stops) := by
  refine ⟨fun node => ⟨isSwitch_select _ node, select_throughSwitches _ node⟩,
    fun bindings name => by rw [Params.get?_bindAll, Params.get?_empty, Option.or_none], ?_⟩
  obtain ⟨stops, outcome, after, hjourney, hparams, hrun, hlogged⟩ :=
    exists_journey runtime (components path) tree { state } []
  refine ⟨stops, outcome, after, hjourney, hjourney.length_le, hjourney.pairwise_descends.1,
    hparams, ?_, ?_⟩
  · rw [evaluate, hrun]
    simp [Progress.visitAll]
  · have hstart : ({ state := (state, []) } : Progress (σ × List Call)) =
        Progress.withLog { state } [] := rfl
    rw [evaluate, evaluate, hstart, hlogged, hrun]
    simp [Progress.withLog, Progress.visitAll]

end Tree
end RouteTree
