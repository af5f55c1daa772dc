import RouteTree.Resolution
import RouteTree.Path
import RouteTree.Tree

/-!
# Following a decision tree

`Tree.select` goes through the switches above the first node of another sort and
decides which one it is: the branch for the component at hand, or the branch for any
component when that one leads nowhere, or the last resort.  Where the path ends, only
the branch for the end is tried; an empty component inside the path leads nowhere.

`Tree.run` then follows that node: it binds, runs handlers and asks for decisions
until the request ends.  A decision is never taken back.

The run refuses a selected node that is a switch again.  `isSwitch_select` says that no
selected node is one, so a switch is run by running what it selects (`run_switch`).  That
is a smaller tree (`size_select_lt`), which is why the run ends.
-/

namespace RouteTree

namespace Tree

/-! ## Selection -/

mutual

/-- The node that the switches at the root of a tree lead to: never a switch, and
`notFound` when they lead nowhere. -/
def select (components : List String) : Tree → Tree
  | .switch index cases other lastResort =>
    match components[index]? with
    | none => selectCase components "" cases
    | some component =>
      if component = "" then .notFound
      else
        let literal := selectCase components component cases
        if literal.isNotFound then
          let dynamic := select components other
          if dynamic.isNotFound then selectOption components lastResort else dynamic
        else literal
  | tree => tree
termination_by structural tree => tree

/-- The node that the first branch of a label leads to. -/
def selectCase (components : List String) (label : String) : List (String × Tree) → Tree
  | [] => .notFound
  | (other, branch) :: rest =>
    if other = label then select components branch else selectCase components label rest
termination_by structural cases => cases

/-- The node that a branch leads to, if there is one. -/
def selectOption (components : List String) : Option Tree → Tree
  | none => .notFound
  | some branch => select components branch
termination_by structural branch => branch

end

mutual

/-- Selection comes to an end above every action. -/
theorem isSwitch_select (components : List String) (tree : Tree) :
    (tree.select components).isSwitch = false := by
  cases tree with
  | switch index cases other lastResort =>
    have hcase := fun label => isSwitch_selectCase components label cases
    have hother := isSwitch_select components other
    have hlast := isSwitch_selectOption components lastResort
    simp only [select]
    split
    · exact hcase ""
    · split
      · rfl
      · split
        · split
          · exact hlast
          · exact hother
        · exact hcase _
  | _ => rfl
termination_by structural tree

theorem isSwitch_selectCase (components : List String) (label : String)
    (cases : List (String × Tree)) :
    (selectCase components label cases).isSwitch = false := by
  cases cases with
  | nil => rfl
  | cons first rest =>
    obtain ⟨other, branch⟩ := first
    simp only [selectCase]
    split
    · exact isSwitch_select components branch
    · exact isSwitch_selectCase components label rest
termination_by structural cases

theorem isSwitch_selectOption (components : List String) (branch : Option Tree) :
    (selectOption components branch).isSwitch = false := by
  cases branch with
  | none => rfl
  | some branch => exact isSwitch_select components branch
termination_by structural branch

end

/-- What a switch selects is smaller than the switch if what is selected in its branches is no
larger than they are. -/
theorem size_select_switch_lt {components : List String} {index : Nat}
    {cases : List (String × Tree)} {other : Tree} {lastResort : Option Tree}
    (hcase : ∀ label, (selectCase components label cases).size ≤ 1 + sizeCases cases)
    (hother : (other.select components).size ≤ other.size)
    (hlast : (selectOption components lastResort).size ≤ 1 + sizeOption lastResort) :
    ((Tree.switch index cases other lastResort).select components).size <
      (Tree.switch index cases other lastResort).size := by
  have hpos := size_pos other
  have hleaf : Tree.notFound.size = 1 := rfl
  simp only [select, size]
  split
  · have := hcase ""; omega
  · rename_i component _
    have := hcase component
    split
    · omega
    · split
      · split <;> omega
      · omega

mutual

theorem size_select_le (components : List String) (tree : Tree) :
    (tree.select components).size ≤ tree.size := by
  cases tree with
  | switch index cases other lastResort =>
    have hcase := fun label => size_selectCase_le components label cases
    have hother := size_select_le components other
    have hlast := size_selectOption_le components lastResort
    exact Nat.le_of_lt (size_select_switch_lt hcase hother hlast)
  | _ => simp [select]
termination_by structural tree

theorem size_selectCase_le (components : List String) (label : String)
    (cases : List (String × Tree)) :
    (selectCase components label cases).size ≤ 1 + sizeCases cases := by
  cases cases with
  | nil => simp [selectCase, size]
  | cons first rest =>
    obtain ⟨other, branch⟩ := first
    have hbranch := size_select_le components branch
    have hrest := size_selectCase_le components label rest
    simp only [selectCase, sizeCases]
    split <;> omega
termination_by structural cases

theorem size_selectOption_le (components : List String) (branch : Option Tree) :
    (selectOption components branch).size ≤ 1 + sizeOption branch := by
  cases branch with
  | none => simp [selectOption, size]
  | some branch =>
    have := size_select_le components branch
    simp only [selectOption, sizeOption]
    omega
termination_by structural branch

end

/-- A switch selects a smaller tree. -/
theorem size_select_lt (components : List String) (index : Nat) (cases : List (String × Tree))
    (other : Tree) (lastResort : Option Tree) :
    ((Tree.switch index cases other lastResort).select components).size <
      (Tree.switch index cases other lastResort).size :=
  size_select_switch_lt (fun label => size_selectCase_le components label cases)
    (size_select_le components other) (size_selectOption_le components lastResort)

/-! ## Running -/

/-- How far a request has come: what is bound, which handlers ran, and what the
runtime remembers. -/
structure Progress (σ : Type) where
  params : Params := .empty
  handlers : List String := []
  state : σ

namespace Progress

variable {σ : Type}

/-- One more parameter is bound. -/
def bind (progress : Progress σ) (name : String) (value : Param) : Progress σ :=
  { progress with params := progress.params.insert name value }

/-- A middleware runs. -/
def middleware (progress : Progress σ) (runtime : Runtime σ) (path : String) : Progress σ :=
  { progress with
    handlers := progress.handlers ++ [path]
    state := runtime.middleware path progress.params progress.state }

/-- A forward is decided; its handler counts as run. -/
def forward (progress : Progress σ) (runtime : Runtime σ) (path : String) : Bool × Progress σ :=
  let (taken, state) := runtime.forward path progress.params progress.state
  (taken, { progress with handlers := progress.handlers ++ [path], state })

/-- A rewrite is decided. -/
def rewrite (progress : Progress σ) (runtime : Runtime σ) (path : String) : Bool × Progress σ :=
  let (done, state) := runtime.rewrite path progress.params progress.state
  (done, { progress with state })

/-- A redirect is decided. -/
def redirect (progress : Progress σ) (runtime : Runtime σ) (path : String) : Bool × Progress σ :=
  let (done, state) := runtime.redirect path progress.params progress.state
  (done, { progress with state })

end Progress

/-- Follows a tree to the end of the request. -/
def run {σ : Type} (runtime : Runtime σ) (components : List String) (progress : Progress σ) :
    Tree → Outcome × Progress σ
  | .switch index cases other lastResort =>
    let selected := (Tree.switch index cases other lastResort).select components
    -- no selected node is a switch (`isSwitch_select`), so the request never ends here
    if selected.isSwitch then (.notFound, progress)
    else run runtime components progress selected
  | .dynamic name index onward =>
    run runtime components (progress.bind name (.single (components[index]?.getD ""))) onward
  | .catchAll name index onward =>
    run runtime components (progress.bind name (.rest (components.drop index))) onward
  | .middleware path _ onward =>
    run runtime components (progress.middleware runtime path) onward
  | .dynamicForward _ path _ onward forward =>
    match progress.forward runtime path with
    | (true, progress) => run runtime components progress forward
    | (false, progress) => run runtime components progress onward
  | .staticForward path _ onward forward =>
    match progress.forward runtime path with
    | (true, progress) => run runtime components progress forward
    | (false, progress) => run runtime components progress onward
  | .rewrite location path fallback =>
    match progress.rewrite runtime path, fallback with
    | (true, progress), _ => (.rewrite path location, progress)
    | (false, progress), some branch => run runtime components progress branch
    | (false, progress), none => (.notFound, progress)
  | .redirect location path fallback =>
    match progress.redirect runtime path, fallback with
    | (true, progress), _ => (.redirect path location, progress)
    | (false, progress), some branch => run runtime components progress branch
    | (false, progress), none => (.notFound, progress)
  | .external => (.external, progress)
  | .next internalPath externalPath => (.next internalPath externalPath, progress)
  | .notFound => (.notFound, progress)
  | .skip => (.skip, progress)
termination_by tree => tree.size
decreasing_by
  all_goals first
    | exact size_select_lt ..
    | simp only [size, sizeOption]; omega

/-- A switch is run by running what it selects, which is never refused. -/
theorem run_switch {σ : Type} (runtime : Runtime σ) (components : List String)
    (progress : Progress σ) (index : Nat) (cases : List (String × Tree)) (other : Tree)
    (lastResort : Option Tree) :
    (Tree.switch index cases other lastResort).run runtime components progress =
      ((Tree.switch index cases other lastResort).select components).run runtime components
        progress := by
  have hselected := isSwitch_select components (.switch index cases other lastResort)
  rw [run]
  exact if_neg (by simp [hselected])

/-- A tree is run by running the node that it selects. -/
theorem run_select {σ : Type} (runtime : Runtime σ) (components : List String)
    (progress : Progress σ) (tree : Tree) :
    (tree.select components).run runtime components progress =
      tree.run runtime components progress := by
  cases tree with
  | switch index cases other lastResort => rw [run_switch]
  | _ => rfl

/-- Resolves a request path: the answer, and what the runtime remembers after it. -/
def evaluate {σ : Type} (tree : Tree) (path : String) (runtime : Runtime σ) (state : σ) :
    Resolution × σ :=
  let (outcome, progress) := (tree.run runtime (components path) { state })
  (⟨outcome, progress.params, progress.handlers⟩, progress.state)

end Tree
end RouteTree
