import RouteTree.Proofs.Collision
import RouteTree.Proofs.Selection
import RouteTree.Proofs.Tidy

/-!
# What a construction goes through

The construction of a node's tree goes through its declarations in one order, passes over those
that an override takes the place of, and stops at the first that fails.  `Node.visible` lists
the declarations that it goes through.  They are the live ones (`Node.mem_visible_iff`), and
what a construction fails with can be read off the list (`Node.failure?_toTree`).

Nodes in which nothing is declared leave no trace in the list.  A rejected write creates such
nodes and does nothing else, so nobody who compiles the registry afterwards can tell that there
was a write: `Registry.toTree_of_rejected`.
-/

namespace RouteTree

/-! ## The declarations on the way -/

mutual

/-- The declarations that the construction of a node's tree goes through, in order, each at
its address below the node: the override alone, or else the exact declaration, the literal
children, the child for any text, and the catch-all. -/
def Node.visible : Node → List (Address × Slot)
  | ⟨exact, dynamic, catchAll, override, statics⟩ =>
    match override with
    | some slot => [(⟨[], .override⟩, slot)]
    | none =>
      exact.toList.map (fun slot => (⟨[], .exact⟩, slot)) ++
        (staticsVisible statics ++
          (dynamicVisible dynamic ++ catchAll.toList.map fun slot => (⟨[], .catchAll⟩, slot)))
termination_by structural node => node

def staticsVisible : List (String × Node) → List (Address × Slot)
  | [] => []
  | (literal, child) :: rest =>
    child.visible.map (Prod.map (Address.after (.literal literal)) id) ++ staticsVisible rest
termination_by structural children => children

def dynamicVisible : Option Node → List (Address × Slot)
  | none => []
  | some child => child.visible.map (Prod.map (Address.after .dynamic) id)
termination_by structural child => child

end

/-- Why the tree of a declaration cannot be constructed, if it cannot. -/
def Slot.failure? (slot : Slot) : Option CompileError :=
  RouteTree.failure? slot.toTree

/-- The first error among some declarations. -/
def firstFailure? (declared : List (Address × Slot)) : Option CompileError :=
  declared.findSome? fun declaration => declaration.2.failure?

theorem firstFailure?_append (first second : List (Address × Slot)) :
    firstFailure? (first ++ second) = (firstFailure? first).or (firstFailure? second) :=
  List.findSome?_append

/-- Where a declaration stands does not matter for its error. -/
theorem firstFailure?_map (step : Step) (declared : List (Address × Slot)) :
    firstFailure? (declared.map (Prod.map (Address.after step) id)) = firstFailure? declared := by
  unfold firstFailure?
  rw [List.findSome?_map]
  rfl

/-! ## The first error -/

/-- Two steps fail with the first error, where that of the second does not depend on what the
first has built. -/
theorem failure?_bind {ε α β : Type} {first : Except ε α} {next : α → Except ε β}
    {later : Option ε} (hnext : ∀ value, failure? (next value) = later) :
    failure? (first >>= next) = (failure? first).or later := by
  cases first with
  | error error => rfl
  | ok value => exact hnext value

theorem failure?_lastResortTree (catchAll : Option Slot) :
    failure? (lastResortTree catchAll) =
      firstFailure? (catchAll.toList.map fun slot => (⟨[], .catchAll⟩, slot)) := by
  cases catchAll with
  | none => rfl
  | some slot =>
      have hmap : lastResortTree (some slot) = slot.toTree >>= fun tree => pure (some tree) := rfl
      rw [hmap, failure?_bind_pure]
      simp [firstFailure?, Slot.failure?]

mutual

/-- A construction fails with the error of the first declaration on its way that does. -/
theorem Node.failure?_toTree (depth : Nat) (node : Node) :
    failure? (node.toTree depth) = firstFailure? node.visible := by
  obtain ⟨exact, dynamic, catchAll, override, statics⟩ := node
  cases override with
  | some slot => simp [Node.toTree, Node.visible, firstFailure?, Slot.failure?]
  | none =>
      have hrest : ∀ exactTree : Tree, failure? (staticTrees (depth + 1) statics >>= fun cases =>
          dynamicTree (depth + 1) dynamic >>= fun other =>
            lastResortTree catchAll >>= fun lastResort =>
              pure (Tree.switch depth (("", exactTree) :: cases) other lastResort)) =
          firstFailure? (staticsVisible statics ++
            (dynamicVisible dynamic ++ catchAll.toList.map fun slot => (⟨[], .catchAll⟩, slot))) := by
        intro exactTree
        rw [firstFailure?_append, firstFailure?_append, ← failure?_staticTrees (depth + 1) statics,
          ← failure?_dynamicTree (depth + 1) dynamic, ← failure?_lastResortTree]
        apply failure?_bind
        intro cases
        apply failure?_bind
        intro other
        exact failure?_bind_pure _ _
      rw [Node.visible, firstFailure?_append]
      cases exact with
      | none => cases catchAll <;> exact hrest .notFound
      | some slot =>
          have hslot : failure? slot.toTree =
              firstFailure? ((some slot).toList.map fun slot => (⟨[], .exact⟩, slot)) := by
            simp [firstFailure?, Slot.failure?]
          rw [← hslot]
          cases catchAll <;> exact failure?_bind hrest
termination_by structural node

theorem failure?_staticTrees (depth : Nat) (children : List (String × Node)) :
    failure? (staticTrees depth children) = firstFailure? (staticsVisible children) := by
  cases children with
  | nil => rfl
  | cons first rest =>
      obtain ⟨literal, child⟩ := first
      rw [staticTrees, staticsVisible, firstFailure?_append, firstFailure?_map,
        ← child.failure?_toTree depth, ← failure?_staticTrees depth rest]
      apply failure?_bind
      intro tree
      exact failure?_bind_pure _ _
termination_by structural children

theorem failure?_dynamicTree (depth : Nat) (child : Option Node) :
    failure? (dynamicTree depth child) = firstFailure? (dynamicVisible child) := by
  cases child with
  | none => rfl
  | some child =>
      rw [dynamicTree, dynamicVisible, firstFailure?_map]
      exact child.failure?_toTree depth
termination_by structural child

end

/-! ## Nodes without declarations -/

namespace Node

/-- A child counts for what is declared in it, and no child for nothing. -/
theorem staticsVisible_assign {text : String} {child : Node} {children : List (String × Node)}
    (h : child.visible = ((children.lookup text).getD empty).visible) :
    staticsVisible (assign text child children) = staticsVisible children := by
  induction children with
  | nil =>
      have hnothing : child.visible = [] := h
      simp [assign, staticsVisible, hnothing]
  | cons first rest ih =>
      obtain ⟨other, old⟩ := first
      rw [lookup_cons_pair] at h
      by_cases hother : other = text
      · rw [if_pos hother.symm, Option.getD_some] at h
        rw [assign, if_pos hother, staticsVisible, staticsVisible, h]
      · rw [if_neg (Ne.symm hother)] at h
        rw [assign, if_neg hother, staticsVisible, staticsVisible, ih h]

theorem visible_setChild {node child : Node} {step : Step}
    (h : child.visible = ((node.child? step).getD empty).visible) :
    (node.setChild step child).visible = node.visible := by
  obtain ⟨exact, dynamic, catchAll, override, statics⟩ := node
  cases override with
  | some slot => cases step <;> rfl
  | none =>
      cases step with
      | literal text =>
          have hsame : staticsVisible (assign text child statics) = staticsVisible statics :=
            staticsVisible_assign h
          simp only [setChild, visible, hsame]
      | dynamic =>
          have hsame : dynamicVisible (some child) = dynamicVisible dynamic := by
            rw [dynamicVisible, h]
            cases dynamic <;> rfl
          simp only [setChild, visible, hsame]

/-- Nodes that are only created do not show. -/
theorem visible_update_id (node : Node) (steps : List Step) :
    (node.update id steps).visible = node.visible := by
  induction steps generalizing node with
  | nil => rfl
  | cons step steps ih =>
      rw [update]
      apply visible_setChild
      exact ih _

end Node

/-! ## Live declarations -/

theorem Address.mem_map_after_iff {step : Step} {declared : List (Address × Slot)}
    {address : Address} {slot : Slot} :
    (address, slot) ∈ declared.map (Prod.map (Address.after step) id) ↔
      ∃ below, address = below.after step ∧ (below, slot) ∈ declared := by
  simp only [List.mem_map, Prod.exists, Prod.map, id, Prod.mk.injEq]
  constructor
  · rintro ⟨below, held, hmem, rfl, rfl⟩
    exact ⟨below, rfl, hmem⟩
  · rintro ⟨below, rfl, hmem⟩
    exact ⟨below, slot, hmem, rfl, rfl⟩

theorem Address.mem_map_root_iff {place : Place} {declared : Option Slot} {address : Address}
    {slot : Slot} :
    (address, slot) ∈ (declared.toList.map fun slot => ((⟨[], place⟩ : Address), slot)) ↔
      address = ⟨[], place⟩ ∧ declared = some slot := by
  cases declared <;> simp [eq_comm]

namespace Node

variable {node : Node} {address : Address} {slot : Slot}

theorem mem_staticsVisible_iff {children : List (String × Node)} :
    (address, slot) ∈ staticsVisible children ↔
      ∃ text child below, (text, child) ∈ children ∧ address = below.after (.literal text) ∧
        (below, slot) ∈ child.visible := by
  induction children with
  | nil => simp [staticsVisible]
  | cons first rest ih =>
      obtain ⟨literal, child⟩ := first
      rw [staticsVisible, List.mem_append, ih, Address.mem_map_after_iff]
      constructor
      · rintro (⟨below, haddress, hmem⟩ | ⟨text, other, below, hother, haddress, hmem⟩)
        · exact ⟨literal, child, below, List.mem_cons_self .., haddress, hmem⟩
        · exact ⟨text, other, below, List.mem_cons_of_mem _ hother, haddress, hmem⟩
      · rintro ⟨text, other, below, hother, haddress, hmem⟩
        rcases List.mem_cons.mp hother with heq | hrest
        · cases heq
          exact Or.inl ⟨below, haddress, hmem⟩
        · exact Or.inr ⟨text, other, below, hrest, haddress, hmem⟩

theorem mem_dynamicVisible_iff {dynamic : Option Node} :
    (address, slot) ∈ dynamicVisible dynamic ↔
      ∃ child below, dynamic = some child ∧ address = below.after .dynamic ∧
        (below, slot) ∈ child.visible := by
  cases dynamic with
  | none => simp [dynamicVisible]
  | some child =>
      rw [dynamicVisible, Address.mem_map_after_iff]
      simp

theorem visible_of_override (h : node.override = some slot) :
    node.visible = [(⟨[], .override⟩, slot)] := by
  obtain ⟨exact, dynamic, catchAll, override, statics⟩ := node
  obtain rfl : override = some slot := h
  rw [visible]

theorem visible_of_none (h : node.override = none) :
    node.visible = node.exact.toList.map (fun slot => (⟨[], .exact⟩, slot)) ++
      (staticsVisible node.statics ++ (dynamicVisible node.dynamic ++
        node.catchAll.toList.map fun slot => (⟨[], .catchAll⟩, slot))) := by
  obtain ⟨exact, dynamic, catchAll, override, statics⟩ := node
  obtain rfl : override = none := h
  rw [visible]

/-- Without an override everything is gone through that the node itself declares, and that is
gone through in its children. -/
theorem mem_visible_iff_of_none (hroot : node.override = none) (hdistinct : node.labels.Nodup) :
    (address, slot) ∈ node.visible ↔
      (∃ place, address = ⟨[], place⟩ ∧ node.slot? place = some slot) ∨
        ∃ step child below, node.child? step = some child ∧ address = below.after step ∧
          (below, slot) ∈ child.visible := by
  simp only [visible_of_none hroot, List.mem_append, mem_staticsVisible_iff,
    mem_dynamicVisible_iff, Address.mem_map_root_iff]
  constructor
  · rintro (hexact | ⟨text, child, below, hchild, hmem⟩ | ⟨child, below, hchild, hmem⟩ | hlast)
    · exact Or.inl ⟨.exact, hexact⟩
    · exact Or.inr ⟨.literal text, child, below, lookup_of_mem hdistinct hchild, hmem⟩
    · exact Or.inr ⟨.dynamic, child, below, hchild, hmem⟩
    · exact Or.inl ⟨.catchAll, hlast⟩
  · rintro (⟨place, hplace⟩ | ⟨step, child, below, hchild, hmem⟩)
    · cases place with
      | exact => exact Or.inl hplace
      | catchAll => exact Or.inr (Or.inr (Or.inr hplace))
      | override =>
          have hheld : node.override = some slot := hplace.2
          rw [hroot] at hheld
          cases hheld
    · cases step with
      | literal text =>
          have hlookup : node.statics.lookup text = some child := hchild
          obtain ⟨before, after, hsplit, -⟩ := List.lookup_eq_some_iff.mp hlookup
          have hpair : (text, child) ∈ node.statics := by simp [hsplit]
          exact Or.inr (Or.inl ⟨text, child, below, hpair, hmem⟩)
      | dynamic => exact Or.inr (Or.inr (Or.inl ⟨child, below, hchild, hmem⟩))

/-- What is gone through are the live declarations. -/
theorem mem_visible_iff (htidy : node.Tidy) :
    (address, slot) ∈ node.visible ↔
      Table.Live node.find? address ∧ node.find? address = some slot := by
  induction htidy generalizing address with
  | @intro node hdistinct hlabels hchildren ih =>
      cases hroot : node.override with
      | some held =>
          have htable : node.find? ⟨[], .override⟩ ≠ none := by simp [slot?, hroot]
          rw [visible_of_override hroot, Table.live_iff_of_override htable, List.mem_singleton,
            Prod.mk.injEq]
          constructor
          · rintro ⟨rfl, rfl⟩
            exact ⟨rfl, hroot⟩
          · rintro ⟨rfl, hheld⟩
            exact ⟨rfl, Option.some.inj (hheld.symm.trans hroot)⟩
      | none =>
          have htable : node.find? ⟨[], .override⟩ = none := hroot
          rw [mem_visible_iff_of_none hroot hdistinct]
          obtain hplace | ⟨step, below, rfl⟩ := address.eq_root_or_after
          · rw [hplace, Table.live_root htable, find?_nil]
            constructor
            · rintro (⟨place, heq, hheld⟩ | ⟨step, child, below, -, heq, -⟩)
              · cases heq
                rw [hheld]
                exact ⟨Option.some_ne_none slot, rfl⟩
              · cases heq
            · rintro ⟨-, hheld⟩
              exact Or.inl ⟨address.place, rfl, hheld⟩
          · have hbelow : ∀ child, node.child? step = some child →
                ((below, slot) ∈ child.visible ↔
                  Table.Live (Table.below node.find? step) below ∧
                    node.find? (below.after step) = some slot) := by
              intro child hchild
              have hfind : Table.below node.find? step = child.find? := by
                rw [below_find?, hchild, childTable_some]
              rw [ih step child hchild, hfind, ← hfind, Table.below]
            rw [Table.live_after htable]
            constructor
            · rintro (⟨place, heq, -⟩ | ⟨other, child, found, hchild, heq, hmem⟩)
              · cases heq
              · obtain ⟨rfl, rfl⟩ := Address.after_eq_after_iff.mp heq
                exact (hbelow child hchild).mp hmem
            · rintro hlive
              have hheld : Table.below node.find? step below = some slot := hlive.2
              rw [below_find?] at hheld
              obtain ⟨child, hchild, -⟩ := Option.bind_eq_some_iff.mp hheld
              exact Or.inr ⟨step, child, below, hchild, rfl, (hbelow child hchild).mpr hlive⟩

end Node

/-! ## Rejected writes -/

namespace Registry

variable {registry next : Registry} {key : String} {error : CompileError}

/-- A write that fails leaves nothing behind that a construction goes through. -/
theorem visible_of_write {slot : Slot} (hwrite : registry.write key slot = (next, some error)) :
    next.root.visible = registry.root.visible := by
  unfold write at hwrite
  cases hending : (Walk.ofKey key).ending with
  | ok place => simp [hending] at hwrite
  | error fault =>
      simp only [hending, Prod.mk.injEq] at hwrite
      obtain ⟨rfl, -⟩ := hwrite
      exact Node.visible_update_id ..

/-- The tree of a node decides a request by what is declared in the node. -/
theorem evaluate_eq_of_find?_eq {tree tree' : Tree} (htree : registry.toTree = .ok tree)
    (htree' : next.toTree = .ok tree') (hsame : next.root.find? = registry.root.find?)
    (path : String) {σ : Type} (runtime : Runtime σ) (state : σ) :
    tree'.evaluate path runtime state = tree.evaluate path runtime state := by
  have hselect := isTreeOf_select (components path) htree
  have hselect' := isTreeOf_select (components path) htree'
  rw [hsame] at hselect'
  rw [← Tree.evaluate_select, hselect'.unique hselect, Tree.evaluate_select]

/-- **A rejected write cannot be observed.**  Whatever a registry holds, after a call that has
declared nothing its tree fails with the same error as before, or resolves every request as
before, with the same questions to the runtime; and there are no new warnings. -/
theorem toTree_of_rejected
    (hrejected : (∃ endpoint, registry.insert key endpoint = (next, some error)) ∨
      registry.reserve [key] = (next, some error)) :
    (∀ failure, next.toTree = .error failure ↔ registry.toTree = .error failure) ∧
      (∀ tree', next.toTree = .ok tree' → ∃ tree, registry.toTree = .ok tree ∧
        ∀ (path : String) {σ : Type} (runtime : Runtime σ) (state : σ),
          tree'.evaluate path runtime state = tree.evaluate path runtime state) ∧
      next.warnings = registry.warnings := by
  obtain ⟨slot, hwrite⟩ : ∃ slot, registry.write key slot = (next, some error) := by
    rcases hrejected with ⟨endpoint, hinsert⟩ | hreserve
    · exact ⟨_, hinsert⟩
    · exact ⟨.reserved, (writeAll_singleton ..).symm.trans hreserve⟩
  obtain ⟨hsame, hwarnings⟩ := unchanged_of_write hwrite
  have hfailure : failure? next.toTree = failure? registry.toTree := by
    unfold toTree
    rw [Node.failure?_toTree, Node.failure?_toTree, visible_of_write hwrite]
  refine ⟨?_, ?_, hwarnings⟩
  · intro failure
    rw [← failure?_eq_some_iff, ← failure?_eq_some_iff, hfailure]
  · intro tree' htree'
    obtain ⟨tree, htree⟩ : ∃ tree, registry.toTree = .ok tree := by
      rw [← failure?_eq_none_iff, ← hfailure, failure?_eq_none_iff]
      exact ⟨tree', htree'⟩
    refine ⟨tree, htree, ?_⟩
    intro path σ runtime state
    exact evaluate_eq_of_find?_eq htree htree' hsame path runtime state

/-- Some declarations, and calls that fail half way. -/
def drafts : Registry :=
  empty.applyAll
    [.insert "/:section/*rest/" (.page (.plain "/:section/*rest/" "[section]/[...rest]")),
      .insert "/drafts//old/" (.page (.plain "/drafts/old/" "drafts/old")),
      .reserve ["/drafts/\\/new/", "/never/"]]

/-- The rejected key has created two nodes, and requests that pass them fall back to the
catch-all as before. -/
theorem toTree_of_rejected_drafts :
    ∃ next error tree tree',
      drafts.insert "/drafts/:id//" (.page (.plain "/drafts/:id/" "drafts/[id]")) =
        (next, some error) ∧
      (drafts.root.at? [.literal "drafts", .dynamic]).isNone = true ∧
      (next.root.at? [.literal "drafts", .dynamic]).isSome = true ∧
      drafts.toTree = .ok tree ∧ next.toTree = .ok tree' ∧
      tree'.evaluate "/drafts/3/x" .passthrough () =
        tree.evaluate "/drafts/3/x" .passthrough () := by
  have hcall : ∃ next error,
      drafts.insert "/drafts/:id//" (.page (.plain "/drafts/:id/" "drafts/[id]")) =
        (next, some error) ∧
      (next.root.at? [.literal "drafts", .dynamic]).isSome = true ∧
      next.toTree.isOk = true :=
    ⟨_, _, rfl, by decide +kernel, by decide +kernel⟩
  obtain ⟨next, error, hinsert, hnode, hok⟩ := hcall
  obtain ⟨tree', htree'⟩ := exists_ok_of_isOk hok
  obtain ⟨-, hsucceeds, -⟩ := toTree_of_rejected (Or.inl ⟨_, hinsert⟩)
  obtain ⟨tree, htree, hsame⟩ := hsucceeds tree' htree'
  exact ⟨next, error, tree, tree', hinsert, by decide +kernel, hnode, htree, htree',
    hsame "/drafts/3/x" .passthrough ()⟩

end Registry

end RouteTree
