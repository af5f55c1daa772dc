import RouteTree.Proofs.Interchange
import RouteTree.Proofs.NodeShape
import RouteTree.Proofs.Reordering

/-!
# Making the same calls again

A run of calls that is made a second time changes nothing.  That is not so of its single calls:
where a slot is written more than once, the second time takes it back to its earlier values, and
only the end of the run sets it to the last one again.

What a run leaves of a node is told by its slots and its shape.  The slots hold the last write of
the run to each of them, so a second run that starts from there ends there (`find?_declareAll`).
For the shape the walks count, those of the calls that fail included: the second run goes along
nodes that the first has left (`sameShape_declareAll`).  Nodes that agree in both are equal, which
is `Node.declareAll_declareAll`, and a registry whose run is repeated, or a group whose
declarations are, comes down to it.

Whether a call succeeds depends on its keys alone (`Registry.snd_apply`).  Whether it warns does
not, and the second run warns unless the writes to each slot agree
(`replacementsAfter_self_eq_nil_iff`).
-/

namespace RouteTree

/-! ## Declarations in a node -/

namespace Node

variable {node : Node}

/-- What a walk changes at its end: nothing if it has come to no place. -/
def changeAt (ending : Except PatternFault Place) (slot : Slot) : Node → Node :=
  match ending with
  | .error _ => id
  | .ok place => (·.setSlot place slot)

/-- The node after an attempt to declare something under a key. -/
def declare (node : Node) (attempt : String × Slot) : Node :=
  node.update (changeAt (Walk.ofKey attempt.1).ending attempt.2) (Walk.ofKey attempt.1).steps

/-- The node after a row of attempts. -/
def declareAll (node : Node) (attempts : List (String × Slot)) : Node :=
  attempts.foldl declare node

@[simp] theorem declareAll_append (node : Node) (first second : List (String × Slot)) :
    node.declareAll (first ++ second) = (node.declareAll first).declareAll second :=
  List.foldl_append

theorem child?_changeAt (ending : Except PatternFault Place) (slot : Slot) (node : Node)
    (step : Step) : (changeAt ending slot node).child? step = node.child? step := by
  cases ending with
  | error fault => rfl
  | ok place => exact child?_setSlot ..

theorem labels_changeAt (ending : Except PatternFault Place) (slot : Slot) (node : Node) :
    (changeAt ending slot node).labels = node.labels := by
  cases ending with
  | error fault => rfl
  | ok place => cases place <;> rfl

theorem root_write (registry : Registry) (attempt : String × Slot) :
    (registry.write attempt.1 attempt.2).1.root = registry.root.declare attempt := by
  unfold Registry.write declare
  cases hending : (Walk.ofKey attempt.1).ending <;> simp only [hending, changeAt]

theorem tidy_declare (h : node.Tidy) (attempt : String × Slot) : (node.declare attempt).Tidy := by
  rw [← root_write { root := node }]
  exact Registry.tidy_write h ..

/-- An attempt with a good key changes the slot of the key, and any other changes none. -/
theorem find?_declare (node : Node) (attempt : String × Slot) (address : Address) :
    (node.declare attempt).find? address =
      if keyFault? (components attempt.1) = none ∧ Address.ofKey attempt.1 = address then
        some attempt.2
      else node.find? address := by
  rw [← root_write { root := node }]
  obtain ⟨hgood, next, hwrite⟩ | ⟨fault, next, hfault, hwrite⟩ :=
    Registry.write_cases { root := node } attempt.1 attempt.2
  · rw [hwrite, Registry.find?_write hwrite]
    simp [hgood]
  · rw [hwrite, (Registry.unchanged_of_write hwrite).1]
    simp [hfault]

theorem isSome_at?_declare {attempt : String × Slot} {above : List Step} :
    ((node.declare attempt).at? above).isSome = true ↔
      (node.at? above).isSome = true ∨ above <+: (Walk.ofKey attempt.1).steps :=
  isSome_at?_update (child?_changeAt _ _)

/-! ### Rows of attempts -/

theorem tidy_declareAll (h : node.Tidy) (attempts : List (String × Slot)) :
    (node.declareAll attempts).Tidy := by
  induction attempts generalizing node with
  | nil => exact h
  | cons attempt rest ih => exact ih (tidy_declare h attempt)

/-- The attempts whose keys are good. -/
def accepted (attempts : List (String × Slot)) : List (String × Slot) :=
  attempts.filter fun attempt => keyFault? (components attempt.1) = none

theorem accepted_cons (attempt : String × Slot) (attempts : List (String × Slot)) :
    accepted (attempt :: attempts) =
      if keyFault? (components attempt.1) = none then attempt :: accepted attempts
      else accepted attempts := by
  unfold accepted
  rw [List.filter_cons]
  simp only [decide_eq_true_eq]

theorem find?_declareAll (node : Node) (attempts : List (String × Slot)) (address : Address) :
    (node.declareAll attempts).find? address =
      (Table.ofDeclarations (accepted attempts) address).or (node.find? address) := by
  induction attempts generalizing node with
  | nil => rfl
  | cons attempt rest ih =>
      obtain ⟨key, slot⟩ := attempt
      have hrest : (node.declareAll ((key, slot) :: rest)).find? address =
          (Table.ofDeclarations (accepted rest) address).or
            ((node.declare (key, slot)).find? address) := ih (node.declare (key, slot))
      rw [hrest, find?_declare, accepted_cons]
      by_cases hgood : keyFault? (components key) = none
      · rw [if_pos hgood, Table.ofDeclarations_cons, Option.or_assoc]
        by_cases hkey : Address.ofKey key = address <;> simp [hgood, hkey]
      · simp [hgood]

theorem isSome_at?_declareAll {attempts : List (String × Slot)} {above : List Step} :
    ((node.declareAll attempts).at? above).isSome = true ↔
      (node.at? above).isSome = true ∨
        ∃ attempt ∈ attempts, above <+: (Walk.ofKey attempt.1).steps := by
  induction attempts generalizing node with
  | nil => simp [declareAll]
  | cons attempt rest ih =>
      rw [List.exists_mem_cons_iff, ← or_assoc, ← isSome_at?_declare]
      exact ih

/-- Attempts whose walks go along nodes that are there change no shape. -/
theorem sameShape_declareAll {attempts : List (String × Slot)}
    (hthere : ∀ attempt ∈ attempts, (node.at? (Walk.ofKey attempt.1).steps).isSome = true) :
    (node.declareAll attempts).SameShape node := by
  induction attempts generalizing node with
  | nil => exact ⟨fun _ => rfl, fun _ => rfl⟩
  | cons attempt rest ih =>
      obtain ⟨hfirst, hrest⟩ := List.forall_mem_cons.mp hthere
      have hshape : (node.declare attempt).SameShape node :=
        sameShape_update (labels_changeAt _ _) (child?_changeAt _ _) hfirst
      have hlater : ((node.declare attempt).declareAll rest).SameShape (node.declare attempt) := by
        apply ih
        intro other hother
        rw [hshape.isSome_at?]
        exact hrest other hother
      exact hlater.trans hshape

/-- A row of attempts that is made again changes nothing. -/
theorem declareAll_declareAll (h : node.Tidy) (attempts : List (String × Slot)) :
    (node.declareAll attempts).declareAll attempts = node.declareAll attempts := by
  have htidy := tidy_declareAll h attempts
  apply eq_of_sameShape (tidy_declareAll htidy attempts) htidy
  · apply sameShape_declareAll
    intro attempt hattempt
    exact isSome_at?_declareAll.mpr (.inr ⟨attempt, hattempt, List.prefix_rfl⟩)
  · -- where the row declares anything, its last declaration counts both times
    funext address
    rw [find?_declareAll, find?_declareAll]
    cases Table.ofDeclarations (accepted attempts) address <;> rfl

end Node

/-! ## Runs of calls -/

namespace Registry

/-- The declarations that are tried: those up to the first with a key that is no good. -/
def tried : List (String × Slot) → List (String × Slot)
  | [] => []
  | attempt :: rest =>
    attempt :: if keyFault? (components attempt.1) = none then tried rest else []

theorem tried_of_good {declarations : List (String × Slot)}
    (h : ∀ write ∈ declarations, keyFault? (components write.1) = none) :
    tried declarations = declarations := by
  induction declarations with
  | nil => rfl
  | cons write rest ih =>
      obtain ⟨hwrite, hrest⟩ := List.forall_mem_cons.mp h
      rw [tried, if_pos hwrite, ih hrest]

theorem root_writeAll (registry : Registry) (declarations : List (String × Slot)) :
    (registry.writeAll declarations).1.root = registry.root.declareAll (tried declarations) := by
  induction declarations generalizing registry with
  | nil => rfl
  | cons write rest ih =>
      obtain ⟨key, slot⟩ := write
      have hroot : (registry.write key slot).1.root = registry.root.declare (key, slot) :=
        Node.root_write registry (key, slot)
      rw [writeAll, tried]
      obtain ⟨hgood, next, hwrite⟩ | ⟨fault, next, hfault, hwrite⟩ := write_cases registry key slot
      · rw [hwrite] at hroot ⊢
        rw [if_pos hgood]
        exact (ih next).trans (congrArg (·.declareAll (tried rest)) hroot)
      · rw [hwrite] at hroot ⊢
        rw [if_neg (by simp [hfault])]
        exact hroot

theorem root_applyAll (registry : Registry) (changes : List Change) :
    (registry.applyAll changes).root =
      registry.root.declareAll (changes.flatMap fun change => tried change.declarations) := by
  induction changes generalizing registry with
  | nil => rfl
  | cons change rest ih =>
      have hfirst := root_writeAll registry change.declarations
      rw [← apply_eq_writeAll] at hfirst
      rw [List.flatMap_cons, Node.declareAll_append, ← hfirst]
      exact ih (registry.apply change).1

/-! ### Results -/

/-- What the calls of a run return: nothing, or an error. -/
def results (registry : Registry) : List Change → List (Option CompileError)
  | [] => []
  | change :: rest => (registry.apply change).2 :: (registry.apply change).1.results rest

theorem snd_apply (registry other : Registry) (change : Change) :
    (registry.apply change).2 = (other.apply change).2 := by
  rw [apply_eq_writeAll, apply_eq_writeAll, snd_writeAll, snd_writeAll]

theorem results_eq (registry other : Registry) (changes : List Change) :
    registry.results changes = other.results changes := by
  induction changes generalizing registry other with
  | nil => rfl
  | cons change rest ih => rw [results, results, snd_apply registry other, ih]

theorem applyAll_append (registry : Registry) (first second : List Change) :
    registry.applyAll (first ++ second) = (registry.applyAll first).applyAll second :=
  List.foldl_append

theorem history_append (registry other : Registry) (first second : List Change) :
    registry.history (first ++ second) = registry.history first ++ other.history second := by
  rw [history_eq_flatMap, history_eq_flatMap, history_eq_flatMap, List.flatMap_append]

end Registry

/-! ## Warnings -/

theorem replacement?_eq_none_iff {earlier : List (String × Slot)} {key : String} {slot : Slot}
    (hheld : Table.ofDeclarations earlier (Address.ofKey key) ≠ none) :
    replacement? earlier key slot = none ↔
      Table.ofDeclarations earlier (Address.ofKey key) = some slot := by
  obtain ⟨old, hold⟩ := Option.ne_none_iff_exists'.mp hheld
  simp [replacement?, hold]

/-- Writes to slots that hold something are not warned about if they write what the slots hold. -/
theorem replacementsAfter_eq_nil_iff {earlier later : List (String × Slot)}
    (hheld : ∀ write ∈ later, Table.ofDeclarations earlier (Address.ofKey write.1) ≠ none) :
    replacementsAfter earlier later = [] ↔
      ∀ write ∈ later, Table.ofDeclarations earlier (Address.ofKey write.1) = some write.2 := by
  induction later generalizing earlier with
  | nil => simp [replacementsAfter]
  | cons write rest ih =>
      obtain ⟨key, slot⟩ := write
      obtain ⟨hwrite, hrest⟩ := List.forall_mem_cons.mp hheld
      rw [replacementsAfter, List.append_eq_nil_iff, Option.toList_eq_nil_iff,
        replacement?_eq_none_iff hwrite, List.forall_mem_cons]
      refine and_congr_right fun hsame => ?_
      -- a write of what the slot holds leaves the table as it is
      have htable : Table.ofDeclarations (earlier ++ [(key, slot)]) =
          Table.ofDeclarations earlier := by
        funext address
        rw [Table.ofDeclarations_concat]
        split
        · rename_i hkey
          rw [← hkey, hsame]
        · rfl
      rw [ih (by rwa [htable]), htable]

/-- The writes to each slot write one and the same. -/
def OneValuePerSlot (writes : List (String × Slot)) : Prop :=
  ∀ first ∈ writes, ∀ second ∈ writes,
    Address.ofKey first.1 = Address.ofKey second.1 → first.2 = second.2

theorem oneValuePerSlot_iff {writes : List (String × Slot)} :
    OneValuePerSlot writes ↔
      ∀ write ∈ writes, Table.ofDeclarations writes (Address.ofKey write.1) = some write.2 := by
  constructor
  · intro h write hwrite
    obtain ⟨slot, hslot⟩ := Option.ne_none_iff_exists'.mp
      (Table.ofDeclarations_ne_none_iff.mpr ⟨write, hwrite, rfl⟩)
    obtain ⟨key, hmem, hkey⟩ := Table.exists_mem_of_ofDeclarations hslot
    rw [hslot, ← h (key, slot) hmem write hwrite hkey]
  · intro h first hfirst second hsecond hkey
    have hlast := h first hfirst
    rw [hkey, h second hsecond] at hlast
    exact (Option.some.inj hlast).symm

/-- Writes that are made again are not warned about if those to each slot agree. -/
theorem replacementsAfter_self_eq_nil_iff (earlier writes : List (String × Slot)) :
    replacementsAfter (earlier ++ writes) writes = [] ↔ OneValuePerSlot writes := by
  have hlast : ∀ write ∈ writes,
      Table.ofDeclarations writes (Address.ofKey write.1) ≠ none ∧
        Table.ofDeclarations (earlier ++ writes) (Address.ofKey write.1) =
          Table.ofDeclarations writes (Address.ofKey write.1) := by
    intro write hwrite
    have hdeclared : Table.ofDeclarations writes (Address.ofKey write.1) ≠ none :=
      Table.ofDeclarations_ne_none_iff.mpr ⟨write, hwrite, rfl⟩
    refine ⟨hdeclared, ?_⟩
    rw [Table.ofDeclarations_append]
    exact Option.or_of_isSome (Option.isSome_iff_ne_none.mpr hdeclared)
  rw [oneValuePerSlot_iff, replacementsAfter_eq_nil_iff]
  · exact forall₂_congr fun write hwrite => by rw [(hlast write hwrite).2]
  · intro write hwrite
    rw [(hlast write hwrite).2]
    exact (hlast write hwrite).1

namespace Registry

theorem warnings_applyAll (changes : List Change) :
    (empty.applyAll changes).warnings = replacements (empty.history changes) :=
  (kept_applyAll @Reflects.write @Reflects.fail Reflects.empty changes).warnings_eq

theorem warnings_applyAll_twice (before changes : List Change) :
    (((empty.applyAll before).applyAll changes).applyAll changes).warnings =
      ((empty.applyAll before).applyAll changes).warnings ++
        replacementsAfter (empty.history before ++ empty.history changes)
          (empty.history changes) := by
  rw [← applyAll_append empty before changes, ← applyAll_append, warnings_applyAll,
    warnings_applyAll, history_append empty empty, history_append empty empty, replacements,
    replacementsAfter_append, List.nil_append, replacements]

end Registry

/-! ## Groups -/

namespace Registry

/-- The tree of some declarations is that of the node that they leave, if their keys are good. -/
theorem toTree_ofDeclarations (declarations : List (String × Slot)) :
    (ofDeclarations declarations >>= toTree) =
      match failure? (ofDeclarations declarations) with
      | some error => .error error
      | none => (Node.empty.declareAll declarations).toTree 0 := by
  cases hregistry : ofDeclarations declarations with
  | error error => rfl
  | ok registry =>
      have hgood : ∀ write ∈ declarations, keyFault? (components write.1) = none := by
        have hfailure := failure?_ofDeclarations declarations
        rw [hregistry, failure?, eq_comm, List.findSome?_eq_none_iff] at hfailure
        simpa using hfailure
      have hroot := root_writeAll empty declarations
      rw [writeAll_of_ofDeclarations hregistry, tried_of_good hgood] at hroot
      exact congrArg (·.toTree 0) hroot

end Registry

/-- The group with its routes and its reservations stated twice. -/
def RouteGroup.repeated (group : RouteGroup) : RouteGroup :=
  { group with
    routes := group.routes ++ group.routes
    reserved := group.reserved ++ group.reserved }

theorem RouteGroup.map_tree_compile_repeated (group : RouteGroup) :
    group.repeated.compile.map Compiled.tree = group.compile.map Compiled.tree := by
  let routes := group.routes.map Registry.routeEntry
  let reserved := group.reserved.map Registry.reservation
  have hrepeated : group.repeated.declarations = routes ++ routes ++ (reserved ++ reserved) := by
    simp only [declarations, repeated, List.map_append, routes, reserved]
  have hfailure : failure? (Registry.ofDeclarations group.repeated.declarations) =
      failure? (Registry.ofDeclarations (routes ++ reserved)) := by
    simp only [Registry.failure?_ofDeclarations, hrepeated, List.findSome?_append, Option.or_self]
  have hroot : Node.empty.declareAll group.repeated.declarations =
      Node.empty.declareAll (routes ++ reserved) := by
    have htidy : (Node.empty.declareAll routes).Tidy := Node.tidy_declareAll Node.Tidy.empty routes
    calc
      Node.empty.declareAll group.repeated.declarations
      _ = ((Node.empty.declareAll routes).declareAll routes |>.declareAll reserved).declareAll
            reserved := by simp only [hrepeated, Node.declareAll_append]
      _ = ((Node.empty.declareAll routes).declareAll reserved).declareAll reserved := by
          rw [Node.declareAll_declareAll Node.Tidy.empty]
      _ = (Node.empty.declareAll routes).declareAll reserved :=
          Node.declareAll_declareAll htidy reserved
      _ = Node.empty.declareAll (routes ++ reserved) := (Node.declareAll_append ..).symm
  rw [map_tree_compile, map_tree_compile, Registry.toTree_ofDeclarations,
    Registry.toTree_ofDeclarations, hfailure, hroot]
  rfl

/-- **A run of calls that is made again changes nothing.**  In any state of a registry and
whichever of its calls fail, the second run leaves the root that the first has left, and each of
its calls returns what it returned the first time.  It adds no warning if the writes to each slot
agree, and does so if they do not.  A group that states its routes and its reservations twice is
compiled to the same tree, or fails with the same error. -/
theorem Registry.applyAll_replayed (before changes : List Change) :
    (((empty.applyAll before).applyAll changes).applyAll changes).root =
        ((empty.applyAll before).applyAll changes).root ∧
      ((empty.applyAll before).applyAll changes).results changes =
        (empty.applyAll before).results changes ∧
      ((((empty.applyAll before).applyAll changes).applyAll changes).warnings =
          ((empty.applyAll before).applyAll changes).warnings ↔
        OneValuePerSlot ((empty.applyAll before).history changes)) ∧
      ∀ group : RouteGroup,
        group.repeated.compile.map Compiled.tree = group.compile.map Compiled.tree := by
  refine ⟨?_, results_eq .., ?_, RouteGroup.map_tree_compile_repeated⟩
  · rw [root_applyAll, root_applyAll _ changes, Node.declareAll_declareAll (tidy_applyAll before)]
  · rw [warnings_applyAll_twice, List.append_right_eq_self, replacementsAfter_self_eq_nil_iff,
      history_eq_flatMap empty, history_eq_flatMap (empty.applyAll before)]

/-- The second run sets `/news` back to the page and then takes it away again.  Nothing is left of
that but the warnings. -/
example :
    let changes : List Change :=
      [.insert "/news" (.page (.plain "/news/" "news")), .reserve ["news/", "//", "/about"]]
    (Registry.empty.applyAll changes).warnings = [⟨"news/", false⟩] ∧
      ((Registry.empty.applyAll changes).applyAll changes).warnings =
        [⟨"news/", false⟩, ⟨"/news", true⟩, ⟨"news/", false⟩] := by
  decide +kernel

end RouteTree
