import Mathlib.Data.List.Basic
import Mathlib.Data.List.TakeWhile
import RouteTree.Proofs.CompileFailure

/-!
# Declarations in another order

The nodes of a registry keep their literal children in the order in which they were created,
so two registries that were told the same in another order have different trees.  Still they
answer every request alike, as long as the writes to any one slot come in the same order.

`Reordered` compares two runs of calls slot by slot.  Everything that a registry tells is told
of one slot at a time: what the slot holds is the last write to it, and whether a write is
warned about depends on the writes to its own slot before it
(`filter_replacementsAfter`).  So nothing is lost when the writes to different slots change
places, and only the order of the warnings can tell.

For the trees this is not enough, as their cases do stand in another order.  What they have in
common is what they were made from: the same slots are live in both registries, so the
construction meets the same declarations (`Registry.toTree_isOk_congr`), and which node a
request selects is a matter of the slots alone (`Registry.evaluate_eq_of_find?_eq`).
-/

namespace RouteTree

/-- Lists that agree on every class of elements are permutations of each other. -/
theorem perm_of_filter_eq {α β : Type} [DecidableEq α] [DecidableEq β] {f : α → β}
    {first second : List α}
    (h : ∀ b, first.filter (fun a => f a = b) = second.filter (fun a => f a = b)) :
    first.Perm second := by
  rw [List.perm_iff_count]
  intro a
  have hclass : ∀ list : List α,
      list.count a = (list.filter fun other => f other = f a).count a := by
    intro list
    rw [List.count_filter (by simp)]
  calc first.count a
      = (first.filter fun other => f other = f a).count a := hclass first
    _ = (second.filter fun other => f other = f a).count a := by rw [h (f a)]
    _ = second.count a := (hclass second).symm

/-! ## Writes to one slot -/

/-- The writes to an address, in their order. -/
def writesTo (address : Address) (writes : List (String × Slot)) : List (String × Slot) :=
  writes.filter fun write => Address.ofKey write.1 = address

theorem ofDeclarations_writesTo (address : Address) (writes : List (String × Slot)) :
    Table.ofDeclarations (writesTo address writes) address =
      Table.ofDeclarations writes address := by
  unfold Table.ofDeclarations writesTo
  rw [List.filter_filter]
  simp only [Bool.and_self]

theorem writesTo_concat (address : Address) (writes : List (String × Slot)) (key : String)
    (slot : Slot) :
    writesTo address (writes ++ [(key, slot)]) =
      if Address.ofKey key = address then writesTo address writes ++ [(key, slot)]
      else writesTo address writes := by
  unfold writesTo
  rw [List.filter_append]
  by_cases hkey : Address.ofKey key = address <;> simp [hkey]

/-- The warnings about the writes to an address are those that these writes give rise to by
themselves. -/
theorem filter_replacementsAfter (address : Address) (earlier writes : List (String × Slot)) :
    (replacementsAfter earlier writes).filter
        (fun overwrite => Address.ofKey overwrite.key = address) =
      replacementsAfter (writesTo address earlier) (writesTo address writes) := by
  induction writes generalizing earlier with
  | nil => rfl
  | cons first later ih =>
      obtain ⟨key, slot⟩ := first
      rw [replacementsAfter, List.filter_append, ih, writesTo_concat]
      by_cases hkey : Address.ofKey key = address
      · have hwrites : writesTo address ((key, slot) :: later) =
            (key, slot) :: writesTo address later := by
          simp [writesTo, hkey]
        have hheld : replacement? (writesTo address earlier) key slot =
            replacement? earlier key slot := by
          unfold replacement?
          rw [hkey, ofDeclarations_writesTo]
        have hown : (replacement? earlier key slot).toList.filter
              (fun overwrite => Address.ofKey overwrite.key = address) =
            (replacement? earlier key slot).toList := by
          rw [List.filter_eq_self]
          intro overwrite hmem
          obtain ⟨old, -, rfl⟩ := Option.map_eq_some_iff.mp (Option.mem_toList.mp hmem)
          simpa using hkey
        rw [if_pos hkey, hwrites, replacementsAfter, hheld, hown]
      · have hwrites : writesTo address ((key, slot) :: later) = writesTo address later := by
          simp [writesTo, hkey]
        have hother : (replacement? earlier key slot).toList.filter
              (fun overwrite => Address.ofKey overwrite.key = address) = [] := by
          rw [List.filter_eq_nil_iff]
          intro overwrite hmem
          obtain ⟨old, -, rfl⟩ := Option.map_eq_some_iff.mp (Option.mem_toList.mp hmem)
          simpa using hkey
        rw [if_neg hkey, hwrites, hother, List.nil_append]

/-! ## Histories -/

/-- The two lists hold the same writes to every address, in the same order. -/
def Reordered (first second : List (String × Slot)) : Prop :=
  ∀ address, writesTo address first = writesTo address second

namespace Reordered

variable {first second : List (String × Slot)}

/-- The second list has every write as often as the first. -/
theorem perm (h : Reordered first second) : first.Perm second :=
  perm_of_filter_eq (f := fun write : String × Slot => Address.ofKey write.1) h

theorem ofDeclarations_eq (h : Reordered first second) :
    Table.ofDeclarations first = Table.ofDeclarations second := by
  funext address
  rw [← ofDeclarations_writesTo, h address, ofDeclarations_writesTo]

theorem perm_replacements (h : Reordered first second) :
    (replacements first).Perm (replacements second) := by
  apply perm_of_filter_eq (f := fun overwrite : Overwrite => Address.ofKey overwrite.key)
  intro address
  unfold replacements
  rw [filter_replacementsAfter, filter_replacementsAfter, h address]

/-- Neighbours that go to different addresses may change places. -/
theorem swap {key other : String} (hne : Address.ofKey key ≠ Address.ofKey other)
    (earlier later : List (String × Slot)) (slot held : Slot) :
    Reordered (earlier ++ (key, slot) :: (other, held) :: later)
      (earlier ++ (other, held) :: (key, slot) :: later) := by
  intro address
  unfold writesTo
  simp only [List.filter_append, List.filter_cons, decide_eq_true_eq]
  by_cases hkey : Address.ofKey key = address
  · have hother : Address.ofKey other ≠ address := fun h => hne (hkey.trans h.symm)
    simp only [if_pos hkey, if_neg hother]
  · simp only [if_neg hkey]

theorem trans {third : List (String × Slot)} (h : Reordered first second)
    (hnext : Reordered second third) : Reordered first third :=
  fun address => (h address).trans (hnext address)

end Reordered

/-! ## Registries -/

namespace Registry

variable {registry next : Registry} {changes changes' : List Change}

/-- The keys that a run of calls sets out to write are good. -/
def GoodKeys (changes : List Change) : Prop :=
  ∀ write ∈ changes.flatMap Change.declarations, keyFault? (components write.1) = none

/-- The writes that succeed are those in front of the first with a key that is no good. -/
theorem written_eq_takeWhile (registry : Registry) (declarations : List (String × Slot)) :
    registry.written declarations =
      declarations.takeWhile fun write => keyFault? (components write.1) = none := by
  induction declarations generalizing registry with
  | nil => rfl
  | cons first rest ih =>
      obtain ⟨key, slot⟩ := first
      rw [written, List.takeWhile_cons]
      obtain ⟨hgood, next, hwrite⟩ | ⟨fault, next, hfault, hwrite⟩ := write_cases registry key slot
      · simp [hwrite, hgood, ih]
      · simp [hwrite, hfault]

/-- What succeeds in a run of calls is a matter of the calls, whatever they are made on. -/
theorem history_eq_flatMap (registry : Registry) (changes : List Change) :
    registry.history changes = changes.flatMap fun change =>
      change.declarations.takeWhile fun write => keyFault? (components write.1) = none := by
  induction changes generalizing registry with
  | nil => rfl
  | cons change rest ih => rw [history, written_eq_takeWhile, ih, List.flatMap_cons]

/-- With good keys every write of a run succeeds. -/
theorem history_of_good (registry : Registry) (h : GoodKeys changes) :
    registry.history changes = changes.flatMap Change.declarations := by
  rw [history_eq_flatMap]
  apply List.flatMap_congr
  intro change hchange
  rw [List.takeWhile_eq_self_iff]
  intro write hwrite
  simpa using h write (List.mem_flatMap.mpr ⟨change, hchange, hwrite⟩)

/-- A registry has a tree if every live declaration has one. -/
theorem toTree_isOk_iff (htidy : registry.root.Tidy) :
    (∃ tree, registry.toTree = .ok tree) ↔
      ∀ address slot, Table.Live registry.root.find? address →
        registry.root.find? address = some slot → slot.failure? = none := by
  rw [← failure?_eq_none_iff, toTree, Node.failure?_toTree, firstFailure?,
    List.findSome?_eq_none_iff]
  constructor
  · intro h address slot hlive hslot
    exact h (address, slot) ((Node.mem_visible_iff htidy).mpr ⟨hlive, hslot⟩)
  · rintro h ⟨address, slot⟩ hmem
    obtain ⟨hlive, hslot⟩ := (Node.mem_visible_iff htidy).mp hmem
    exact h address slot hlive hslot

theorem toTree_isOk_congr (htidy : registry.root.Tidy) (htidy' : next.root.Tidy)
    (hsame : next.root.find? = registry.root.find?) :
    (∃ tree, registry.toTree = .ok tree) ↔ ∃ tree, next.toTree = .ok tree := by
  rw [toTree_isOk_iff htidy, toTree_isOk_iff htidy', hsame]

/-- **The order of declarations matters within a slot only.**  Two runs of calls with good keys
that write the same to every slot in the same order leave the same declarations in every slot and
the same warnings, up to their order.  Both registries have a tree or none has, and where they
have one, every request resolves alike, with the same questions to the runtime. -/
theorem applyAll_of_reordered (hgood : GoodKeys changes)
    (h : Reordered (changes.flatMap Change.declarations)
      (changes'.flatMap Change.declarations)) :
    (empty.applyAll changes').root.find? = (empty.applyAll changes).root.find? ∧
      (empty.applyAll changes').warnings.Perm (empty.applyAll changes).warnings ∧
      ((∃ tree, (empty.applyAll changes).toTree = .ok tree) ↔
        ∃ tree', (empty.applyAll changes').toTree = .ok tree') ∧
      ∀ tree tree', (empty.applyAll changes).toTree = .ok tree →
        (empty.applyAll changes').toTree = .ok tree' →
        ∀ (path : String) {σ : Type} (runtime : Runtime σ) (state : σ),
          tree'.evaluate path runtime state = tree.evaluate path runtime state := by
  have hgood' : GoodKeys changes' := by
    intro write hmem
    exact hgood write (h.perm.mem_iff.mpr hmem)
  have hreflects := kept_applyAll @Reflects.write @Reflects.fail Reflects.empty changes
  have hreflects' := kept_applyAll @Reflects.write @Reflects.fail Reflects.empty changes'
  rw [List.nil_append, history_of_good empty hgood] at hreflects
  rw [List.nil_append, history_of_good empty hgood'] at hreflects'
  have hsame : (empty.applyAll changes').root.find? = (empty.applyAll changes).root.find? := by
    rw [hreflects'.find?_eq, hreflects.find?_eq, h.ofDeclarations_eq]
  refine ⟨hsame, ?_, ?_, ?_⟩
  · rw [hreflects'.warnings_eq, hreflects.warnings_eq]
    exact h.perm_replacements.symm
  · exact toTree_isOk_congr (tidy_applyAll changes) (tidy_applyAll changes') hsame
  · intro tree tree' htree htree' path σ runtime state
    exact evaluate_eq_of_find?_eq htree htree' hsame path runtime state

/-- Two keys that are written twice each, under two spellings. -/
def sections : List Change :=
  [.insert "/news/" (.page (.plain "/news/" "news")),
    .insert "/:section/" (.page (.plain "/:section/" "section")),
    .insert "/about/" (.page (.plain "/about/" "about")),
    .insert "/news" (.page (.plain "/news/" "news/today")), .reserve ["about"]]

/-- The same with the second key first, both times. -/
def sectionsAboutFirst : List Change :=
  [.insert "/about/" (.page (.plain "/about/" "about")),
    .insert "/news/" (.page (.plain "/news/" "news")),
    .insert "/:section/" (.page (.plain "/:section/" "section")),
    .reserve ["about"], .insert "/news" (.page (.plain "/news/" "news/today"))]

/-- The children stand in another order, and so do the warnings. -/
theorem applyAll_of_reordered_sections :
    (empty.applyAll sections).root.labels = ["news", "about"] ∧
      (empty.applyAll sectionsAboutFirst).root.labels = ["about", "news"] ∧
      (empty.applyAll sectionsAboutFirst).warnings.Perm (empty.applyAll sections).warnings ∧
      ∃ tree tree', (empty.applyAll sections).toTree = .ok tree ∧
        (empty.applyAll sectionsAboutFirst).toTree = .ok tree' ∧
        tree'.evaluate "/news" .passthrough () = tree.evaluate "/news" .passthrough () := by
  have hgood : GoodKeys sections := by
    unfold GoodKeys
    decide +kernel
  have hreordered : Reordered (sections.flatMap Change.declarations)
      (sectionsAboutFirst.flatMap Change.declarations) :=
    ((Reordered.swap (by decide +kernel) [_] [_, _] _ _).trans
      (Reordered.swap (by decide +kernel) [] [_, _, _] _ _)).trans
        (Reordered.swap (by decide +kernel) [_, _, _] [] _ _)
  obtain ⟨-, hwarnings, htrees, hsame⟩ := applyAll_of_reordered hgood hreordered
  obtain ⟨tree, htree⟩ := exists_ok_of_isOk
    (show (empty.applyAll sections).toTree.isOk = true by decide +kernel)
  obtain ⟨tree', htree'⟩ := htrees.mp ⟨tree, htree⟩
  exact ⟨by decide +kernel, by decide +kernel, hwarnings, tree, tree', htree, htree',
    hsame tree tree' htree htree' "/news" .passthrough ()⟩

end Registry
end RouteTree
