import RouteTree.Proofs.Growth
import RouteTree.Proofs.KeyGrammar
import RouteTree.Proofs.Traversal

/-!
# What a compilation fails with

A compilation can fail in two places.  While the keys are written, the first that is no good
ends it (`Registry.snd_writeAll`).  After that the construction goes through the declarations
that are live, and the first of them that is a route without a tree ends it.  Which of them is
the first is not a matter of which was declared first: at each node the exact declaration is met
first, then the literal children, the one that was created first in front, then the child for
any text, and the catch-all last.  `Address.Before` says so of two addresses.

`RouteGroup.compile_fails_iff` puts both together.  As only live declarations count, a route
that was replaced or lies under an override does not make a compilation fail.
-/

namespace RouteTree

/-! ## The order in which addresses are met -/

/-- When it is a place's turn among the places and children of its node.  The literal children
have the first turn, and the child for any text the second. -/
def Place.turn : Place → Nat
  | .exact | .override => 0
  | .catchAll => 3

/-- The turns on the way to a place, the turn of a literal child followed by its number.  Where
`created` numbers the nodes, the first created first, turns are met in the order of words. -/
def Place.turns (place : Place) : List Step → (List Step → Nat) → List Nat
  | [], _ => [place.turn]
  | .literal text :: steps, created =>
    1 :: created [.literal text] :: place.turns steps fun below => created (.literal text :: below)
  | .dynamic :: steps, created => 2 :: place.turns steps fun below => created (.dynamic :: below)

namespace Address

/-- The address is met before the other one. -/
def Before (created : List Step → Nat) (address other : Address) : Prop :=
  address.place.turns address.steps created < other.place.turns other.steps created

variable {created : List Step → Nat}

theorem Before.asymm {address other : Address} (h : address.Before created other) :
    ¬ other.Before created address :=
  List.lt_asymm h

theorem before_after_iff (step : Step) (address other : Address) :
    (address.after step).Before created (other.after step) ↔
      address.Before (fun below => created (step :: below)) other := by
  cases step <;> simp [Before, Place.turns]

theorem before_literal_of_lt {text label : String}
    (h : created [.literal text] < created [.literal label]) (address other : Address) :
    (address.after (.literal text)).Before created (other.after (.literal label)) := by
  simp [Before, Place.turns, List.cons_lt_cons_iff, h]

theorem literal_before_dynamic (text : String) (address other : Address) :
    (address.after (.literal text)).Before created (other.after .dynamic) := by
  simp [Before, Place.turns, List.cons_lt_cons_iff]

theorem exact_before_after (step : Step) (address : Address) :
    Before created ⟨[], .exact⟩ (address.after step) := by
  cases step <;> simp [Before, Place.turns, Place.turn, List.cons_lt_cons_iff]

theorem after_before_catchAll (step : Step) (address : Address) :
    (address.after step).Before created ⟨[], .catchAll⟩ := by
  cases step <;> simp [Before, Place.turns, Place.turn, List.cons_lt_cons_iff]

theorem exact_before_catchAll : Before created ⟨[], .exact⟩ ⟨[], .catchAll⟩ := by
  simp [Before, Place.turns, Place.turn, List.cons_lt_cons_iff]

end Address

namespace Node

/-- The declarations stand in the order in which their addresses are met. -/
def InOrder (created : List Step → Nat) (declared : List (Address × Slot)) : Prop :=
  declared.Pairwise fun first second => first.1.Before created second.1

variable {created : List Step → Nat}

theorem inOrder_map_after {step : Step} {declared : List (Address × Slot)}
    (h : InOrder (fun below => created (step :: below)) declared) :
    InOrder created (declared.map (Prod.map (Address.after step) id)) := by
  rw [InOrder, List.pairwise_map]
  apply h.imp
  intro first second hbefore
  exact (Address.before_after_iff ..).mpr hbefore

theorem inOrder_here (slot : Option Slot) (place : Place) :
    InOrder created (slot.toList.map fun slot => (⟨[], place⟩, slot)) := by
  cases slot <;> simp [InOrder]

theorem inOrder_staticsVisible {children : List (String × Node)}
    (hlabels : (children.map (·.1)).Pairwise fun first second =>
      created [.literal first] < created [.literal second])
    (hchildren : ∀ text child, (text, child) ∈ children →
      InOrder (fun below => created (.literal text :: below)) child.visible) :
    InOrder created (staticsVisible children) := by
  induction children with
  | nil => exact List.Pairwise.nil
  | cons first rest ih =>
      obtain ⟨text, child⟩ := first
      obtain ⟨hfirst, hrest⟩ := List.pairwise_cons.mp hlabels
      rw [staticsVisible, InOrder, List.pairwise_append]
      refine ⟨inOrder_map_after (hchildren text child (List.mem_cons_self ..)), ?_, ?_⟩
      · apply ih hrest
        intro label other hmem
        exact hchildren label other (List.mem_cons_of_mem _ hmem)
      · rintro ⟨address, slot⟩ hmem ⟨other, held⟩ hother
        obtain ⟨below, rfl, -⟩ := Address.mem_map_after_iff.mp hmem
        obtain ⟨label, sibling, found, hsibling, rfl, -⟩ := mem_staticsVisible_iff.mp hother
        apply Address.before_literal_of_lt
        exact hfirst label (List.mem_map.mpr ⟨_, hsibling, rfl⟩)

theorem inOrder_dynamicVisible {dynamic : Option Node}
    (hchild : ∀ child, dynamic = some child →
      InOrder (fun below => created (.dynamic :: below)) child.visible) :
    InOrder created (dynamicVisible dynamic) := by
  cases dynamic with
  | none => exact List.Pairwise.nil
  | some child => exact inOrder_map_after (hchild child rfl)

/-- A construction meets the addresses in order, if the literal children stand in order. -/
theorem inOrder_visible {node : Node} (htidy : node.Tidy)
    (hlabels : ∀ above, (node.labelsAt above).Pairwise fun first second =>
      created (above ++ [.literal first]) < created (above ++ [.literal second])) :
    InOrder created node.visible := by
  induction htidy generalizing created with
  | @intro node hdistinct hgood hchildren ih =>
      have hbelow : ∀ step child, node.child? step = some child →
          InOrder (fun below => created (step :: below)) child.visible := by
        intro step child hchild
        apply ih step child hchild
        intro above
        have habove := hlabels (step :: above)
        rw [labelsAt_cons, hchild, Option.getD_some] at habove
        exact habove
      cases hroot : node.override with
      | some slot =>
          rw [visible_of_override hroot]
          exact List.pairwise_singleton ..
      | none =>
          have hstatics : InOrder created (staticsVisible node.statics) := by
            apply inOrder_staticsVisible (hlabels [])
            intro text child hmem
            exact hbelow (.literal text) child (lookup_of_mem hdistinct hmem)
          have hdynamic : InOrder created (dynamicVisible node.dynamic) :=
            inOrder_dynamicVisible (hbelow .dynamic)
          rw [visible_of_none hroot, InOrder, List.pairwise_append, List.pairwise_append,
            List.pairwise_append]
          refine ⟨inOrder_here .., ⟨hstatics, ⟨hdynamic, inOrder_here .., ?_⟩, ?_⟩, ?_⟩
          · rintro ⟨address, slot⟩ hmem ⟨other, held⟩ hother
            obtain ⟨child, below, -, rfl, -⟩ := mem_dynamicVisible_iff.mp hmem
            obtain ⟨rfl, -⟩ := Address.mem_map_root_iff.mp hother
            exact Address.after_before_catchAll ..
          · rintro ⟨address, slot⟩ hmem ⟨other, held⟩ hother
            obtain ⟨text, child, below, -, rfl, -⟩ := mem_staticsVisible_iff.mp hmem
            rcases List.mem_append.mp hother with hother | hother
            · obtain ⟨sibling, found, -, rfl, -⟩ := mem_dynamicVisible_iff.mp hother
              exact Address.literal_before_dynamic ..
            · obtain ⟨rfl, -⟩ := Address.mem_map_root_iff.mp hother
              exact Address.after_before_catchAll ..
          · rintro ⟨address, slot⟩ hmem ⟨other, held⟩ hother
            obtain ⟨rfl, -⟩ := Address.mem_map_root_iff.mp hmem
            rcases List.mem_append.mp hother with hother | hother
            · obtain ⟨text, child, below, -, rfl, -⟩ := mem_staticsVisible_iff.mp hother
              exact Address.exact_before_after ..
            · rcases List.mem_append.mp hother with hother | hother
              · obtain ⟨child, below, -, rfl, -⟩ := mem_dynamicVisible_iff.mp hother
                exact Address.exact_before_after ..
              · obtain ⟨rfl, -⟩ := Address.mem_map_root_iff.mp hother
                exact Address.exact_before_catchAll

end Node

/-! ## The first that fails -/

/-- In a list in order, the first element that gives a result comes before all others that do. -/
theorem findSome?_eq_some_iff_of_pairwise {α β : Type} {before : α → α → Prop}
    (hasymm : ∀ {first second}, before first second → ¬ before second first)
    {list : List α} (horder : list.Pairwise before) {f : α → Option β} {result : β} :
    list.findSome? f = some result ↔
      ∃ first ∈ list, f first = some result ∧
        ∀ other ∈ list, f other ≠ none → other ≠ first → before first other := by
  induction list with
  | nil => simp
  | cons head rest ih =>
      obtain ⟨hhead, hrest⟩ := List.pairwise_cons.mp horder
      rw [List.findSome?_cons]
      cases hresult : f head with
      | some value =>
          constructor
          · intro hvalue
            refine ⟨head, List.mem_cons_self .., hresult.trans hvalue, ?_⟩
            intro other hother _ hne
            exact hhead other ((List.mem_cons.mp hother).resolve_left hne)
          · rintro ⟨first, hmem, hfirst, hleast⟩
            by_cases heq : first = head
            · rw [← hfirst, heq, hresult]
            · have hlater := hhead first ((List.mem_cons.mp hmem).resolve_left heq)
              have hearlier := hleast head (List.mem_cons_self ..) (by simp [hresult]) (Ne.symm heq)
              exact absurd hearlier (hasymm hlater)
      | none =>
          simp only [ih hrest, List.mem_cons, exists_eq_or_imp, forall_eq_or_imp, hresult,
            ne_eq, not_true_eq_false, false_implies, true_and, reduceCtorEq, false_and, false_or]

namespace Registry

variable {registry : Registry} {declarations : List (String × Slot)}

/-- The error of a write is about its key alone. -/
theorem snd_write (registry : Registry) (key : String) (slot : Slot) :
    (registry.write key slot).2 = (keyFault? (components key)).map (.malformed key) := by
  rw [← Walk.failure?_ofKey]
  unfold write
  cases hending : (Walk.ofKey key).ending <;> simp [hending]

/-- A write succeeds if its key is good, and else fails with the fault of the key. -/
theorem write_cases (registry : Registry) (key : String) (slot : Slot) :
    (keyFault? (components key) = none ∧ ∃ next, registry.write key slot = (next, none)) ∨
      ∃ fault next, keyFault? (components key) = some fault ∧
        registry.write key slot = (next, some (.malformed key fault)) := by
  have hresult := snd_write registry key slot
  cases hfault : keyFault? (components key) with
  | none =>
      rw [hfault] at hresult
      exact .inl ⟨rfl, _, Prod.ext rfl hresult⟩
  | some fault =>
      rw [hfault] at hresult
      exact .inr ⟨fault, _, rfl, Prod.ext rfl hresult⟩

theorem snd_writeAll (registry : Registry) (declarations : List (String × Slot)) :
    (registry.writeAll declarations).2 = declarations.findSome? fun declaration =>
      (keyFault? (components declaration.1)).map (.malformed declaration.1) := by
  induction declarations generalizing registry with
  | nil => rfl
  | cons first rest ih =>
      obtain ⟨key, slot⟩ := first
      have hfirst := snd_write registry key slot
      rw [writeAll, List.findSome?_cons, ← hfirst]
      rcases registry.write key slot with ⟨next, error⟩
      cases error with
      | none => exact ih next
      | some error => rfl

theorem failure?_ofDeclarations (declarations : List (String × Slot)) :
    failure? (ofDeclarations declarations) = declarations.findSome? fun declaration =>
      (keyFault? (components declaration.1)).map (.malformed declaration.1) := by
  rw [← snd_writeAll empty, ofDeclarations]
  rcases empty.writeAll declarations with ⟨registry, error⟩
  cases error <;> rfl

theorem tidy_ofDeclarations (h : ofDeclarations declarations = .ok registry) :
    registry.root.Tidy := by
  have hempty : empty.root.Tidy := Node.Tidy.empty
  have htidy := tidy_writeAll hempty declarations
  rw [writeAll_of_ofDeclarations h] at htidy
  exact htidy

end Registry

namespace RouteGroup

variable {group : RouteGroup} {registry : Registry}

/-- The path keys of the group, in the order in which they are written. -/
def keys (group : RouteGroup) : List String :=
  group.routes.map (·.1) ++ group.reserved

/-- The error of the first key that is no good. -/
def malformed? (group : RouteGroup) : Option CompileError :=
  group.keys.findSome? fun key => (keyFault? (components key)).map (.malformed key)

/-- The number of the first key that leads through the node at the end of the steps. -/
def created (group : RouteGroup) : List Step → Nat :=
  Node.firstThrough (group.keys.map fun key => (Address.ofKey key).steps)

/-- A live declaration is a route that has no tree. -/
structure Fails (group : RouteGroup) (address : Address) (error : CompileError) : Prop where
  live : group.table.Live address
  failure : ∃ route, group.table address = some (.route route) ∧ route.toTree .empty = .error error

/-- No other live route without a tree comes before this one. -/
structure FailsFirst (group : RouteGroup) (address : Address) (error : CompileError) : Prop
    extends group.Fails address error where
  before_others : ∀ other otherError, group.Fails other otherError → other ≠ address →
    address.Before group.created other

theorem map_fst_declarations (group : RouteGroup) :
    group.declarations.map (·.1) = group.keys := by
  unfold declarations keys
  rw [List.map_append, List.map_map, List.map_map]
  congr 1
  exact List.map_id _

theorem failure?_registry (group : RouteGroup) :
    failure? (Registry.ofDeclarations group.declarations) = group.malformed? := by
  rw [Registry.failure?_ofDeclarations, malformed?, ← map_fst_declarations, List.findSome?_map]
  rfl

theorem failure?_compile (hregistry : Registry.ofDeclarations group.declarations = .ok registry) :
    failure? group.compile = firstFailure? registry.root.visible := by
  rw [← Node.failure?_toTree 0, compile, hregistry]
  exact failure?_bind_pure ..

theorem mem_visible_iff (hregistry : Registry.ofDeclarations group.declarations = .ok registry)
    {address : Address} {slot : Slot} :
    (address, slot) ∈ registry.root.visible ↔
      group.table.Live address ∧ group.table address = some slot := by
  rw [Node.mem_visible_iff (Registry.tidy_ofDeclarations hregistry),
    Registry.find?_ofDeclarations hregistry]
  rfl

theorem fails_iff (hregistry : Registry.ofDeclarations group.declarations = .ok registry)
    {address : Address} {error : CompileError} :
    group.Fails address error ↔
      ∃ slot, (address, slot) ∈ registry.root.visible ∧ slot.failure? = some error := by
  constructor
  · rintro ⟨hlive, route, hroute, herror⟩
    refine ⟨.route route, (mem_visible_iff hregistry).mpr ⟨hlive, hroute⟩, ?_⟩
    exact failure?_eq_some_iff.mpr herror
  · rintro ⟨slot, hmem, herror⟩
    obtain ⟨hlive, hslot⟩ := (mem_visible_iff hregistry).mp hmem
    cases slot with
    | reserved => cases herror
    | route route => exact ⟨hlive, route, hslot, failure?_eq_some_iff.mp herror⟩

theorem inOrder_visible (hregistry : Registry.ofDeclarations group.declarations = .ok registry) :
    Node.InOrder group.created registry.root.visible := by
  have hgrown := Registry.grownBy_ofDeclarations hregistry
  have hwalks : group.declarations.map (fun declaration => (Address.ofKey declaration.1).steps) =
      group.keys.map fun key => (Address.ofKey key).steps := by
    rw [← map_fst_declarations, List.map_map]
    rfl
  rw [hwalks] at hgrown
  exact Node.inOrder_visible (Registry.tidy_ofDeclarations hregistry) hgrown.ordered

/-- Of the declarations that a construction goes through, the first that fails does so before
all the others that do. -/
theorem firstFailure?_visible_iff
    (hregistry : Registry.ofDeclarations group.declarations = .ok registry)
    {error : CompileError} :
    firstFailure? registry.root.visible = some error ↔
      ∃ address, group.FailsFirst address error := by
  rw [firstFailure?, findSome?_eq_some_iff_of_pairwise Address.Before.asymm
    (inOrder_visible hregistry)]
  constructor
  · rintro ⟨⟨address, slot⟩, hmem, hfailure, hleast⟩
    refine ⟨address, (fails_iff hregistry).mpr ⟨slot, hmem, hfailure⟩, ?_⟩
    intro other otherError hfails hne
    obtain ⟨held, hheld, herror⟩ := (fails_iff hregistry).mp hfails
    apply hleast (other, held) hheld
    · simp [herror]
    · intro heq
      exact hne (congrArg Prod.fst heq)
  · rintro ⟨address, hfails, hbefore⟩
    obtain ⟨slot, hmem, hfailure⟩ := (fails_iff hregistry).mp hfails
    refine ⟨(address, slot), hmem, hfailure, ?_⟩
    rintro ⟨other, held⟩ hheld herror hne
    obtain ⟨otherError, hother⟩ := Option.ne_none_iff_exists'.mp herror
    apply hbefore other otherError ((fails_iff hregistry).mpr ⟨held, hheld, hother⟩)
    -- an address holds one declaration only
    rintro rfl
    have hslot := ((mem_visible_iff hregistry).mp hmem).2
    have hsame := ((mem_visible_iff hregistry).mp hheld).2
    rw [hslot, Option.some.injEq] at hsame
    exact hne (by rw [hsame])

/-- **When a compilation fails, and with what.**  A key that is no good is reported first, and
of several the first.  With good keys only, a compilation fails if some live route has no tree,
and then with the error of the one that is met first. -/
theorem compile_fails_iff (group : RouteGroup) :
    (∀ error, group.malformed? = some error → group.compile = .error error) ∧
      (group.malformed? = none →
        ((∃ error, group.compile = .error error) ↔ ∃ address error, group.Fails address error) ∧
          ∀ error, group.compile = .error error ↔ ∃ address, group.FailsFirst address error) := by
  constructor
  · intro error hmalformed
    rw [← failure?_registry, failure?_eq_some_iff] at hmalformed
    rw [compile, hmalformed]
    rfl
  · intro hgood
    rw [← failure?_registry, failure?_eq_none_iff] at hgood
    obtain ⟨registry, hregistry⟩ := hgood
    have hfirst : ∀ error, group.compile = .error error ↔
        ∃ address, group.FailsFirst address error := by
      intro error
      rw [← failure?_eq_some_iff, failure?_compile hregistry, firstFailure?_visible_iff hregistry]
    refine ⟨⟨?_, ?_⟩, hfirst⟩
    · rintro ⟨error, herror⟩
      obtain ⟨address, hfails, -⟩ := (hfirst error).mp herror
      exact ⟨address, error, hfails⟩
    · rintro ⟨address, error, hfails⟩
      obtain ⟨slot, hmem, hfailure⟩ := (fails_iff hregistry).mp hfails
      have hsome : firstFailure? registry.root.visible ≠ none := by
        intro hnone
        have hslot := List.findSome?_eq_none_iff.mp hnone _ hmem
        rw [hslot] at hfailure
        cases hfailure
      obtain ⟨first, hvisible⟩ := Option.ne_none_iff_exists'.mp hsome
      refine ⟨first, ?_⟩
      rw [← failure?_eq_some_iff, failure?_compile hregistry, hvisible]

/-- Routes without a tree: one is replaced, one lies under an override, and two are live. -/
def newspaper : RouteGroup where
  routes := [("/news/today/", .page (.plain "/news/today/" "news/today")),
    ("/about/", .page (.plain "/:page/*page/" "about")),
    ("/news/", .page (.plain "/:issue/:issue/" "news")),
    ("/news/today/", .page (.plain "/*day/today/" "news/today")),
    ("/staff/:id/", .page (.plain "/staff/:/" "staff")),
    ("/news/:/today/", .page (.plain "/news/today/" "news/today")),
    ("news/today", .page (.plain "/news/today/" "news/today"))]
  reserved := ["/staff/\\/"]

/-- The child for the news is older than that for the page about the paper, so its error is
reported, although its route was declared later.  A key that is no good is reported before
both. -/
theorem compile_fails_iff_newspaper :
    newspaper.compile = .error (.collision "/:issue/:issue/" "issue") ∧
      (∃ address, newspaper.FailsFirst address (.collision "/:issue/:issue/" "issue")) ∧
      { newspaper with reserved := ["/staff/", "/\\/staff/", "//"] }.compile =
        .error (.malformed "/\\/staff/" .overrideNotLast) := by
  have herror : newspaper.compile = .error (.collision "/:issue/:issue/" "issue") :=
    failure?_eq_some_iff.mp (by decide +kernel)
  have hgood : newspaper.malformed? = none := by decide +kernel
  refine ⟨herror, ?_, ?_⟩
  · exact (((compile_fails_iff newspaper).2 hgood).2 _).mp herror
  · exact (compile_fails_iff _).1 _ (by decide +kernel)

end RouteGroup
end RouteTree
