import RouteTree.Proofs.Spelling

/-!
# The history of a registry

A registry is changed by calls that declare one endpoint or reserve some keys.  A call may
fail, and `reserve` may fail after it has reserved some of its keys; the caller may go on
with the registry all the same.  The writes that succeeded, in order, are the *history* of
the registry.

`Registry.Reflects` says that a registry tells its history and nothing else: every place
holds the last write to it, and the warnings are the writes that replaced a different
declaration, each with what sort of declaration it replaced.  One write keeps this
(`Reflects.write`, and `Reflects.fail` where it fails), and what every write keeps is kept
by every run of calls (`kept_applyAll`).
-/

namespace RouteTree

/-! ## Runs of calls -/

/-- A call that changes a registry. -/
inductive Change where
  /-- declares an endpoint -/
  | insert (key : String) (endpoint : Endpoint)
  /-- reserves keys -/
  | reserve (keys : List String)

/-- What a call sets out to write.  A page is written as the route that ends at it. -/
def Change.declarations : Change → List (String × Slot)
  | .insert key endpoint => [Registry.routeEntry (key, endpoint)]
  | .reserve keys => keys.map Registry.reservation

namespace Registry

/-- Makes one call. -/
def apply (registry : Registry) : Change → Registry × Option CompileError
  | .insert key endpoint => registry.insert key endpoint
  | .reserve keys => registry.reserve keys

/-- The registry after a run of calls.  A call that fails does not end the run. -/
def applyAll (registry : Registry) (changes : List Change) : Registry :=
  changes.foldl (fun registry change => (registry.apply change).1) registry

theorem writeAll_singleton (registry : Registry) (key : String) (slot : Slot) :
    registry.writeAll [(key, slot)] = registry.write key slot := by
  rw [writeAll]
  rcases registry.write key slot with ⟨next, error⟩
  cases error <;> rfl

theorem apply_eq_writeAll (registry : Registry) (change : Change) :
    registry.apply change = registry.writeAll change.declarations := by
  cases change with
  | insert key endpoint => exact (writeAll_singleton ..).symm
  | reserve keys => rfl

/-- The writes among some declarations that succeed: those before the first that fails. -/
def written (registry : Registry) : List (String × Slot) → List (String × Slot)
  | [] => []
  | (key, slot) :: rest =>
    match registry.write key slot with
    | (registry, none) => (key, slot) :: registry.written rest
    | (_, some _) => []

/-- The writes that succeed in a run of calls. -/
def history (registry : Registry) : List Change → List (String × Slot)
  | [] => []
  | change :: rest =>
    registry.written change.declarations ++ (registry.apply change).1.history rest

/-! ### What every write keeps

`Kept` is a property of a registry and its history that writes keep, whether they succeed
or fail.  Runs of calls keep it too. -/

section Runs

variable {Kept : Registry → List (String × Slot) → Prop}
  (hwrite : ∀ {registry next : Registry} {writes : List (String × Slot)} {key : String}
    {slot : Slot}, Kept registry writes → registry.write key slot = (next, none) →
      Kept next (writes ++ [(key, slot)]))
  (hfail : ∀ {registry next : Registry} {writes : List (String × Slot)} {key : String}
    {slot : Slot} {error : CompileError}, Kept registry writes →
      registry.write key slot = (next, some error) → Kept next writes)

include hwrite hfail

theorem kept_writeAll {registry : Registry} {writes : List (String × Slot)}
    (h : Kept registry writes) (declarations : List (String × Slot)) :
    Kept (registry.writeAll declarations).1 (writes ++ registry.written declarations) := by
  induction declarations generalizing registry writes with
  | nil => simpa [writeAll, written] using h
  | cons first rest ih =>
      obtain ⟨key, slot⟩ := first
      rw [writeAll, written]
      rcases hfirst : registry.write key slot with ⟨next, error⟩
      cases error with
      | none => simpa using ih (hwrite h hfirst)
      | some error => simpa using hfail h hfirst

theorem kept_applyAll {registry : Registry} {writes : List (String × Slot)}
    (h : Kept registry writes) (changes : List Change) :
    Kept (registry.applyAll changes) (writes ++ registry.history changes) := by
  induction changes generalizing registry writes with
  | nil => simpa [applyAll, history] using h
  | cons change rest ih =>
      have hstep := kept_writeAll @hwrite @hfail h change.declarations
      rw [← apply_eq_writeAll] at hstep
      rw [history, ← List.append_assoc]
      exact ih hstep

end Runs

end Registry

/-! ## What a history replaced -/

/-- The warning about a write after others: none if the latest of these to the same
address wrote the same. -/
def replacement? (earlier : List (String × Slot)) (key : String) (slot : Slot) :
    Option Overwrite :=
  ((Table.ofDeclarations earlier (Address.ofKey key)).filter (· ≠ slot)).map fun old =>
    ⟨key, old = .reserved⟩

/-- The warnings about some writes after others, in the order of the writes. -/
def replacementsAfter (earlier : List (String × Slot)) : List (String × Slot) → List Overwrite
  | [] => []
  | (key, slot) :: later =>
    (replacement? earlier key slot).toList ++
      replacementsAfter (earlier ++ [(key, slot)]) later

/-- The warnings about a history. -/
def replacements (writes : List (String × Slot)) : List Overwrite :=
  replacementsAfter [] writes

theorem replacementsAfter_append (earlier first second : List (String × Slot)) :
    replacementsAfter earlier (first ++ second) =
      replacementsAfter earlier first ++ replacementsAfter (earlier ++ first) second := by
  induction first generalizing earlier with
  | nil => simp [replacementsAfter]
  | cons write rest ih =>
      obtain ⟨key, slot⟩ := write
      simp only [List.cons_append, replacementsAfter, ih, List.append_assoc, List.nil_append]

theorem replacements_concat (writes : List (String × Slot)) (key : String) (slot : Slot) :
    replacements (writes ++ [(key, slot)]) =
      replacements writes ++ (replacement? writes key slot).toList := by
  simp [replacements, replacementsAfter_append, replacementsAfter]

namespace Registry

/-! ## One write -/

theorem overwrites_eq (key : String) (old : Option Slot) (slot : Slot) :
    overwrites key old slot =
      ((old.filter (· ≠ slot)).map fun old =>
        (⟨key, old = .reserved⟩ : Overwrite)).toList := by
  cases old with
  | none => rfl
  | some old => by_cases hsame : old = slot <;> simp [overwrites, hsame, Option.filter]

theorem warnings_write {registry next : Registry} {key : String} {slot : Slot}
    (hwrite : registry.write key slot = (next, none)) :
    next.warnings =
      registry.warnings ++ overwrites key (registry.root.find? (Address.ofKey key)) slot := by
  unfold write at hwrite
  cases hending : (Walk.ofKey key).ending with
  | error fault => simp [hending] at hwrite
  | ok place =>
      simp only [hending, Prod.mk.injEq, and_true] at hwrite
      rw [← hwrite, Walk.ofKey_eq_of_ending hending]

/-- A write that fails changes no place and no warning. -/
theorem unchanged_of_write {registry next : Registry} {key : String} {slot : Slot}
    {error : CompileError} (hwrite : registry.write key slot = (next, some error)) :
    next.root.find? = registry.root.find? ∧ next.warnings = registry.warnings := by
  unfold write at hwrite
  cases hending : (Walk.ofKey key).ending with
  | ok place => simp [hending] at hwrite
  | error fault =>
      simp only [hending, Prod.mk.injEq] at hwrite
      obtain ⟨rfl, -⟩ := hwrite
      have hid : ∀ (node : Node) step, (id node).child? step = node.child? step :=
        fun _ _ => rfl
      refine ⟨funext fun address => (Node.find?_update hid ..).trans ?_, rfl⟩
      split
      · -- the node in front of the fault may be new, and is empty then
        rename_i hsteps
        cases hat : registry.root.at? (Walk.ofKey key).steps <;>
          simp [Node.find?, hsteps, hat]
      · rfl

/-- A registry that tells a history. -/
structure Reflects (registry : Registry) (writes : List (String × Slot)) : Prop where
  /-- every place holds the last write to it -/
  find?_eq : registry.root.find? = Table.ofDeclarations writes
  /-- the warnings are about the writes that replaced a different declaration -/
  warnings_eq : registry.warnings = replacements writes

namespace Reflects

variable {registry next : Registry} {writes : List (String × Slot)} {key : String} {slot : Slot}

theorem empty : Registry.empty.Reflects [] :=
  ⟨funext Node.find?_empty, rfl⟩

/-- A write that succeeds makes history. -/
theorem write (h : registry.Reflects writes)
    (hwrite : registry.write key slot = (next, none)) :
    next.Reflects (writes ++ [(key, slot)]) where
  find?_eq := by
    funext address
    rw [find?_write hwrite, Table.ofDeclarations_concat, h.find?_eq]
  warnings_eq := by
    -- what the registry holds at the address is what the latest write there has left
    rw [warnings_write hwrite, h.warnings_eq, h.find?_eq, overwrites_eq, replacements_concat,
      replacement?]

theorem fail {error : CompileError} (h : registry.Reflects writes)
    (hwrite : registry.write key slot = (next, some error)) : next.Reflects writes := by
  obtain ⟨hfind, hwarnings⟩ := unchanged_of_write hwrite
  exact ⟨hfind.trans h.find?_eq, hwarnings.trans h.warnings_eq⟩

end Reflects

/-- After any run of calls, those that fail included, the registry tells its history: a
place holds the last successful write whose key spells its address, and the warnings are
about the successful writes that replaced a different declaration.  A write that fails
changes neither.  A write that succeeds goes to the address that its key spells, whichever
of its spellings that is, and a page is declared as the route that ends at it. -/
theorem applyAll_reflects_history (changes : List Change) :
    (empty.applyAll changes).Reflects (empty.history changes) ∧
      (∀ (registry next : Registry) key slot error,
        registry.write key slot = (next, some error) →
          next.root.find? = registry.root.find? ∧ next.warnings = registry.warnings) ∧
      (∀ key other, Relation.EqvGen Respelled key other → "" ∉ components key →
        "" ∉ components other → Walk.ofKey key = Walk.ofKey other) ∧
      (∀ (registry next : Registry) key slot, registry.write key slot = (next, none) →
        "" ∉ components key ∧
          Walk.ofKey key = ⟨(Address.ofKey key).steps, .ok (Address.ofKey key).place⟩) ∧
      (∀ key page, (Change.insert key (.page page)).declarations =
        (Change.insert key (.route (.next page))).declarations) := by
  refine ⟨?_, ?_, ?_, ?_, fun key page => rfl⟩
  · exact kept_applyAll @Reflects.write @Reflects.fail Reflects.empty changes
  · intro registry next key slot error hwrite
    exact unchanged_of_write hwrite
  · intro key other hrespelled hkey hother
    exact Walk.ofKey_eq_of_respelled hrespelled hkey hother
  · intro registry next key slot hwrite
    obtain ⟨place, hending, -⟩ := exists_place_of_write hwrite
    refine ⟨Walk.not_mem_components_of_ending hending, ?_⟩
    rw [← Walk.ofKey_eq_of_ending hending, ← hending]

/-- The first call fails after it has reserved a key.  The second declares a page there,
and the third the same page, as a route and under another spelling. -/
example : (empty.applyAll
    [.reserve ["/docs/", "/docs//edit/", "/never/"],
      .insert "docs" (.page (.plain "/docs/" "docs")),
      .insert "/docs" (.route (.next (.plain "/docs/" "docs")))]).warnings =
    [⟨"docs", true⟩] := by
  decide +kernel

end Registry
end RouteTree
