import RouteTree.Proofs.CompileFailure

/-!
# The keys that a registry accepts

A registry looks at a key before it walks along it, to find an asterisk that is not in the last
component, and then once more at every component that it comes to.  It may stop early, at a
catch-all or at an override.  All the same it accepts a key, in whatever state it is, exactly if
the components of the key have the right form (`IsPathKey`).

Of several faults the key is refused for one: `Refusal` says for which.  An inner asterisk comes
first wherever it stands, because it is looked for before the walk.  After that the walk stops at
the leftmost component that is empty or marks an override too early
(`componentFault?_eq_some_iff`).
-/

namespace RouteTree

/-- A component before the last starts with an asterisk. -/
def HasInnerAsterisk (parts : List String) : Prop :=
  ∃ part ∈ parts.dropLast, part.toList.head? = some '*'

/-- The components of a path key: only the last may start with an asterisk or mark an override,
and none is empty. -/
structure IsPathKey (parts : List String) : Prop where
  inner : ∀ part ∈ parts.dropLast, part.toList.head? ≠ some '*' ∧ part ≠ overrideMark
  not_empty : "" ∉ parts

/-- What a key with these components is refused for. -/
inductive Refusal (parts : List String) : PatternFault → Prop
  /-- an inner asterisk, whatever else is wrong -/
  | asterisk (hasterisk : HasInnerAsterisk parts) : Refusal parts .catchAllNotLast
  /-- the mark of an override that is not the last component, and the first one at fault -/
  | mark {before after : List String} (hparts : parts = before ++ overrideMark :: after)
      (hmore : after ≠ []) (hbefore : ∀ part ∈ before, part ≠ "" ∧ part ≠ overrideMark)
      (hasterisk : ¬ HasInnerAsterisk parts) : Refusal parts .overrideNotLast
  /-- an empty component that is the first one at fault -/
  | empty {before after : List String} (hparts : parts = before ++ "" :: after)
      (hbefore : ∀ part ∈ before, part ≠ "" ∧ part ≠ overrideMark)
      (hasterisk : ¬ HasInnerAsterisk parts) : Refusal parts .emptySegment

/-! ## The leftmost fault -/

theorem componentFault?_eq_none_iff {parts : List String} :
    componentFault? parts = none ↔
      "" ∉ parts ∧ ∀ part ∈ parts.dropLast, part ≠ overrideMark := by
  induction parts with
  | nil => simp [componentFault?]
  | cons first rest ih =>
      rw [componentFault?]
      by_cases hempty : first = ""
      · simp [hempty]
      · by_cases hmore : rest = []
        · simp [hmore, componentFault?, Ne.symm hempty, hempty]
        · rw [List.dropLast_cons_of_ne_nil hmore, List.forall_mem_cons]
          by_cases hmark : first = overrideMark
          · rw [if_neg hempty, if_pos ⟨hmark, hmore⟩]
            simp [hmark]
          · simp [hempty, Ne.symm hempty, hmark, ih]

/-- The fault is that of a component with nothing wrong before it. -/
theorem componentFault?_eq_some_iff {parts : List String} {fault : PatternFault} :
    componentFault? parts = some fault ↔
      ∃ before part after, parts = before ++ part :: after ∧
        (∀ earlier ∈ before, earlier ≠ "" ∧ earlier ≠ overrideMark) ∧
        (part = "" ∧ fault = .emptySegment ∨
          part = overrideMark ∧ after ≠ [] ∧ fault = .overrideNotLast) := by
  induction parts with
  | nil => simp [componentFault?]
  | cons first rest ih =>
      -- the component is the first one, or one of the rest and nothing is wrong with the first
      have hsplit : (∃ before part after, first :: rest = before ++ part :: after ∧
          (∀ earlier ∈ before, earlier ≠ "" ∧ earlier ≠ overrideMark) ∧
          (part = "" ∧ fault = .emptySegment ∨
            part = overrideMark ∧ after ≠ [] ∧ fault = .overrideNotLast)) ↔
          (first = "" ∧ fault = .emptySegment ∨
            first = overrideMark ∧ rest ≠ [] ∧ fault = .overrideNotLast) ∨
          ((first ≠ "" ∧ first ≠ overrideMark) ∧ componentFault? rest = some fault) := by
        rw [ih]
        constructor
        · rintro ⟨before, part, after, hparts, hbefore, hfault⟩
          cases before with
          | nil =>
              cases hparts
              exact .inl hfault
          | cons earlier before =>
              cases hparts
              obtain ⟨hfirst, hbefore⟩ := List.forall_mem_cons.mp hbefore
              exact .inr ⟨hfirst, before, part, after, rfl, hbefore, hfault⟩
        · rintro (hfault | ⟨hfirst, before, part, after, rfl, hbefore, hfault⟩)
          · exact ⟨[], first, rest, rfl, by simp, hfault⟩
          · exact ⟨first :: before, part, after, rfl,
              List.forall_mem_cons.mpr ⟨hfirst, hbefore⟩, hfault⟩
      rw [hsplit, componentFault?, @eq_comm _ fault, @eq_comm _ fault]
      by_cases hempty : first = ""
      · subst hempty
        have hmark : "" ≠ overrideMark := by decide
        simp [hmark]
      · by_cases hmark : first = overrideMark
        · subst hmark
          cases rest with
          | nil => simp [componentFault?, hempty]
          | cons next rest => simp [hempty]
        · simp [hempty, hmark]

/-! ## The fault of a key -/

theorem keyFault?_eq_none_iff {parts : List String} : keyFault? parts = none ↔ IsPathKey parts := by
  unfold keyFault?
  split
  · rename_i hasterisk
    obtain ⟨part, hpart, hhead⟩ := hasterisk
    simp only [reduceCtorEq, false_iff]
    intro h
    exact (h.inner part hpart).1 hhead
  · rename_i hasterisk
    rw [componentFault?_eq_none_iff]
    constructor
    · rintro ⟨hempty, hmark⟩
      refine ⟨?_, hempty⟩
      intro part hpart
      exact ⟨fun hhead => hasterisk ⟨part, hpart, hhead⟩, hmark part hpart⟩
    · intro h
      exact ⟨h.not_empty, fun part hpart => (h.inner part hpart).2⟩

theorem keyFault?_eq_some_iff {parts : List String} {fault : PatternFault} :
    keyFault? parts = some fault ↔ Refusal parts fault := by
  unfold keyFault?
  split
  · rename_i hasterisk
    constructor
    · rintro ⟨⟩
      exact .asterisk hasterisk
    · intro h
      cases h with
      | asterisk _ => rfl
      | mark _ _ _ hnone => exact absurd hasterisk hnone
      | empty _ _ hnone => exact absurd hasterisk hnone
  · rename_i hasterisk
    rw [componentFault?_eq_some_iff]
    constructor
    · rintro ⟨before, part, after, hparts, hbefore, ⟨rfl, rfl⟩ | ⟨rfl, hmore, rfl⟩⟩
      · exact .empty hparts hbefore hasterisk
      · exact .mark hparts hmore hbefore hasterisk
    · intro h
      cases h with
      | asterisk hsome => exact absurd hsome hasterisk
      | mark hparts hmore hbefore _ =>
          exact ⟨_, _, _, hparts, hbefore, .inr ⟨rfl, hmore, rfl⟩⟩
      | empty hparts hbefore _ => exact ⟨_, _, _, hparts, hbefore, .inl ⟨rfl, rfl⟩⟩

namespace Registry

/-- **A registry accepts the path keys and no others**, whatever has been declared in it before
and whatever is to be declared now.  The error for any other key carries the key as it is spelled
and the one fault that it is refused for. -/
theorem insert_accepts_iff (registry : Registry) (key : String) (endpoint : Endpoint) :
    ((registry.insert key endpoint).2 = none ↔ IsPathKey (components key)) ∧
      ((registry.reserve [key]).2 = none ↔ IsPathKey (components key)) ∧
      ∀ error,
        ((registry.insert key endpoint).2 = some error ↔
          ∃ fault, Refusal (components key) fault ∧ error = .malformed key fault) ∧
        ((registry.reserve [key]).2 = some error ↔
          ∃ fault, Refusal (components key) fault ∧ error = .malformed key fault) := by
  have hinsert : (registry.insert key endpoint).2 =
      (keyFault? (components key)).map (.malformed key) := snd_write ..
  have hreserve : (registry.reserve [key]).2 =
      (keyFault? (components key)).map (.malformed key) :=
    (congrArg Prod.snd (writeAll_singleton ..)).trans (snd_write ..)
  have hnone : (keyFault? (components key)).map (CompileError.malformed key) = none ↔
      IsPathKey (components key) := by
    rw [Option.map_eq_none_iff, keyFault?_eq_none_iff]
  have hsome : ∀ error, (keyFault? (components key)).map (CompileError.malformed key) =
      some error ↔ ∃ fault, Refusal (components key) fault ∧ error = .malformed key fault := by
    intro error
    simp only [Option.map_eq_some_iff, keyFault?_eq_some_iff, @eq_comm _ error]
  rw [hinsert, hreserve]
  exact ⟨hnone, hnone, fun error => ⟨hsome error, hsome error⟩⟩

/-- The asterisk is reported, though it is the last of three faults. -/
example : ((empty.reserve ["/docs//\\/*rest/edit"]).2.map CompileError.message) =
    some "MALFORMED_PATTERN: /docs//\\/*rest/edit: catch-all must be the last segment" := by
  decide +kernel

end Registry
end RouteTree
