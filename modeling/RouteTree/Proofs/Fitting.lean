import RouteTree.Proofs.Binding
import RouteTree.Proofs.Matching

/-!
# Filling a pattern gives the request back

A pattern *fits* a list of components when its literals are among them, each in its
place, and its parameters stand where there is something to bind.  `Fits.of_matches` says
that a path key fits the requests that its address accepts, and `Fits.of_nameless_eq`
that the names of the parameters play no part in this, so that a pattern spelled with
other names fits as well.

A parameter that is bound to what stands at its position can be filled in again.
`Fits.exists_substitute` does so for a whole pattern, or for the beginning of one: what
it spells then is the request, or the beginning of it.
-/

namespace RouteTree

/-! ## Fitting -/

/-- The segment without the name of its parameter. -/
def Segment.nameless : Segment → Segment
  | .literal text => .literal text
  | .dynamic _ => .dynamic ""
  | .catchAll _ => .catchAll ""

/-- The pattern takes up the components, to the last one: a literal takes itself, a
parameter one component that is not empty, and a catch-all at the end the rest, which
starts with such a component. -/
inductive Fits : List Segment → List String → Prop
  | nil : Fits [] []
  | literal (text : String) {rest : List Segment} {texts : List String}
      (hrest : Fits rest texts) : Fits (.literal text :: rest) (text :: texts)
  | dynamic (name : String) {component : String} {rest : List Segment} {texts : List String}
      (hne : component ≠ "") (hrest : Fits rest texts) :
      Fits (.dynamic name :: rest) (component :: texts)
  | catchAll (name : String) {first : String} {others : List String} (hne : first ≠ "") :
      Fits [.catchAll name] (first :: others)

namespace Fits

variable {pattern full : List Segment} {texts request : List String}

theorem of_nameless_eq (hfits : Fits pattern texts) {other : List Segment}
    (hshape : other.map Segment.nameless = pattern.map Segment.nameless) :
    Fits other texts := by
  induction hfits generalizing other with
  | nil =>
      obtain rfl := List.map_eq_nil_iff.mp hshape
      exact .nil
  | literal text hrest ih =>
      obtain ⟨segment, rest, rfl, hsegment, htail⟩ := List.map_eq_cons_iff.mp hshape
      cases segment with
      | literal other =>
          cases hsegment
          exact .literal text (ih htail)
      | _ => cases hsegment
  | dynamic name hne hrest ih =>
      obtain ⟨segment, rest, rfl, hsegment, htail⟩ := List.map_eq_cons_iff.mp hshape
      cases segment with
      | dynamic other => exact .dynamic other hne (ih htail)
      | _ => cases hsegment
  | catchAll name hne =>
      obtain ⟨segment, rest, rfl, hsegment, htail⟩ := List.map_eq_cons_iff.mp hshape
      obtain rfl := List.map_eq_nil_iff.mp htail
      cases segment with
      | catchAll other => exact .catchAll other hne
      | _ => cases hsegment

theorem catchAll_last (hfits : Fits pattern texts) {index : Nat} {name : String}
    (hsegment : pattern[index]? = some (.catchAll name)) : index + 1 = pattern.length := by
  induction hfits generalizing index with
  | nil => simp at hsegment
  | literal text hrest ih =>
      cases index with
      | zero => simp at hsegment
      | succ index => simpa using ih (by simpa using hsegment)
  | dynamic other hne hrest ih =>
      cases index with
      | zero => simp at hsegment
      | succ index => simpa using ih (by simpa using hsegment)
  | catchAll other hne =>
      cases index with
      | zero => rfl
      | succ index => simp at hsegment

/-- A parameter stands where there is something to bind. -/
theorem exists_component (hfits : Fits pattern texts) {index : Nat} {segment : Segment}
    (hsegment : pattern[index]? = some segment) (hparam : ∀ text, segment ≠ .literal text) :
    ∃ component, texts[index]? = some component ∧ component ≠ "" := by
  induction hfits generalizing index with
  | nil => simp at hsegment
  | literal text hrest ih =>
      cases index with
      | zero => exact absurd (by simpa using hsegment.symm) (hparam text)
      | succ index => simpa using ih (by simpa using hsegment)
  | dynamic name hne hrest ih =>
      cases index with
      | zero => exact ⟨_, rfl, hne⟩
      | succ index => simpa using ih (by simpa using hsegment)
  | catchAll name hne =>
      cases index with
      | zero => exact ⟨_, rfl, hne⟩
      | succ index => simp at hsegment

/-! ## Keys fit what they match -/

/-- A component that a step accepts is taken up by the segment of the step. -/
theorem cons_of_accepts {component first : String} {rest : List Segment}
    (hsegment : (Segment.ofComponent component).isCatchAll = false)
    (haccepts : (Step.ofComponent component).Accepts first) (hrest : Fits rest texts) :
    Fits (Segment.ofComponent component :: rest) (first :: texts) := by
  obtain ⟨hne, hstep⟩ := haccepts
  cases hkind : Segment.ofComponent component with
  | catchAll name =>
      rw [hkind] at hsegment
      cases hsegment
  | dynamic name => exact .dynamic name hne hrest
  | literal text =>
      obtain rfl := Segment.ofComponent_literal hkind
      obtain rfl : text = first := by simpa [Step.ofComponent, hkind] using hstep
      exact .literal text hrest

theorem of_matches_singleton {component : String}
    (hplace : (Address.ofComponents [component]).place ≠ .override)
    (hmatches : (Address.ofComponents [component]).Matches request) :
    Fits [Segment.ofComponent component] request := by
  have hmark : component ≠ overrideMark := by
    rintro rfl
    exact hplace rfl
  cases hsegment : (Segment.ofComponent component).isCatchAll with
  | true =>
      have haddress : Address.ofComponents [component] = ⟨[], .catchAll⟩ := by
        simp [Address.ofComponents, Place.ofLast, hmark, hsegment]
      -- all that a catch-all asks of the request is its next component
      rw [haddress, Address.matches_root] at hmatches
      obtain ⟨first, hfirst, hne⟩ := hmatches
      obtain ⟨others, rfl⟩ : ∃ others, request = first :: others :=
        List.head?_eq_some_iff.mp (by rwa [List.head?_eq_getElem?])
      cases hkind : Segment.ofComponent component with
      | catchAll name => exact .catchAll name hne
      | _ => simp [hkind, Segment.isCatchAll] at hsegment
  | false =>
      have haddress : Address.ofComponents [component] =
          Address.after (Step.ofComponent component) ⟨[], .exact⟩ := by
        simp [Address.ofComponents, Place.ofLast, hmark, hsegment, Address.after]
      rw [haddress] at hmatches
      cases request with
      | nil => exact absurd hmatches (Address.not_matches_after_nil _ _)
      | cons first texts =>
          obtain ⟨haccepts, hend⟩ := (Address.matches_after_cons ..).mp hmatches
          obtain rfl : texts = [] := by
            simpa [Place.Accepts, eq_comm] using (Address.matches_root ..).mp hend
          exact cons_of_accepts hsegment haccepts .nil

/-- A path key fits the requests that its address accepts. -/
theorem of_matches {parts : List String}
    (hlast : hasMisplacedCatchAll (parts.map Segment.ofComponent) = false)
    (hplace : (Address.ofComponents parts).place ≠ .override)
    (hmatches : (Address.ofComponents parts).Matches request) :
    Fits (parts.map Segment.ofComponent) request := by
  induction parts generalizing request with
  | nil =>
      obtain rfl : request = [] := by
        simpa [Place.Accepts, eq_comm] using (Address.matches_root ..).mp hmatches
      exact .nil
  | cons component rest ih =>
      by_cases hmore : rest = []
      · subst hmore
        exact of_matches_singleton hplace hmatches
      · obtain ⟨hfirst, hrest⟩ := (hasMisplacedCatchAll_cons (by simpa using hmore)).mp hlast
        rw [Address.ofComponents_cons component hmore] at hplace hmatches
        cases request with
        | nil => exact absurd hmatches (Address.not_matches_after_nil _ _)
        | cons first texts =>
            obtain ⟨haccepts, hmatches⟩ := (Address.matches_after_cons ..).mp hmatches
            exact cons_of_accepts hfirst haccepts (ih hrest hplace hmatches)

end Fits

/-! ## Filling in -/

/-- The binding that a segment at a position stands for; a literal stands for none. -/
def Segment.binding? (index : Nat) : Segment → Option Binding
  | .literal _ => none
  | .dynamic name => some (.dynamic name index)
  | .catchAll name => some (.catchAll name index)

theorem Segment.index_of_binding? {segment : Segment} {index : Nat} {binding : Binding}
    (h : segment.binding? index = some binding) : binding.index = index := by
  cases segment <;> cases h <;> rfl

namespace Params

/-- What a segment spells with its parameter filled in: a literal itself, a dynamic
segment the one component that it is bound to, and a catch-all all of its components.
A parameter that is not bound, or bound to the other sort of value, cannot be filled
in. -/
def fill (params : Params) : Segment → Option (List String)
  | .literal text => some [text]
  | .dynamic name =>
    match params.get? name with
    | some (.single text) => some [text]
    | _ => none
  | .catchAll name =>
    match params.get? name with
    | some (.rest texts) => some texts
    | _ => none

/-- What a pattern spells with all its parameters filled in. -/
def substitute (params : Params) : List Segment → Option (List String)
  | [] => some []
  | segment :: rest =>
    match params.fill segment, params.substitute rest with
    | some texts, some more => some (texts ++ more)
    | _, _ => none

/-- Every parameter of a pattern that starts at a position is bound to what stands at its
own position of the request. -/
def Hold (params : Params) (request : List String) (index : Nat) (pattern : List Segment) :
    Prop :=
  ∀ (j : Nat) (segment : Segment) (binding : Binding), pattern[j]? = some segment →
    segment.binding? (index + j) = some binding →
      params.get? binding.name = some (binding.value request)

theorem Hold.head {params : Params} {request : List String} {index : Nat} {segment : Segment}
    {rest : List Segment} (hhold : params.Hold request index (segment :: rest))
    {binding : Binding} (hbinding : segment.binding? index = some binding) :
    params.get? binding.name = some (binding.value request) :=
  hhold 0 segment binding rfl hbinding

theorem Hold.tail {params : Params} {request : List String} {index : Nat} {segment : Segment}
    {rest : List Segment} (hhold : params.Hold request index (segment :: rest)) :
    params.Hold request (index + 1) rest := by
  intro j found binding hfound hbinding
  exact hhold (j + 1) found binding (by simpa using hfound)
    (by rwa [← Nat.add_assoc, Nat.add_right_comm])

end Params

/-- A segment that spells one component of the request goes on with the rest of it. -/
theorem Params.exists_substitute_cons {params : Params} {segment : Segment}
    {component : String} (hfill : params.fill segment = some [component])
    {pattern full : List Segment} {texts : List String}
    (hrest : ∃ filled, params.substitute pattern = some filled ∧ filled <+: texts ∧
      (pattern.length = full.length → filled = texts)) :
    ∃ filled, params.substitute (segment :: pattern) = some filled ∧
      filled <+: component :: texts ∧
        (pattern.length + 1 = full.length + 1 → filled = component :: texts) := by
  obtain ⟨filled, hfilled, hbegins, hall⟩ := hrest
  refine ⟨component :: filled, ?_, List.cons_prefix_cons.mpr ⟨rfl, hbegins⟩, fun hlength => ?_⟩
  · simp [substitute, hfill, hfilled]
  · rw [hall (Nat.succ.inj hlength)]

/-- The beginning of a pattern that fits a request spells, once its parameters are filled
in, the beginning of the request, and the whole pattern all of it.  The induction is on
the fit, position by position. -/
theorem Fits.exists_substitute {full : List Segment} {texts : List String}
    (hfits : Fits full texts) {request : List String} {index : Nat}
    (htexts : request.drop index = texts) {pattern : List Segment} (hbegins : pattern <+: full)
    {params : Params} (hhold : params.Hold request index pattern) :
    ∃ filled, params.substitute pattern = some filled ∧ filled <+: texts ∧
      (pattern.length = full.length → filled = texts) := by
  induction hfits generalizing index pattern with
  | nil =>
      obtain rfl := List.prefix_nil.mp hbegins
      exact ⟨[], rfl, List.nil_prefix, fun _ => rfl⟩
  | literal text hrest ih =>
      cases pattern with
      | nil => exact ⟨[], rfl, List.nil_prefix, fun hlength => by simp at hlength⟩
      | cons segment pattern =>
          obtain ⟨rfl, hmore⟩ := List.cons_prefix_cons.mp hbegins
          obtain ⟨-, hnext⟩ := of_drop_eq_cons htexts
          exact Params.exists_substitute_cons rfl (ih hnext hmore hhold.tail)
  | dynamic name hne hrest ih =>
      cases pattern with
      | nil => exact ⟨[], rfl, List.nil_prefix, fun hlength => by simp at hlength⟩
      | cons segment pattern =>
          obtain ⟨rfl, hmore⟩ := List.cons_prefix_cons.mp hbegins
          obtain ⟨hhere, hnext⟩ := of_drop_eq_cons htexts
          have hbound := hhold.head rfl
          refine Params.exists_substitute_cons ?_ (ih hnext hmore hhold.tail)
          simp only [Binding.name, Binding.value, hhere, Option.getD_some] at hbound
          simp [Params.fill, hbound]
  | catchAll name hne =>
      cases pattern with
      | nil => exact ⟨[], rfl, List.nil_prefix, fun hlength => by simp at hlength⟩
      | cons segment pattern =>
          obtain ⟨rfl, hmore⟩ := List.cons_prefix_cons.mp hbegins
          obtain rfl := List.prefix_nil.mp hmore
          have hbound := hhold.head rfl
          simp only [Binding.name, Binding.value, htexts] at hbound
          exact ⟨_, by simp [Params.substitute, Params.fill, hbound], List.prefix_rfl,
            fun _ => rfl⟩

/-- The parameters give a request back through a pattern. -/
structure Params.Recover (params : Params) (pattern : List Segment) (size : Nat)
    (request : List String) : Prop where
  /-- filled in, the pattern spells the first components of the request, and all of them
  if it has `size` segments -/
  spelled : ∃ filled, params.substitute pattern = some filled ∧ filled <+: request ∧
    (pattern.length = size → filled = request)
  /-- a dynamic segment stands for a component that is not empty -/
  single : ∀ name, .dynamic name ∈ pattern →
    ∃ text, params.get? name = some (.single text) ∧ text ≠ ""
  /-- a catch-all stands for at least one component, and the first is not empty -/
  rest : ∀ name, .catchAll name ∈ pattern →
    ∃ first others, params.get? name = some (.rest (first :: others)) ∧ first ≠ ""

/-- Parameters that hold the beginning of a pattern that fits the request give the request
back. -/
theorem Fits.recover {full pattern : List Segment} {request : List String} {params : Params}
    (hfits : Fits full request) (hbegins : pattern <+: full)
    (hhold : params.Hold request 0 pattern) :
    params.Recover pattern full.length request := by
  have hparam : ∀ (j : Nat) (segment : Segment), pattern[j]? = some segment →
      (∀ text, segment ≠ .literal text) →
      ∃ component, request[j]? = some component ∧ component ≠ "" := by
    intro j segment hsegment
    obtain ⟨hj, -⟩ := List.getElem?_eq_some_iff.mp hsegment
    obtain ⟨more, rfl⟩ := hbegins
    exact hfits.exists_component (by rw [List.getElem?_append_left hj, hsegment])
  refine ⟨hfits.exists_substitute rfl hbegins hhold, ?_, ?_⟩
  · intro name hmem
    obtain ⟨j, hj⟩ := List.mem_iff_getElem?.mp hmem
    obtain ⟨component, hcomponent, hne⟩ := hparam j _ hj (by simp)
    have hvalue := hhold j _ (.dynamic name j) hj (by simp [Segment.binding?])
    exact ⟨component, by simpa [Binding.name, Binding.value, hcomponent] using hvalue, hne⟩
  · intro name hmem
    obtain ⟨j, hj⟩ := List.mem_iff_getElem?.mp hmem
    obtain ⟨component, hcomponent, hne⟩ := hparam j _ hj (by simp)
    have hvalue := hhold j _ (.catchAll name j) hj (by simp [Segment.binding?])
    have hdrop : request.drop j = component :: request.drop (j + 1) := by
      obtain ⟨hlt, rfl⟩ := List.getElem?_eq_some_iff.mp hcomponent
      exact List.drop_eq_getElem_cons hlt
    exact ⟨component, _, by simpa [Binding.name, Binding.value, hdrop] using hvalue, hne⟩

end RouteTree
