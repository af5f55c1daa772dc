import Mathlib.Data.List.Forall2
import RouteTree.Json.Route
import RouteTree.Proofs.Reading

/-!
# Endpoints in all their renderings

An endpoint can be written in many ways: the fields of each record may stand in any order, and a
field that has its default value may be written out or left out.  The sort of an endpoint is not
written at all, and the reader tells it by trying: a value that cannot be read as a route, for
whatever reason and at whatever depth, is read as a page.

`Endpoint.RenderedAs` says what is a rendering, and `Endpoint.ofJson?_of_renderedAs` that the reader
finds the endpoint in each.  The order of the members is dealt with first.  A field is looked up
among all members of its name, of which there is one at most, and so it is what it would be in any
other order (`Json.fieldsOfMembers_of_perm`).  With that an attempt at a route fails on every
rendering of a page, as there is no segment, and on a rendering of a route it succeeds if it does
on the continuations.

In a text, an endpoint may nest only so deep.  All renderings of an endpoint nest alike
(`Endpoint.isPlain_of_renderedAs`), so whether one of them can be read is a matter of the endpoint.
-/

namespace RouteTree

/-! ## Fields in any order -/

namespace Json

variable {α β : Type} {members : List (String × α)} {fields : List (String × Option α)}

/-- The fields that are present. -/
def present (fields : List (String × Option α)) : List (String × α) :=
  fields.filterMap fun (name, value) => value.map (name, ·)

theorem present_cons (name : String) (value : Option α) (rest : List (String × Option α)) :
    present ((name, value) :: rest) = (value.map (name, ·)).toList ++ present rest := by
  cases value <;> rfl

theorem map_present (f : α → β) (fields : List (String × Option α)) :
    (present fields).map (fun (name, value) => (name, f value)) =
      present (fields.map fun (name, value) => (name, value.map f)) := by
  induction fields with
  | nil => rfl
  | cons field rest ih =>
      obtain ⟨name, value⟩ := field
      rw [present_cons, List.map_append, ih, List.map_cons, present_cons]
      cases value <;> rfl

/-- Where no field stands twice, the members of a name are one at most. -/
theorem filter_present (hdistinct : (fields.map (·.1)).Nodup) (name : String) :
    (present fields).filter (·.1 = name) =
      ((fields.lookup name).join.map (name, ·)).toList := by
  induction fields with
  | nil => rfl
  | cons field rest ih =>
      obtain ⟨known, value⟩ := field
      obtain ⟨hknown, hrest⟩ := List.nodup_cons.mp hdistinct
      rw [present_cons, List.filter_append, ih hrest, lookup_cons_pair]
      by_cases hname : name = known
      · subst hname
        -- the name does not come up again, so the rest has nothing to add
        have hlookup : rest.lookup name = none := by
          rw [List.lookup_eq_none_iff]
          intro other hother
          have hmem : other.1 ∈ rest.map (·.1) := List.mem_map_of_mem hother
          simpa using fun heq : name = other.1 => hknown (heq ▸ hmem)
        rw [if_pos rfl, hlookup]
        cases value <;> simp
      · rw [if_neg hname]
        cases value <;> simp [Ne.symm hname]

theorem field?_of_perm (hmembers : members.Perm (present fields))
    (hdistinct : (fields.map (·.1)).Nodup) (name : String) :
    field? members name = some (fields.lookup name).join := by
  have hfound := hmembers.filter (·.1 = name)
  rw [filter_present hdistinct] at hfound
  unfold field?
  cases hvalue : (fields.lookup name).join with
  | none =>
      rw [hvalue] at hfound
      rw [hfound.eq_nil]
  | some value =>
      rw [hvalue] at hfound
      rw [List.perm_singleton.mp hfound]

theorem fieldsOfMembers_of_perm (hmembers : members.Perm (present fields))
    (hdistinct : (fields.map (·.1)).Nodup) (names : List String) :
    fieldsOfMembers names members = some (names.map fun name => (fields.lookup name).join) := by
  unfold fieldsOfMembers
  induction names with
  | nil => rfl
  | cons name rest ih =>
      rw [List.mapM_cons, field?_of_perm hmembers hdistinct, ih]
      rfl

/-! ## Fields with a default -/

/-- The field writes the value, or it is left out and the value is the default. -/
def Omittable (default : α) (write : α → Json) (value : α) (field : Option Json) : Prop :=
  field = some (write value) ∨ (value = default ∧ field = none)

theorem withDefault_of_omittable {default value : α} {write : α → Json} {field : Option Json}
    {read : Json → Option α} (h : Omittable default write value field)
    (hread : read (write value) = some value) : withDefault default read field = some value := by
  obtain rfl | ⟨rfl, rfl⟩ := h
  · exact hread
  · rfl

end Json

/-! ## Renderings -/

/-- The object writes the fields of the page. -/
inductive Page.RenderedAs (page : Page) : Json → Prop
  | intro {members : List (String × Json)}
      {location external rewrite redirect content : Option Json}
      (hlocation : Json.Omittable none (·.elim .null .str) page.location location)
      (hexternal : Json.Omittable false .bool page.external external)
      (hrewrite : Json.Omittable false .bool page.rewrite rewrite)
      (hredirect : Json.Omittable false .bool page.redirect redirect)
      (hcontent : Json.Omittable false .bool page.page content)
      (hmembers : members.Perm (Json.present
        [("externalPath", some (.str page.externalPath)),
          ("internalPath", some (.str page.internalPath)), ("location", location),
          ("external", external), ("rewrite", rewrite), ("redirect", redirect),
          ("page", content)])) :
      page.RenderedAs (.obj members)

/-- The name that a kind goes by besides its tag. -/
def RouteKind.name? : RouteKind → Option String
  | .dynamicForward name => some name
  | .next | .middleware | .staticForward => none

/-- The object writes the tag of the kind, and its name if it has one. -/
inductive RouteKind.RenderedAs (kind : RouteKind) : Json → Prop
  | intro {members : List (String × Json)}
      (hmembers : members.Perm (Json.present
        [("type", some (.str kind.tag)), ("name", kind.name?.map .str)])) :
      kind.RenderedAs (.obj members)

mutual

/-- The object writes the fields of the route. -/
inductive Route.RenderedAs : Route → Json → Prop
  | intro {declared : Route} {members : List (String × Json)} {segment kind : Json}
      {onward forward : Option Json}
      (hsegment : declared.segment.RenderedAs segment)
      (hkind : declared.kind.RenderedAs kind)
      (honward : ContinuationRenderedAs declared.onward onward)
      (hforward : ContinuationRenderedAs declared.forward forward)
      (hmembers : members.Perm (Json.present
        [("segment", some segment), ("kind", some kind), ("then", onward),
          ("forward", forward)])) :
      Route.RenderedAs declared (.obj members)

/-- The object writes what the endpoint is, without saying which of the two it is. -/
inductive Endpoint.RenderedAs : Endpoint → Json → Prop
  | route {declared : Route} {value : Json} (h : declared.RenderedAs value) :
      Endpoint.RenderedAs (.route declared) value
  | page {segment : Page} {value : Json} (h : segment.RenderedAs value) :
      Endpoint.RenderedAs (.page segment) value

/-- The field writes the continuation.  Where there is none, it may be left out. -/
inductive ContinuationRenderedAs : Option Endpoint → Option Json → Prop
  | omitted : ContinuationRenderedAs none none
  | null : ContinuationRenderedAs none (some .null)
  | given {endpoint : Endpoint} {value : Json} (h : endpoint.RenderedAs value) :
      ContinuationRenderedAs (some endpoint) (some value)

end

mutual

theorem Endpoint.exists_renderedAs (endpoint : Endpoint) : ∃ value, endpoint.RenderedAs value := by
  have hpage : ∀ page : Page, ∃ value, page.RenderedAs value := fun page =>
    ⟨_, .intro (.inl rfl) (.inl rfl) (.inl rfl) (.inl rfl) (.inl rfl) (.refl _)⟩
  cases endpoint with
  | page segment =>
      obtain ⟨value, hvalue⟩ := hpage segment
      exact ⟨value, .page hvalue⟩
  | route declared =>
      obtain ⟨segment, kind, onward, forward⟩ := declared
      obtain ⟨value, hvalue⟩ := hpage segment
      obtain ⟨onwardField, honward⟩ := exists_continuationRenderedAs onward
      obtain ⟨forwardField, hforward⟩ := exists_continuationRenderedAs forward
      exact ⟨_, .route (.intro hvalue (.intro (.refl _)) honward hforward (.refl _))⟩
termination_by structural endpoint

theorem exists_continuationRenderedAs (continuation : Option Endpoint) :
    ∃ field, ContinuationRenderedAs continuation field := by
  cases continuation with
  | none => exact ⟨none, .omitted⟩
  | some endpoint =>
      obtain ⟨value, hvalue⟩ := endpoint.exists_renderedAs
      exact ⟨some value, .given hvalue⟩
termination_by structural continuation

end

/-! ## Reading a rendering -/

theorem Page.nodup_fieldNames : fieldNames.Nodup := by decide

theorem Page.ofJson?_of_renderedAs {page : Page} {value : Json} (h : page.RenderedAs value) :
    ofJson? value = some page := by
  obtain ⟨hlocation, hexternal, hrewrite, hredirect, hcontent, hmembers⟩ := h
  rename_i members location external rewrite redirect content
  have hfields : Json.fields? .json fieldNames (.obj members) =
      some [some (.str page.externalPath), some (.str page.internalPath), location, external,
        rewrite, redirect, content] :=
    Json.fieldsOfMembers_of_perm hmembers nodup_fieldNames fieldNames
  have hread : Json.nullable Json.str? (page.location.elim .null .str) = some page.location := by
    cases page.location <;> rfl
  have hflag : ∀ {flag : Bool} {field : Option Json}, Json.Omittable false .bool flag field →
      Json.withDefault false Json.bool? field = some flag :=
    fun h => Json.withDefault_of_omittable h rfl
  unfold ofJson?
  rw [hfields]
  simp only [Option.bind_eq_bind, Option.bind_some, Json.withDefault_of_omittable hlocation hread,
    hflag hexternal, hflag hrewrite, hflag hredirect, hflag hcontent]
  rfl

theorem RouteKind.ofJson?_of_renderedAs {kind : RouteKind} {value : Json}
    (h : kind.RenderedAs value) : ofJson? value = some kind := by
  obtain ⟨hmembers⟩ := h
  rename_i members
  have hdistinct : ["type", "name"].Nodup := by decide
  have htag : Json.field? members "type" = some (some (.str kind.tag)) :=
    Json.field?_of_perm hmembers hdistinct "type"
  have hname : Json.field? members "name" = some (kind.name?.map .str) :=
    Json.field?_of_perm hmembers hdistinct "name"
  simp only [ofJson?, htag, hname]
  cases kind <;> rfl

/-- Reads the members of an object as a route. -/
def Route.ofMembers? (members : List (String × Json)) : Option Route :=
  (Json.fieldsOfMembers fieldNames (routeMembers members)).bind ofFields?

theorem Endpoint.ofJson?_obj (members : List (String × Json)) :
    ofJson? (.obj members) =
      match Route.ofMembers? members with
      | some declared => some (.route declared)
      | none => (Page.ofJson? (.obj members)).map .page := rfl

theorem Route.ofMembers?_of_perm {members : List (String × Json)}
    {fields : List (String × Option Json)} (hmembers : members.Perm (Json.present fields))
    (hdistinct : (fields.map (·.1)).Nodup) :
    ofMembers? members = ofFields? (fieldNames.map fun name =>
      ((fields.map fun (name, value) => (name, value.map routeField)).lookup name).join) := by
  have hread : (routeMembers members).Perm
      (Json.present (fields.map fun (name, value) => (name, value.map routeField))) := by
    rw [routeMembers_eq_map, ← Json.map_present]
    exact hmembers.map _
  have hnames : ((fields.map fun (name, value) => (name, value.map routeField)).map
      (·.1)).Nodup := by
    rwa [List.map_map]
  rw [ofMembers?, Json.fieldsOfMembers_of_perm hread hnames]
  rfl

theorem Route.nodup_fieldNames : fieldNames.Nodup := by decide

/-- The attempt to read a page as a route fails. -/
theorem Route.ofMembers?_of_page {page : Page} {members : List (String × Json)}
    (h : page.RenderedAs (.obj members)) : ofMembers? members = none := by
  obtain ⟨-, -, -, -, -, hmembers⟩ := h
  -- a page has no field of a route, and a route without a segment is none
  have hfields : ofMembers? members = ofFields? [none, none, none, none] :=
    ofMembers?_of_perm hmembers Page.nodup_fieldNames
  exact hfields

theorem Endpoint.RenderedAs.exists_members {endpoint : Endpoint} {value : Json}
    (h : endpoint.RenderedAs value) : ∃ members, value = .obj members := by
  cases h with
  | route h =>
      cases h
      exact ⟨_, rfl⟩
  | page h =>
      cases h
      exact ⟨_, rfl⟩

mutual

theorem Route.ofMembers?_of_renderedAs (declared : Route) {members : List (String × Json)}
    (h : declared.RenderedAs (.obj members)) : Route.ofMembers? members = some declared := by
  obtain ⟨page, sort, next, ahead⟩ := declared
  cases h with
  | intro hsegment hkind honward hforward hmembers =>
      rename_i segment kind onward forward
      have hfields : Route.ofMembers? members = Route.ofFields? [some (routeField segment),
          some (routeField kind), onward.map routeField, forward.map routeField] :=
        Route.ofMembers?_of_perm hmembers Route.nodup_fieldNames
      have hpage := Page.ofJson?_of_renderedAs hsegment
      have hsort := RouteKind.ofJson?_of_renderedAs hkind
      have hnext := withDefault_of_renderedAs next honward
      have hahead := withDefault_of_renderedAs ahead hforward
      rw [hfields, Route.ofFields?, hnext, hahead]
      simp only [Json.required, Option.bind_eq_bind, Option.bind_some, routeField, hpage, hsort]
      rfl
termination_by structural declared

/-- An endpoint is read from each of its renderings. -/
theorem Endpoint.ofJson?_of_renderedAs (endpoint : Endpoint) {value : Json}
    (h : endpoint.RenderedAs value) : Endpoint.ofJson? value = some endpoint := by
  obtain ⟨members, rfl⟩ := h.exists_members
  rw [Endpoint.ofJson?_obj]
  cases endpoint with
  | page segment =>
      cases h with
      | page h =>
          rw [Route.ofMembers?_of_page h, Page.ofJson?_of_renderedAs h]
          rfl
  | route declared =>
      cases h with
      | route h => rw [declared.ofMembers?_of_renderedAs h]
termination_by structural endpoint

theorem withDefault_of_renderedAs (continuation : Option Endpoint) {field : Option Json}
    (h : ContinuationRenderedAs continuation field) :
    Json.withDefault none (fun field : RouteField => field.2) (field.map routeField) =
      some continuation := by
  cases continuation with
  | none => cases h <;> rfl
  | some endpoint =>
      cases h with
      | given h =>
          have hread := endpoint.ofJson?_of_renderedAs h
          -- an object is not null, so the value is read as an endpoint
          obtain ⟨members, rfl⟩ := h.exists_members
          exact congrArg (Option.map some) hread
termination_by structural continuation

end

/-! ## How deep renderings nest -/

namespace Json

theorem depthMembers_perm {members other : List (String × Json)} (h : members.Perm other) :
    depthMembers members = depthMembers other := by
  induction h with
  | nil => rfl
  | cons member _ ih => simp only [depthMembers, ih]
  | swap member next rest => exact Nat.max_left_comm ..
  | trans _ _ ih ih' => exact ih.trans ih'

theorem isKeepableMembers_iff {members : List (String × Json)} :
    isKeepableMembers members = true ↔ ∀ member ∈ members, member.2.isKeepable = true := by
  induction members with
  | nil => simp [isKeepableMembers]
  | cons member rest ih => rw [isKeepableMembers, Bool.and_eq_true, ih, List.forall_mem_cons]

/-- The value can be written and kept, and nests so deep. -/
structure IsPlain (value : Json) (levels : Nat) : Prop where
  isWritten : value.IsWritten
  isKeepable : value.isKeepable = true
  depth_eq : value.depth = levels

theorem isPlain_null : IsPlain .null 0 := ⟨.null, rfl, rfl⟩

theorem isPlain_bool (flag : Bool) : IsPlain (.bool flag) 0 := ⟨.bool flag, rfl, rfl⟩

theorem isPlain_str (text : String) : IsPlain (.str text) 0 := ⟨.str text, rfl, rfl⟩

/-- The field is absent, or its value is plain. -/
def IsPlainField : Option Json → Nat → Prop
  | none, levels => levels = 0
  | some value, levels => value.IsPlain levels

/-- The members of an object are its plain fields. -/
theorem isPlain_present {fields : List (String × Option Json)} {levels : List Nat}
    (h : List.Forall₂ (fun field levels => IsPlainField field.2 levels) fields levels) :
    (∀ member ∈ present fields, member.2.IsWritten ∧ member.2.isKeepable = true) ∧
      depthMembers (present fields) = levels.foldr max 0 := by
  induction h with
  | nil => exact ⟨nofun, rfl⟩
  | @cons field level rest levels hfield _ ih =>
      obtain ⟨name, value⟩ := field
      obtain ⟨hrest, hdepth⟩ := ih
      cases value with
      | none =>
          obtain rfl : level = 0 := hfield
          exact ⟨hrest, hdepth.trans (Nat.zero_max _).symm⟩
      | some value =>
          have hvalue : value.IsPlain level := hfield
          refine ⟨List.forall_mem_cons.mpr ⟨⟨hvalue.isWritten, hvalue.isKeepable⟩, hrest⟩, ?_⟩
          exact congrArg₂ max hvalue.depth_eq hdepth

theorem isPlain_obj {members : List (String × Json)} {fields : List (String × Option Json)}
    {levels : List Nat} (hmembers : members.Perm (present fields))
    (hfields : List.Forall₂ (fun field levels => IsPlainField field.2 levels) fields levels) :
    IsPlain (.obj members) (1 + levels.foldr max 0) := by
  obtain ⟨hpresent, hdepth⟩ := isPlain_present hfields
  have hall : ∀ member ∈ members, member.2.IsWritten ∧ member.2.isKeepable = true :=
    fun member hmember => hpresent member (hmembers.mem_iff.mp hmember)
  refine ⟨.obj fun member hmember => (hall member hmember).1, ?_, ?_⟩
  · exact isKeepableMembers_iff.mpr fun member hmember => (hall member hmember).2
  · rw [depth, depthMembers_perm hmembers, hdepth]

theorem isPlainField_of_omittable {α : Type} {default value : α} {write : α → Json}
    {field : Option Json} (h : Omittable default write value field)
    (hwrite : (write value).IsPlain 0) : IsPlainField field 0 := by
  obtain rfl | ⟨-, rfl⟩ := h
  · exact hwrite
  · rfl

end Json

theorem Page.isPlain_of_renderedAs {page : Page} {value : Json} (h : page.RenderedAs value) :
    value.IsPlain 1 := by
  obtain ⟨hlocation, hexternal, hrewrite, hredirect, hcontent, hmembers⟩ := h
  have hwritten : (page.location.elim Json.null .str).IsPlain 0 := by
    cases page.location with
    | none => exact Json.isPlain_null
    | some location => exact Json.isPlain_str location
  have hflag : ∀ {flag : Bool} {field : Option Json}, Json.Omittable false .bool flag field →
      Json.IsPlainField field 0 :=
    fun h => Json.isPlainField_of_omittable h (Json.isPlain_bool _)
  exact Json.isPlain_obj hmembers (.cons (Json.isPlain_str _) (.cons (Json.isPlain_str _)
    (.cons (Json.isPlainField_of_omittable hlocation hwritten) (.cons (hflag hexternal)
      (.cons (hflag hrewrite) (.cons (hflag hredirect) (.cons (hflag hcontent) .nil)))))))

theorem RouteKind.isPlain_of_renderedAs {kind : RouteKind} {value : Json}
    (h : kind.RenderedAs value) : value.IsPlain 1 := by
  obtain ⟨hmembers⟩ := h
  have hname : Json.IsPlainField (kind.name?.map .str) 0 := by
    cases kind with
    | dynamicForward name => exact Json.isPlain_str name
    | next | middleware | staticForward => rfl
  exact Json.isPlain_obj hmembers (.cons (Json.isPlain_str _) (.cons hname .nil))

mutual

/-- How deep an object nests that writes the route. -/
def Route.levels : Route → Nat
  | ⟨_, _, onward, forward⟩ =>
    1 + max 1 (max (continuationLevels onward) (continuationLevels forward))
termination_by structural declared => declared

/-- How deep an object nests that writes the endpoint. -/
def Endpoint.levels : Endpoint → Nat
  | .route declared => declared.levels
  | .page _ => 1
termination_by structural endpoint => endpoint

/-- How deep a continuation nests. -/
def continuationLevels : Option Endpoint → Nat
  | none => 0
  | some endpoint => endpoint.levels
termination_by structural continuation => continuation

end

mutual

theorem Route.isPlain_of_renderedAs (declared : Route) {value : Json}
    (h : declared.RenderedAs value) : value.IsPlain declared.levels := by
  obtain ⟨page, sort, next, ahead⟩ := declared
  cases h with
  | intro hsegment hkind honward hforward hmembers =>
      have hpage := Page.isPlain_of_renderedAs hsegment
      have hsort := RouteKind.isPlain_of_renderedAs hkind
      have hnext := isPlainField_of_renderedAs next honward
      have hahead := isPlainField_of_renderedAs ahead hforward
      have hplain := Json.isPlain_obj hmembers
        (.cons hpage (.cons hsort (.cons hnext (.cons hahead .nil))))
      simpa [Route.levels, ← Nat.max_assoc] using hplain
termination_by structural declared

theorem Endpoint.isPlain_of_renderedAs (endpoint : Endpoint) {value : Json}
    (h : endpoint.RenderedAs value) : value.IsPlain endpoint.levels := by
  cases endpoint with
  | page segment =>
      cases h with
      | page h => exact Page.isPlain_of_renderedAs h
  | route declared =>
      cases h with
      | route h => exact declared.isPlain_of_renderedAs h
termination_by structural endpoint

theorem isPlainField_of_renderedAs (continuation : Option Endpoint) {field : Option Json}
    (h : ContinuationRenderedAs continuation field) :
    Json.IsPlainField field (continuationLevels continuation) := by
  cases continuation with
  | none =>
      cases h with
      | omitted => rfl
      | null => exact Json.isPlain_null
  | some endpoint =>
      cases h with
      | given h => exact endpoint.isPlain_of_renderedAs h
termination_by structural continuation

end

namespace Endpoint

/-- **Renderings of endpoints are unambiguous.**  Every endpoint has renderings, and it is read from
each of them, whatever the order of their fields and whichever defaults they leave out, at every
depth; no other endpoint has a rendering in common with it.  All its renderings nest alike, so a
limit on that lets the reader take all of them or none.  Each can be written as a text, and every
text of a rendering is read as the endpoint if that nests no deeper than a text may. -/
theorem reads_every_rendering (endpoint : Endpoint) :
    (∃ value, endpoint.RenderedAs value) ∧
      ∀ value, endpoint.RenderedAs value →
        ofJson? value = some endpoint ∧
          (∀ other : Endpoint, other.RenderedAs value → other = endpoint) ∧
          (∀ limit, ofJsonWithin? limit value =
            if endpoint.levels ≤ limit then some endpoint else none) ∧
          Json.parse? value.compact = some value ∧
          Json.parse? value.indented = some value ∧
          ∀ text, Json.parse? text = some value → endpoint.levels ≤ maxDepth →
            (Json.parse? text).bind (ofJsonWithin? maxDepth) = some endpoint := by
  refine ⟨endpoint.exists_renderedAs, ?_⟩
  intro value h
  have hread := endpoint.ofJson?_of_renderedAs h
  have hplain := endpoint.isPlain_of_renderedAs h
  have hwithin : ∀ limit, ofJsonWithin? limit value =
      if endpoint.levels ≤ limit then some endpoint else none := by
    intro limit
    simp only [ofJsonWithin?, hplain.isKeepable, hplain.depth_eq, hread, Bool.true_and,
      decide_eq_true_eq]
  refine ⟨hread, ?_, hwithin, Json.parse?_compact hplain.isWritten,
    Json.parse?_indented hplain.isWritten, ?_⟩
  · intro other hother
    have hboth : some other = some endpoint := by
      rw [← hread, other.ofJson?_of_renderedAs hother]
    exact Option.some.inj hboth
  · intro text htext hlevels
    rw [htext, Option.bind_some, hwithin, if_pos hlevels]

/-- A middleware with nothing behind it. -/
def gate : Endpoint :=
  .route (.middleware { externalPath := "/:locale/", internalPath := "gate" } none)

/-- A forward that leads to a page or to the middleware. -/
def chain : Endpoint :=
  .route (.dynamicForward (.plain "/:locale/" "locale") "locale"
    (some (.page (.plain "/:locale/" "locale/page"))) (some gate))

/-- A page of the forward, with the last field first. -/
def pageJson (internalPath : String) : Json :=
  .obj [("page", .bool true), ("location", .null), ("internalPath", .str internalPath),
    ("externalPath", .str "/:locale/")]

/-- The middleware, with the last field first. -/
def gateJson : Json :=
  .obj [("forward", .null), ("kind", .obj [("type", .str "MIDDLEWARE")]),
    ("segment", .obj [("rewrite", .bool false), ("internalPath", .str "gate"),
      ("externalPath", .str "/:locale/")])]

/-- The forward, with the last field first. -/
def chainJson : Json :=
  .obj [("forward", gateJson), ("then", pageJson "locale/page"),
    ("kind", .obj [("name", .str "locale"), ("type", .str "DYNAMIC_FORWARD")]),
    ("segment", pageJson "locale")]

theorem reads_every_rendering_chain :
    chain.RenderedAs chainJson ∧ ofJson? chainJson = some chain ∧
      ofJsonWithin? 3 chainJson = some chain ∧ ofJsonWithin? 2 chainJson = none ∧
      (Json.parse? chainJson.indented).bind (ofJsonWithin? maxDepth) = some chain := by
  have hreverse : ∀ {members : List (String × Json)} {fields : List (String × Option Json)},
      members = (Json.present fields).reverse → members.Perm (Json.present fields) := by
    rintro members fields rfl
    exact List.reverse_perm _
  have hpage : ∀ internalPath,
      (Page.plain "/:locale/" internalPath).RenderedAs (pageJson internalPath) := fun _ =>
    .intro (.inl rfl) (.inr ⟨rfl, rfl⟩) (.inr ⟨rfl, rfl⟩) (.inr ⟨rfl, rfl⟩) (.inl rfl)
      (hreverse rfl)
  have hgate : gate.RenderedAs gateJson :=
    .route (.intro
      (.intro (.inr ⟨rfl, rfl⟩) (.inr ⟨rfl, rfl⟩) (.inl rfl) (.inr ⟨rfl, rfl⟩) (.inr ⟨rfl, rfl⟩)
        (hreverse rfl))
      (.intro (hreverse rfl)) .omitted .null (hreverse rfl))
  have hchain : chain.RenderedAs chainJson :=
    .route (.intro (hpage "locale") (.intro (hreverse rfl)) (.given (.page (hpage "locale/page")))
      (.given hgate) (hreverse rfl))
  obtain ⟨hread, -, hwithin, -, hindented, htext⟩ :=
    (reads_every_rendering chain).2 chainJson hchain
  exact ⟨hchain, hread, hwithin 3, hwithin 2, htext _ hindented (by decide)⟩

end Endpoint

end RouteTree
