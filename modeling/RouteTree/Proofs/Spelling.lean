import Mathlib.Logic.Relation
import RouteTree.Proofs.Fitting

/-!
# Spellings of one path key

`/users/:id`, `users/:name/` and `/users/:id/` are three spellings of one key.  The names
of the parameters are not looked at, and one slash at either end may be there or not.
`Respelled` relates a key to its other spellings, one difference at a time, and
`Walk.ofKey_eq_of_respelled` shows that they are all followed in the same way.

A second slash at an end is not a matter of spelling: it leaves an empty component, and no
key with an empty component is accepted (`Walk.not_mem_components_of_ending`).  What every
spelling has in common is therefore the list of segments without names and without the
empty literals, the *shape* of the key.
-/

namespace RouteTree

/-! ## Names of parameters -/

@[simp] theorem hasMisplacedCatchAll_nameless (pattern : List Segment) :
    hasMisplacedCatchAll (pattern.map Segment.nameless) = hasMisplacedCatchAll pattern := by
  have hsegment : Segment.isCatchAll ∘ Segment.nameless = Segment.isCatchAll := by
    funext segment
    cases segment <;> rfl
  rw [hasMisplacedCatchAll, ← List.map_dropLast, List.any_map, hsegment, hasMisplacedCatchAll]

namespace Walk

@[simp] theorem ofSegments_nameless (pattern : List Segment) :
    ofSegments (pattern.map Segment.nameless) = ofSegments pattern := by
  induction pattern with
  | nil => rfl
  | cons segment rest ih =>
      cases segment <;> simp [ofSegments, Segment.nameless, ih]

/-- Keys that differ in the names of their parameters are followed in the same way. -/
theorem ofKey_eq_of_nameless {key other : String}
    (h : (segments key).map Segment.nameless = (segments other).map Segment.nameless) :
    ofKey key = ofKey other := by
  have hlast : hasMisplacedCatchAll (segments key) = hasMisplacedCatchAll (segments other) := by
    rw [← hasMisplacedCatchAll_nameless, h, hasMisplacedCatchAll_nameless]
  have hwalk : ofSegments (segments key) = ofSegments (segments other) := by
    rw [← ofSegments_nameless, h, ofSegments_nameless]
  simp only [ofKey, hlast, hwalk]

/-! ## Empty components -/

/-- A walk that finds a place has met no empty literal. -/
theorem not_mem_of_ending {pattern : List Segment} {place : Place}
    (hending : (ofSegments pattern).ending = .ok place)
    (hlast : hasMisplacedCatchAll pattern = false) : .literal "" ∉ pattern := by
  induction pattern with
  | nil => simp
  | cons segment rest ih =>
      by_cases hmore : rest = []
      · subst hmore
        cases segment with
        | literal text =>
            simp only [List.mem_singleton, Segment.literal.injEq]
            rintro rfl
            simp [ofSegments, overrideMark] at hending
        | _ => simp
      · obtain ⟨hfirst, hrest⟩ := (hasMisplacedCatchAll_cons hmore).mp hlast
        have hempty : rest.isEmpty = false := by simpa using hmore
        cases segment with
        | catchAll name => cases hfirst
        | dynamic name => simpa using ih hending hrest
        | literal text =>
            simp only [ofSegments, hempty] at hending
            split at hending
            · cases hending
            · split at hending
              · cases hending
              · rename_i htext
                have hne : "" ≠ text := fun h => htext h.symm
                simpa [hne] using ih hending hrest

end Walk

/-- The empty literal is the segment of the empty component only. -/
theorem Segment.nameless_ofComponent_eq_iff {component : String} :
    (Segment.ofComponent component).nameless = .literal "" ↔ component = "" := by
  constructor
  · intro h
    cases hsegment : Segment.ofComponent component with
    | literal text =>
        obtain rfl := Segment.ofComponent_literal hsegment
        simpa [hsegment, nameless] using h
    | _ => simp [hsegment, nameless] at h
  · rintro rfl
    rfl

/-- An accepted key has no empty component. -/
theorem Walk.not_mem_components_of_ending {key : String} {place : Place}
    (hending : (ofKey key).ending = .ok place) : "" ∉ components key := by
  intro hmem
  have hlast := misplaced_of_ending hending
  have hwalk : (ofSegments (segments key)).ending = .ok place := by
    simpa [ofKey, hlast] using hending
  exact not_mem_of_ending hwalk hlast (List.mem_map_of_mem hmem)

/-! ## Slashes at the ends -/

theorem splitSlashes_eq_splitOn (text : List Char) : splitSlashes text = text.splitOn '/' := by
  induction text with
  | nil => rfl
  | cons c rest ih =>
      have hcons : (c :: rest).splitOn '/' =
          if c = '/' then [] :: rest.splitOn '/' else (rest.splitOn '/').modifyHead (c :: ·) := by
        simp [List.splitOn_eq_splitOnP, List.splitOnP_cons_eq_if_modifyHead]
      rw [splitSlashes, ih, hcons]
      split
      · rfl
      · obtain ⟨piece, pieces, hpieces⟩ :=
          List.exists_cons_of_ne_nil (List.splitOn_ne_nil '/' rest)
        rw [hpieces]
        rfl

theorem splitSlashes_ne_nil (text : List Char) : splitSlashes text ≠ [] := by
  rw [splitSlashes_eq_splitOn]
  exact List.splitOn_ne_nil '/' text

/-- A slash cuts a text into two, and each of them is cut by itself. -/
theorem splitSlashes_append_slash_cons (first rest : List Char) :
    splitSlashes (first ++ '/' :: rest) = splitSlashes first ++ splitSlashes rest := by
  simp only [splitSlashes_eq_splitOn]
  exact List.splitOnP_append_cons first rest (beq_self_eq_true '/')

/-- A slash at the end of a text cuts off one empty piece. -/
theorem splitSlashes_append_slash (text : List Char) :
    splitSlashes (text ++ ['/']) = splitSlashes text ++ [[]] :=
  splitSlashes_append_slash_cons text []

theorem slash_not_mem_of_mem_splitSlashes {text piece : List Char}
    (h : piece ∈ splitSlashes text) : '/' ∉ piece := by
  induction text generalizing piece with
  | nil =>
      obtain rfl : piece = [] := by simpa [splitSlashes] using h
      simp
  | cons c rest ih =>
      by_cases hc : c = '/'
      · rw [splitSlashes, if_pos hc] at h
        rcases List.mem_cons.mp h with rfl | hrest
        · simp
        · exact ih hrest
      · have hother : '/' ≠ c := fun h => hc h.symm
        rw [splitSlashes, if_neg hc] at h
        cases hpieces : splitSlashes rest with
        | nil => exact absurd hpieces (splitSlashes_ne_nil rest)
        | cons first pieces =>
            simp only [hpieces] at h ih
            rcases List.mem_cons.mp h with rfl | hrest
            · simpa [hother] using ih (List.mem_cons_self ..)
            · exact ih (List.mem_cons_of_mem _ hrest)

theorem slash_not_mem_of_mem_components {path component : String}
    (h : component ∈ components path) : '/' ∉ component.toList := by
  unfold components at h
  split at h
  · simp at h
  · obtain ⟨piece, hpiece, rfl⟩ := List.mem_map.mp h
    simpa using slash_not_mem_of_mem_splitSlashes hpiece

/-- The pieces of a text between its slashes that are not empty. -/
def solidPieces (text : List Char) : List (List Char) :=
  (splitSlashes text).filter (· ≠ [])

@[simp] theorem solidPieces_slash_cons (text : List Char) :
    solidPieces ('/' :: text) = solidPieces text := by
  simp [solidPieces, splitSlashes]

@[simp] theorem solidPieces_append_slash (text : List Char) :
    solidPieces (text ++ ['/']) = solidPieces text := by
  simp [solidPieces, splitSlashes_append_slash]

theorem solidPieces_dropLeadingSlash (text : List Char) :
    solidPieces (dropLeadingSlash text) = solidPieces text := by
  cases text with
  | nil => rfl
  | cons c rest =>
      rw [dropLeadingSlash]
      split
      · rename_i hc
        rw [hc, solidPieces_slash_cons]
      · rfl

theorem solidPieces_dropTrailingSlash (text : List Char) :
    solidPieces (dropTrailingSlash text) = solidPieces text := by
  rw [dropTrailingSlash]
  split
  · rename_i hlast
    obtain ⟨front, rfl⟩ := List.getLast?_eq_some_iff.mp hlast
    rw [List.dropLast_concat, solidPieces_append_slash]
  · rfl

/-- The components that are not empty are the solid pieces of the path. -/
theorem filter_components (path : String) :
    (components path).filter (· ≠ "") = (solidPieces path.toList).map String.ofList := by
  -- the slashes that are dropped cut off no solid piece
  rw [← solidPieces_dropLeadingSlash, ← solidPieces_dropTrailingSlash, components, solidPieces]
  have hpiece : (fun component : String => decide (component ≠ "")) ∘ String.ofList =
      fun piece => decide (piece ≠ []) := by
    funext piece
    simp
  split
  · rename_i hnone
    simp [hnone, splitSlashes]
  · rw [List.filter_map, hpiece]

/-! ## Respelling -/

/-- The segments of a key without names and without empty literals. -/
def shape (key : String) : List Segment :=
  ((segments key).map Segment.nameless).filter (· ≠ .literal "")

theorem shape_eq_map (key : String) :
    shape key = ((solidPieces key.toList).map String.ofList).map
      (Segment.nameless ∘ Segment.ofComponent) := by
  rw [← filter_components, shape, segments, List.map_map, List.filter_map]
  congr 2
  funext component
  simp [Segment.nameless_ofComponent_eq_iff]

theorem shape_eq_of_not_mem {key : String} (h : "" ∉ components key) :
    shape key = (segments key).map Segment.nameless := by
  refine List.filter_eq_self.mpr fun segment hmem => ?_
  obtain ⟨found, hfound, rfl⟩ := List.mem_map.mp hmem
  obtain ⟨component, hcomponent, rfl⟩ := List.mem_map.mp hfound
  have hne : component ≠ "" := ne_of_mem_of_not_mem hcomponent h
  simpa [Segment.nameless_ofComponent_eq_iff] using hne

/-- The second key is the first one with a difference in spelling. -/
inductive Respelled : String → String → Prop
  /-- the parameters have other names -/
  | names {key other : String}
      (h : (segments key).map Segment.nameless = (segments other).map Segment.nameless) :
      Respelled key other
  /-- there is a slash in front -/
  | leadingSlash (key : String) : Respelled key ("/" ++ key)
  /-- there is a slash behind -/
  | trailingSlash (key : String) : Respelled key (key ++ "/")

theorem Respelled.shape_eq {key other : String} (h : Respelled key other) :
    shape key = shape other := by
  cases h with
  | names h => rw [shape, shape, h]
  | leadingSlash => simp [shape_eq_map]
  | trailingSlash => simp [shape_eq_map]

theorem shape_eq_of_respelled {key other : String} (h : Relation.EqvGen Respelled key other) :
    shape key = shape other := by
  induction h with
  | rel _ _ h => exact h.shape_eq
  | refl => rfl
  | symm _ _ _ ih => exact ih.symm
  | trans _ _ _ _ _ first second => exact first.trans second

/-- All spellings of a key are followed in the same way, as long as none of them has an
empty component. -/
theorem Walk.ofKey_eq_of_respelled {key other : String}
    (h : Relation.EqvGen Respelled key other) (hkey : "" ∉ components key)
    (hother : "" ∉ components other) : ofKey key = ofKey other := by
  have hshape := shape_eq_of_respelled h
  rw [shape_eq_of_not_mem hkey, shape_eq_of_not_mem hother] at hshape
  exact ofKey_eq_of_nameless hshape

end RouteTree
