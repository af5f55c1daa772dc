import RouteTree.Proofs.Spelling

/-!
# Paths put together from components

`components` cuts a path at its slashes.  `pathOf` goes the other way: it writes components
one after another, with a slash between them and one at either end.  What comes back when the
path is cut are the same components (`components_pathOf`), as long as none of them has a slash
in it.  The only list that is lost is that of one empty component, since `//` has none.

Cutting loses nothing but the outer slashes, one on each side at most.  What is left of a path
without them can be joined again from the components (`intercalate_components`), so two paths
have the same components only if they are the same without them.  `components_inverse_pathOf`
says all of this at once.
-/

namespace RouteTree

/-- The path that has the given components. -/
def pathOf (parts : List String) : String :=
  "/" ++ String.intercalate "/" parts ++ "/"

/-- The characters of a path without a slash in front and then without one behind, where there
are such. -/
def trimmed (path : String) : List Char :=
  dropTrailingSlash (dropLeadingSlash path.toList)

theorem components_eq (path : String) :
    components path =
      if trimmed path = [] then [] else (splitSlashes (trimmed path)).map String.ofList := by
  unfold components trimmed
  split
  · rename_i hnone
    rw [if_pos hnone]
  · rename_i hsome
    rw [if_neg hsome]

/-! ## Cutting what was joined -/

theorem splitSlashes_of_not_mem {piece : List Char} (h : '/' ∉ piece) :
    splitSlashes piece = [piece] := by
  rw [splitSlashes_eq_splitOn]
  apply List.splitOnP_eq_singleton
  intro c hc
  exact beq_false_of_ne (ne_of_mem_of_not_mem hc h)

theorem splitSlashes_intercalate {pieces : List (List Char)} (hne : pieces ≠ [])
    (hslash : ∀ piece ∈ pieces, '/' ∉ piece) :
    splitSlashes (List.intercalate ['/'] pieces) = pieces := by
  rw [splitSlashes_eq_splitOn]
  exact List.splitOn_intercalate '/' hslash hne

/-- Only no pieces at all, or one empty piece, leave nothing when they are joined. -/
theorem intercalate_slash_ne_nil {pieces : List (List Char)} (hne : pieces ≠ [])
    (hempty : pieces ≠ [[]]) : List.intercalate ['/'] pieces ≠ [] := by
  match pieces with
  | [] => exact absurd rfl hne
  | [piece] =>
      intro hnil
      rw [List.intercalate_singleton] at hnil
      exact hempty (by rw [hnil])
  | piece :: next :: rest => simp [List.intercalate_cons_cons]

theorem trimmed_pathOf (parts : List String) :
    trimmed (pathOf parts) = List.intercalate ['/'] (parts.map String.toList) := by
  have hjoined : (pathOf parts).toList =
      '/' :: (List.intercalate ['/'] (parts.map String.toList) ++ ['/']) := by
    simp [pathOf, String.toList_intercalate]
  rw [trimmed, hjoined, dropLeadingSlash, if_pos rfl]
  simp [dropTrailingSlash]

/-- Components that are put together come apart again. -/
theorem components_pathOf {parts : List String} (hempty : parts ≠ [""])
    (hslash : ∀ part ∈ parts, '/' ∉ part.toList) : components (pathOf parts) = parts := by
  rw [components_eq, trimmed_pathOf]
  by_cases hne : parts = []
  · subst hne
    rfl
  · have hpieces : parts.map String.toList ≠ [] := by simpa using hne
    have hsolid : parts.map String.toList ≠ [[]] := by
      intro hone
      apply hempty
      obtain ⟨part, rfl, hpart⟩ := List.map_eq_singleton_iff.mp hone
      rw [String.toList_eq_nil_iff.mp hpart]
    have hcut : splitSlashes (List.intercalate ['/'] (parts.map String.toList)) =
        parts.map String.toList := by
      apply splitSlashes_intercalate hpieces
      intro piece hpiece
      obtain ⟨part, hpart, rfl⟩ := List.mem_map.mp hpiece
      exact hslash part hpart
    rw [if_neg (intercalate_slash_ne_nil hpieces hsolid), hcut, List.map_map]
    simp

/-! ## Joining what was cut -/

theorem intercalate_splitSlashes (text : List Char) :
    List.intercalate ['/'] (splitSlashes text) = text := by
  rw [splitSlashes_eq_splitOn]
  exact List.intercalate_splitOn '/'

/-- The components joined are the path without its outer slashes. -/
theorem intercalate_components (path : String) :
    String.intercalate "/" (components path) = String.ofList (trimmed path) := by
  rw [components_eq]
  split
  · rename_i hnone
    rw [hnone]
    rfl
  · apply String.toList_inj.mp
    have hpieces : ((splitSlashes (trimmed path)).map String.ofList).map String.toList =
        splitSlashes (trimmed path) := by
      simp [Function.comp_def]
    have hslash : "/".toList = ['/'] := rfl
    rw [String.toList_intercalate, hpieces, hslash, String.toList_ofList, intercalate_splitSlashes]

theorem trimmed_eq_of_components_eq {path other : String}
    (h : components path = components other) : trimmed path = trimmed other := by
  have hjoined : String.ofList (trimmed path) = String.ofList (trimmed other) := by
    rw [← intercalate_components, h, intercalate_components]
  exact String.ofList_injective hjoined

theorem components_ne_singleton_empty (path : String) : components path ≠ [""] := by
  intro hone
  have hjoined := intercalate_components path
  rw [hone] at hjoined
  -- one empty component joins to the empty text, and that is cut into no components
  have hnone : trimmed path = [] := String.ofList_eq_empty_iff.mp hjoined.symm
  rw [components_eq, if_pos hnone] at hone
  cases hone

/-- **Cutting is the inverse of joining, up to one slash on each side.**  The components of a
path have no slash in them and are never one empty component alone.  Every other list of texts
without slashes is what the path joined from it is cut into.  Two paths have the same components
exactly if they are the same without the one slash in front and the one behind. -/
theorem components_inverse_pathOf :
    (∀ path, (∀ part ∈ components path, '/' ∉ part.toList) ∧ components path ≠ [""]) ∧
      (∀ parts, (∀ part ∈ parts, '/' ∉ part.toList) → parts ≠ [""] →
        components ("/" ++ String.intercalate "/" parts ++ "/") = parts) ∧
      ∀ path other, components path = components other ↔ trimmed path = trimmed other := by
  refine ⟨?_, ?_, ?_⟩
  · intro path
    refine ⟨?_, components_ne_singleton_empty path⟩
    intro part hpart
    exact slash_not_mem_of_mem_components hpart
  · intro parts hslash hempty
    exact components_pathOf hempty hslash
  · intro path other
    constructor
    · exact trimmed_eq_of_components_eq
    · intro h
      rw [components_eq, components_eq, h]

/-- Of three slashes at the end, two cut off an empty component each. -/
theorem components_inverse_pathOf_docs :
    "/" ++ String.intercalate "/" ["docs", "", ""] ++ "/" = "/docs///" ∧
      components "/docs///" = ["docs", "", ""] ∧
      components "docs///" = components "/docs///" := by
  obtain ⟨-, hjoined, hsame⟩ := components_inverse_pathOf
  have hpath : "/" ++ String.intercalate "/" ["docs", "", ""] ++ "/" = "/docs///" := by
    decide +kernel
  refine ⟨hpath, ?_, (hsame ..).mpr rfl⟩
  rw [← hpath]
  exact hjoined ["docs", "", ""] (by decide) (by decide)

end RouteTree
