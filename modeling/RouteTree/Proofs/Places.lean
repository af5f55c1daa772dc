import Mathlib.Tactic.SplitIfs
import RouteTree.Workspace

/-!
# Places of a workspace

A path *spells* a place, by its names alone (`placeOf`).  Wherever an operation gets through, that
is the place it is about: following names through what exists can fail, but it leads nowhere else.

Commands change a workspace in two ways.  They make directories where nothing was (`Grown`), and
they give texts to files at a few places (`Overlay`).  Texts never replace a directory, so every
path that led somewhere still does, and what a path may be written at stays the same
(`Overlay.writable_iff`).  What can be read stays the same too, but one detail of a failure does
not: where nothing was there may now be a file, and a path that goes on below it fails for another
cause (`Overlay.readText`).
-/

namespace RouteTree.Workspace

variable {workspace earlier later final : Workspace} {place other target : List String}
  {path : String}

/-! ## Entries -/

theorem lookup_filter_ne (entries : List (List String × FileEntry)) (h : other ≠ place) :
    (entries.filter (·.1 ≠ place)).lookup other = entries.lookup other := by
  induction entries with
  | nil => rfl
  | cons first rest ih =>
      obtain ⟨key, entry⟩ := first
      by_cases hkey : key = place
      · have hother : (other == key) = false := by simpa [hkey] using h
        rw [List.filter_cons_of_neg (by simpa using hkey), List.lookup_cons, hother]
        exact ih
      · rw [List.filter_cons_of_pos (by simpa using hkey), List.lookup_cons, List.lookup_cons, ih]

theorem entry?_setEntry (entry : FileEntry) (h : place ≠ []) (other : List String) :
    entry? (workspace.setEntry place entry) other =
      if other = place then some entry else workspace.entry? other := by
  unfold entry? setEntry
  by_cases hother : other = place
  · subst hother
    simp [h]
  · have hbeq : (other == place) = false := by simpa using hother
    rw [List.lookup_cons, hbeq, if_neg hother, lookup_filter_ne _ hother]

/-! ## The place that a path spells -/

/-- The place that a path spells, whether or not anything is there. -/
def placeOf (workspace : Workspace) (path : String) : List String :=
  descend (workspace.start path) (FilePath.pieces path)

theorem placeOf_congr (h : later.workingDirectory = earlier.workingDirectory) (path : String) :
    later.placeOf path = earlier.placeOf path := by
  unfold placeOf start
  rw [h]

theorem descend_append (place first rest : List String) :
    descend place (first ++ rest) = descend (descend place first) rest := by
  induction first generalizing place with
  | nil => rfl
  | cons name first ih =>
      rw [List.cons_append, descend, descend]
      split_ifs <;> exact ih _

theorem descend_name (place : List String) {name : String}
    (h : ¬(name = "" ∨ name = "." ∨ name = "..")) : descend place [name] = place ++ [name] := by
  simp only [not_or] at h
  simp [descend, h]

theorem follow_cons_of_none {name : String} {rest : List String}
    (h : workspace.entry? place = none) :
    workspace.follow place (name :: rest) = .error .notFound := by
  unfold follow
  rw [h]

/-- Nothing is below a file. -/
theorem follow_cons_of_file {name : String} {rest : List String} {entry : FileEntry}
    (h : workspace.entry? place = some entry) (hfile : entry ≠ .directory) :
    workspace.follow place (name :: rest) = .error .notDirectory := by
  unfold follow
  rw [h]
  cases entry with
  | directory => exact absurd rfl hfile
  | text content => rfl
  | binary => rfl

theorem eq_descend_of_follow {names : List String} (h : workspace.follow place names = .ok target) :
    target = descend place names := by
  induction names generalizing place with
  | nil => exact (Except.ok.inj h).symm
  | cons name rest ih =>
      unfold follow at h
      unfold descend
      split at h
      · split_ifs at h ⊢
        · exact ih h
        · exact ih h
        · split at h
          · cases h
          · exact ih h
      · cases h
      · cases h

/-- A path leads to something new where its last piece is a name and the others lead to a
directory. -/
theorem resolveNew_eq_some_iff :
    workspace.resolveNew path = .ok (some place) ↔
      isValid path = true ∧ ∃ names name above, FilePath.pieces path = names ++ [name] ∧
        ¬(name = "" ∨ name = "." ∨ name = "..") ∧
          workspace.follow (workspace.start path) names = .ok above ∧
            workspace.entry? above = some .directory ∧ place = above ++ [name] := by
  constructor
  · intro h
    unfold resolveNew at h
    simp only at h
    split at h
    · cases h
    rename_i hvalid
    refine ⟨by simpa using hvalid, ?_⟩
    split at h
    · cases h
    rename_i name hlast
    split at h
    · cases h
    rename_i hname
    split at h
    · cases h
    rename_i above habove
    split at h
    · rename_i hdirectory
      obtain ⟨names, hpieces⟩ := List.getLast?_eq_some_iff.mp hlast
      rw [hpieces, List.dropLast_concat] at habove
      exact ⟨names, name, above, hpieces, hname, habove, hdirectory, by simpa using h.symm⟩
    · cases h
    · cases h
  · rintro ⟨hvalid, names, name, above, hpieces, hname, habove, hdirectory, rfl⟩
    unfold resolveNew
    simp [hvalid, hpieces, hname, habove, hdirectory]

theorem resolveNew_eq_placeOf (h : workspace.resolveNew path = .ok (some place)) :
    place = workspace.placeOf path ∧ place ≠ [] := by
  obtain ⟨-, names, name, above, hpieces, hname, habove, -, rfl⟩ := resolveNew_eq_some_iff.mp h
  refine ⟨?_, by simp⟩
  calc
    above ++ [name]
    _ = descend above [name] := (descend_name above hname).symm
    _ = descend (descend (workspace.start path) names) [name] := by
        rw [eq_descend_of_follow habove]
    _ = descend (workspace.start path) (names ++ [name]) := (descend_append _ _ _).symm
    _ = workspace.placeOf path := by rw [placeOf, hpieces]

/-! ## Writing a file -/

/-- Whether a file may be written at a path: it leads into a directory, and not to one. -/
def Writable (workspace : Workspace) (path : String) : Prop :=
  ∃ place, workspace.resolveNew path = .ok (some place) ∧
    workspace.entry? place ≠ some .directory

theorem Writable.placeOf_ne_nil (h : workspace.Writable path) : workspace.placeOf path ≠ [] := by
  obtain ⟨place, hplace, -⟩ := h
  obtain ⟨rfl, hne⟩ := resolveNew_eq_placeOf hplace
  exact hne

theorem writeText_of_writable (h : workspace.Writable path) (content : String) :
    workspace.writeText path content =
      (.ok (), workspace.setEntry (workspace.placeOf path) (.text content)) := by
  obtain ⟨place, hplace, hentry⟩ := h
  obtain ⟨rfl, -⟩ := resolveNew_eq_placeOf hplace
  unfold writeText
  simp [hplace, hentry]

/-- What cannot be written changes nothing. -/
theorem writeText_of_not_writable (h : ¬workspace.Writable path) (content : String) :
    ∃ fault, workspace.writeText path content = (.error fault, workspace) := by
  unfold writeText
  split
  · exact ⟨_, rfl⟩
  · split <;> exact ⟨_, rfl⟩
  · rename_i place hplace
    split
    · exact ⟨_, rfl⟩
    · rename_i hentry
      exact absurd ⟨place, hplace, hentry⟩ h

/-! ## Texts laid over a workspace -/

/-- The later workspace is the earlier one but for texts at some of the places, none of which was
a directory. -/
structure Overlay (places : List (List String)) (earlier later : Workspace) : Prop where
  workingDirectory : later.workingDirectory = earlier.workingDirectory
  entries : ∀ place, later.entry? place = earlier.entry? place ∨
    (place ∈ places ∧ earlier.entry? place ≠ some .directory ∧
      ∃ content, later.entry? place = some (.text content))

namespace Overlay

variable {places : List (List String)}

theorem refl (places : List (List String)) (workspace : Workspace) :
    Overlay places workspace workspace :=
  ⟨rfl, fun _ => .inl rfl⟩

theorem trans (hfirst : Overlay places earlier later) (hsecond : Overlay places later final) :
    Overlay places earlier final := by
  refine ⟨hsecond.workingDirectory.trans hfirst.workingDirectory, fun place => ?_⟩
  rcases hsecond.entries place with hkept | ⟨hplace, hfile, htext⟩
  · rw [hkept]
    exact hfirst.entries place
  · rcases hfirst.entries place with hkept | ⟨-, hearlier, -⟩
    · exact .inr ⟨hplace, hkept ▸ hfile, htext⟩
    · exact .inr ⟨hplace, hearlier, htext⟩

theorem mono {more : List (List String)} (h : Overlay places earlier later)
    (hmore : ∀ place ∈ places, place ∈ more) : Overlay more earlier later :=
  ⟨h.workingDirectory, fun place =>
    (h.entries place).imp_right fun ⟨hplace, htext⟩ => ⟨hmore place hplace, htext⟩⟩

theorem write (h : workspace.Writable path) (content : String) :
    Overlay [workspace.placeOf path] workspace
      (workspace.setEntry (workspace.placeOf path) (.text content)) := by
  refine ⟨rfl, fun place => ?_⟩
  rw [entry?_setEntry _ h.placeOf_ne_nil]
  split_ifs with heq
  · subst heq
    obtain ⟨target, htarget, hfile⟩ := h
    obtain ⟨rfl, -⟩ := resolveNew_eq_placeOf htarget
    exact .inr ⟨List.mem_singleton_self _, hfile, content, rfl⟩
  · exact .inl rfl

variable (h : Overlay places earlier later)
include h

theorem start_eq (path : String) : later.start path = earlier.start path := by
  unfold start
  rw [h.workingDirectory]

theorem placeOf_eq (path : String) : later.placeOf path = earlier.placeOf path :=
  placeOf_congr h.workingDirectory path

theorem entry?_of_notMem (hplace : place ∉ places) : later.entry? place = earlier.entry? place := by
  rcases h.entries place with hkept | ⟨hmem, -⟩
  · exact hkept
  · exact absurd hmem hplace

theorem directory_iff (place : List String) :
    later.entry? place = some .directory ↔ earlier.entry? place = some .directory := by
  rcases h.entries place with hkept | ⟨-, hfile, content, htext⟩
  · rw [hkept]
  · simp [htext, hfile]

theorem exists_entry {entry : FileEntry} (hplace : earlier.entry? place = some entry) :
    ∃ held, later.entry? place = some held := by
  rcases h.entries place with hkept | ⟨-, -, content, htext⟩
  · exact ⟨entry, hkept.trans hplace⟩
  · exact ⟨_, htext⟩

/-- What following names comes to in the later workspace: the same as before, or else nothing was
there before, and now the names go on below a text or end at one. -/
def FollowsAlike (places : List (List String)) (earlier later : Workspace) (place : List String)
    (names : List String) : Prop :=
  later.follow place names = earlier.follow place names ∨
    (places ≠ [] ∧ earlier.follow place names = .error .notFound ∧
      (later.follow place names = .error .notDirectory ∨
        (descend place names ∈ places ∧
          ∃ content, later.entry? (descend place names) = some (.text content))))

/-- One name is followed alike from a directory, if the others are from wherever it leads. -/
theorem follow_below {name : String} {rest : List String}
    (hentry : earlier.entry? place = some .directory)
    (hrest : ∀ place, FollowsAlike places earlier later place rest) :
    FollowsAlike places earlier later place (name :: rest) := by
  have hlater := (h.directory_iff place).mpr hentry
  unfold FollowsAlike Workspace.follow descend
  rw [hentry, hlater]
  simp only
  split_ifs with hstay hup
  · exact hrest place
  · exact hrest place.dropLast
  · cases hnext : earlier.entry? (place ++ [name]) with
    | some next =>
        obtain ⟨held, hheld⟩ := h.exists_entry hnext
        rw [hheld]
        exact hrest (place ++ [name])
    | none =>
        -- The one way to part: nothing was at the next place, and now a text is.
        rcases h.entries (place ++ [name]) with hkept | ⟨hmem, -, content, htext⟩
        · left
          rw [hkept, hnext]
        · refine .inr ⟨List.ne_nil_of_mem hmem, rfl, ?_⟩
          rw [htext]
          cases rest with
          | nil => exact .inr ⟨hmem, content, htext⟩
          | cons next others => exact .inl (follow_cons_of_file htext nofun)

/-- Names lead where they led before.  Where they led nowhere they may now end at a text, or go on
below one. -/
theorem follow (names : List String) : ∀ place, FollowsAlike places earlier later place names := by
  induction names with
  | nil => exact fun _ => .inl rfl
  | cons name rest ih =>
      intro place
      -- What is at the place decides; only a directory lets the names go on.
      rcases h.entries place with hkept | ⟨hmem, hfile, content, htext⟩
      · cases hentry : earlier.entry? place with
        | none =>
            left
            rw [follow_cons_of_none hentry, follow_cons_of_none (hkept.trans hentry)]
        | some entry =>
            by_cases hdirectory : entry = .directory
            · subst hdirectory
              exact h.follow_below hentry ih
            · left
              rw [follow_cons_of_file hentry hdirectory,
                follow_cons_of_file (hkept.trans hentry) hdirectory]
      · have hlater : later.follow place (name :: rest) = .error .notDirectory :=
          follow_cons_of_file htext nofun
        cases hentry : earlier.entry? place with
        | none =>
            exact .inr ⟨List.ne_nil_of_mem hmem, follow_cons_of_none hentry, .inl hlater⟩
        | some entry =>
            left
            rw [hlater, follow_cons_of_file hentry fun heq => hfile (heq ▸ hentry)]

/-- The directories that names lead to are the same. -/
theorem follow_directory_iff (names : List String) :
    (later.follow place names = .ok target ∧ later.entry? target = some .directory) ↔
      (earlier.follow place names = .ok target ∧ earlier.entry? target = some .directory) := by
  rcases h.follow names place with hsame | ⟨-, hearlier, hlater⟩
  · rw [hsame, h.directory_iff]
  · constructor
    · rintro ⟨hfollow, hdirectory⟩
      rcases hlater with hfault | ⟨-, content, htext⟩
      · rw [hfollow] at hfault
        cases hfault
      · rw [eq_descend_of_follow hfollow, htext] at hdirectory
        cases hdirectory
    · rintro ⟨hfollow, -⟩
      rw [hfollow] at hearlier
      cases hearlier

theorem resolveNew_iff : later.resolveNew path = .ok (some place) ↔
    earlier.resolveNew path = .ok (some place) := by
  rw [resolveNew_eq_some_iff, resolveNew_eq_some_iff, h.start_eq]
  have hsame (above : List String) (names : List String) :=
    @follow_directory_iff _ _ (earlier.start path) above _ h names
  constructor
  · rintro ⟨hvalid, names, name, above, hpieces, hname, hfollow, hdirectory, hplace⟩
    obtain ⟨hfollow, hdirectory⟩ := (hsame above names).mp ⟨hfollow, hdirectory⟩
    exact ⟨hvalid, names, name, above, hpieces, hname, hfollow, hdirectory, hplace⟩
  · rintro ⟨hvalid, names, name, above, hpieces, hname, hfollow, hdirectory, hplace⟩
    obtain ⟨hfollow, hdirectory⟩ := (hsame above names).mpr ⟨hfollow, hdirectory⟩
    exact ⟨hvalid, names, name, above, hpieces, hname, hfollow, hdirectory, hplace⟩

theorem writable_iff : later.Writable path ↔ earlier.Writable path := by
  have hdirectory (place : List String) : later.entry? place ≠ some .directory ↔
      earlier.entry? place ≠ some .directory := not_congr (h.directory_iff place)
  unfold Writable
  simp only [h.resolveNew_iff, hdirectory]

/-- A file that is none of those written is read as before.  If nothing was at its path, the cause
why it cannot be read may be that the path now goes on below a text. -/
theorem readText (hpath : earlier.placeOf path ∉ places) :
    later.readText path = earlier.readText path ∨
      (places ≠ [] ∧ earlier.readText path = .error .notFound ∧
        later.readText path = .error .notDirectory) := by
  unfold Workspace.readText resolve
  rw [h.start_eq]
  split_ifs with hvalid hempty
  · exact .inl rfl
  · exact .inl rfl
  · rcases h.follow (FilePath.pieces path) (earlier.start path) with
      hsame | ⟨hsome, hearlier, hlater⟩
    · left
      rw [hsame]
      cases hfollow : earlier.follow (earlier.start path) (FilePath.pieces path) with
      | error fault => rfl
      | ok place =>
          have hplace : place = earlier.placeOf path := eq_descend_of_follow hfollow
          have hentry := h.entry?_of_notMem (hplace ▸ hpath)
          simp only [hentry]
    · rcases hlater with hlater | ⟨hmem, -⟩
      · right
        rw [hearlier, hlater]
        exact ⟨hsome, rfl, rfl⟩
      · exact absurd hmem hpath

end Overlay

/-! ## Directories made -/

/-- The later workspace is the earlier one but for directories where nothing was. -/
structure Grown (earlier later : Workspace) : Prop where
  workingDirectory : later.workingDirectory = earlier.workingDirectory
  entries : ∀ place, later.entry? place = earlier.entry? place ∨
    earlier.entry? place = none ∧ later.entry? place = some .directory

namespace Grown

theorem refl (workspace : Workspace) : Grown workspace workspace :=
  ⟨rfl, fun _ => .inl rfl⟩

theorem trans (hfirst : Grown earlier later) (hsecond : Grown later final) :
    Grown earlier final := by
  refine ⟨hsecond.workingDirectory.trans hfirst.workingDirectory, fun place => ?_⟩
  rcases hsecond.entries place with hkept | ⟨hnone, hdirectory⟩
  · rw [hkept]
    exact hfirst.entries place
  · rcases hfirst.entries place with hkept | ⟨-, hmade⟩
    · exact .inr ⟨hkept ▸ hnone, hdirectory⟩
    · rw [hnone] at hmade
      cases hmade

theorem placeOf_eq (h : Grown earlier later) (path : String) :
    later.placeOf path = earlier.placeOf path :=
  placeOf_congr h.workingDirectory path

end Grown

theorem grown_createDirectory (workspace : Workspace) (path : String) :
    Grown workspace (workspace.createDirectory path).2 := by
  unfold createDirectory
  split
  · exact .refl workspace
  · split <;> exact .refl workspace
  · rename_i place hplace
    have hne := (resolveNew_eq_placeOf hplace).2
    split
    · exact .refl workspace
    · rename_i hnone
      refine ⟨rfl, fun other => ?_⟩
      rw [entry?_setEntry _ hne]
      split_ifs with heq
      · exact .inr ⟨heq ▸ hnone, rfl⟩
      · exact .inl rfl

theorem grown_ensureDirectory (workspace : Workspace) (path : String) :
    Grown workspace (workspace.ensureDirectory path).2 := by
  have hcreate := grown_createDirectory workspace path
  unfold ensureDirectory
  split
  · rename_i hrun
    rwa [hrun] at hcreate
  · rename_i hrun
    rw [hrun] at hcreate
    split_ifs <;> exact hcreate

theorem grown_createFrom (workspace : Workspace) (paths : List String) :
    Grown workspace (workspace.createFrom paths).2 := by
  induction paths generalizing workspace with
  | nil => exact .refl workspace
  | cons path above ih =>
      have hensure := grown_ensureDirectory workspace path
      unfold createFrom
      split
      · exact .refl workspace
      -- Where a path has nothing to be created in, those above it come first.
      · split
        · rename_i made hmade
          rw [hmade] at hensure
          have habove := hensure.trans (ih made)
          split
          · rename_i raised hraised
            rw [hraised] at habove
            exact habove.trans (grown_ensureDirectory raised path)
          · exact habove
        · exact hensure

/-- Making directories does nothing else. -/
theorem grown_createDirectories (workspace : Workspace) (path : String) :
    Grown workspace (workspace.createDirectories path).2 :=
  grown_createFrom workspace (FilePath.ancestors path)

end RouteTree.Workspace
