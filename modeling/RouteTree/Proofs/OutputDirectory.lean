import RouteTree.Proofs.Artifact
import RouteTree.Proofs.Building
import RouteTree.Proofs.Joining

/-!
# Where artifacts are written

The artifact of a group is a file of the output directory exactly when the name of the group is
not a path itself: a name without a slash adds one component (`artifactPath_isPlain_iff`), and a
relative path leads on from the place of its base (`placeOf_join`).  Each group of a build writes at
its own path only, which gives where a whole build writes by induction over the groups
(`run_buildGroups_ok`) and from there `Project.build_writes_into_outDir`.

Names are compared as they are spelled, and files are not.  So `en` and `./en` are two names, the
build of both succeeds, and one artifact is left (`Project.build_overwrites_respelled`).
-/

namespace RouteTree

/-! ## Paths below a directory -/

namespace FilePath

/-- A name of a file in a directory. -/
def IsPlain (name : String) : Prop :=
  name ≠ "" ∧ name ≠ "." ∧ name ≠ ".." ∧ '/' ∉ name.toList

theorem IsPlain.relative {name : String} (h : IsPlain name) : isAbsolute name = false := by
  unfold isAbsolute
  rw [decide_eq_false_iff_not]
  exact fun hhead => h.2.2.2 (List.mem_of_mem_head? hhead)

theorem IsPlain.pieces_eq {name : String} (h : IsPlain name) : pieces name = [name] := by
  unfold pieces
  rw [splitSlashes_of_not_mem h.2.2.2, List.map_singleton, String.ofList_toList]

theorem pieces_append_slash (base path : String) :
    pieces (base ++ "/" ++ path) = pieces base ++ pieces path := by
  have htext : (base ++ "/" ++ path).toList = base.toList ++ '/' :: path.toList := by simp
  unfold pieces
  rw [htext, splitSlashes_append_slash_cons, List.map_append]

/-- A base that ends in a slash is another one with a slash after it. -/
theorem exists_eq_append_slash {base : String} (h : base.toList.getLast? = some '/') :
    ∃ above, base = above ++ "/" := by
  obtain ⟨above, habove⟩ := List.getLast?_eq_some_iff.mp h
  refine ⟨String.ofList above, String.toList_inj.mp ?_⟩
  simpa using habove

theorem isAbsolute_append {path : String} (h : path ≠ "") (rest : String) :
    isAbsolute (path ++ rest) = isAbsolute path := by
  have hlist : path.toList ≠ [] := by simpa using h
  obtain ⟨c, others, hcons⟩ := List.exists_cons_of_ne_nil hlist
  unfold isAbsolute
  rw [String.toList_append, hcons]
  rfl

theorem join_cancel {base first second : String} (hfirst : isAbsolute first = false)
    (hsecond : isAbsolute second = false) (h : join base first = join base second) :
    first = second := by
  unfold join at h
  simp only [hfirst, hsecond, Bool.false_or] at h
  have hlist := congrArg String.toList h
  split_ifs at hlist
  · exact String.toList_inj.mp hlist
  · exact String.toList_inj.mp (by simpa using hlist)
  · exact String.toList_inj.mp (by simpa using hlist)

end FilePath

namespace Workspace

variable {workspace : Workspace} {base path name : String}

theorem descend_empty (place : List String) : descend place [""] = place := by
  simp [descend]

theorem start_append (h : base ≠ "") (rest : String) :
    workspace.start (base ++ rest) = workspace.start base := by
  unfold start
  rw [FilePath.isAbsolute_append h]

/-- A relative path leads on from where its base leads. -/
theorem placeOf_join (h : FilePath.isAbsolute path = false) :
    workspace.placeOf (FilePath.join base path) =
      descend (workspace.placeOf base) (FilePath.pieces path) := by
  unfold FilePath.join
  split_ifs with hbase hslash
  · obtain rfl : base = "" := by simpa [h] using hbase
    have hempty : workspace.placeOf "" = workspace.workingDirectory := descend_empty _
    rw [hempty, placeOf, start, h]
    rfl
  all_goals
    have hne : base ≠ "" := by
      rintro rfl
      simp at hbase
  -- A slash at the end of the base leaves an empty piece there, which leads nowhere.
  · obtain ⟨above, habove⟩ := FilePath.exists_eq_append_slash hslash
    have hpieces : FilePath.pieces base = FilePath.pieces above ++ [""] := by
      have hpieces := FilePath.pieces_append_slash above ""
      rwa [String.append_empty, ← habove] at hpieces
    have hjoined : FilePath.pieces (base ++ path) =
        FilePath.pieces above ++ FilePath.pieces path := by
      rw [habove]
      exact FilePath.pieces_append_slash above path
    calc
      workspace.placeOf (base ++ path)
      _ = descend (workspace.start base) (FilePath.pieces above ++ FilePath.pieces path) := by
          rw [placeOf, start_append hne, hjoined]
      _ = descend (descend (workspace.start base) (FilePath.pieces above))
            (FilePath.pieces path) := descend_append _ _ _
      _ = descend (workspace.placeOf base) (FilePath.pieces path) := by
          rw [placeOf, hpieces, descend_append, descend_empty]
  · unfold placeOf
    rw [FilePath.pieces_append_slash, descend_append, String.append_assoc, start_append hne]

theorem placeOf_join_plain (h : FilePath.IsPlain name) :
    workspace.placeOf (FilePath.join base name) = workspace.placeOf base ++ [name] := by
  have hname : ¬(name = "" ∨ name = "." ∨ name = "..") :=
    not_or.mpr ⟨h.1, not_or.mpr ⟨h.2.1, h.2.2.1⟩⟩
  rw [placeOf_join h.relative, h.pieces_eq, descend_name _ hname]

end Workspace

/-! ## The artifacts of a project -/

namespace Project

open Workspace (Overlay Grown)

variable {project : Project} {base : String} {workspace opened earlier later final : Workspace}
  {group other : ProjectGroup}

theorem isAbsolute_json (name : String) :
    FilePath.isAbsolute (name ++ ".json") = FilePath.isAbsolute name := by
  by_cases h : name = ""
  · subst h
    rfl
  · exact FilePath.isAbsolute_append h ".json"

theorem isPlain_json {name : String} (h : '/' ∉ name.toList) :
    FilePath.IsPlain (name ++ ".json") := by
  have hlength : ".json".length ≤ (name ++ ".json").length := by simp
  refine ⟨?_, ?_, ?_, by simpa using h⟩
  all_goals
    intro heq
    rw [heq] at hlength
    revert hlength
    decide

/-- An artifact is a plain file of the output directory if the name of its group has no slash.  If
the name has one, it is not, unless the name is a whole path. -/
theorem artifactPath_isPlain_iff (h : FilePath.isAbsolute group.name = false) :
    (∃ file, FilePath.IsPlain file ∧
      project.artifactPath base group = FilePath.join (project.outPath base) file) ↔
      '/' ∉ group.name.toList := by
  constructor
  · rintro ⟨file, hplain, hpath⟩ hslash
    have hfile := FilePath.join_cancel ((isAbsolute_json _).trans h) hplain.relative hpath
    exact hplain.2.2.2 (by simp [← hfile, hslash])
  · intro hslash
    exact ⟨_, isPlain_json hslash, rfl⟩

theorem artifactPath_inj (hgroup : '/' ∉ group.name.toList) (hother : '/' ∉ other.name.toList)
    (h : project.artifactPath base group = project.artifactPath base other) :
    group.name = other.name := by
  have hjson := FilePath.join_cancel (isPlain_json hgroup).relative (isPlain_json hother).relative h
  have hlist := congrArg String.toList hjson
  exact String.toList_inj.mp (by simpa using hlist)

theorem artifactPlace_of_not_mem (h : '/' ∉ group.name.toList) :
    artifactPlace workspace project base group =
      workspace.placeOf (project.outPath base) ++ [group.name ++ ".json"] :=
  Workspace.placeOf_join_plain (isPlain_json h)

theorem artifactPlace_inj (hgroup : '/' ∉ group.name.toList) (hother : '/' ∉ other.name.toList)
    (h : artifactPlace workspace project base group = artifactPlace workspace project base other) :
    group.name = other.name := by
  rw [artifactPlace_of_not_mem hgroup, artifactPlace_of_not_mem hother] at h
  have hlist := congrArg String.toList (List.singleton_inj.mp (List.append_cancel_left h))
  exact String.toList_inj.mp (by simpa using hlist)

/-! ## Names that are accepted -/

theorem nodup_of_faultInNames {before names : List String}
    (h : faultInNames before names = none) : names.Nodup ∧ ∀ name ∈ names, name ∉ before := by
  induction names generalizing before with
  | nil => exact ⟨List.nodup_nil, nofun⟩
  | cons name rest ih =>
      unfold faultInNames at h
      split_ifs at h with hempty hbefore
      obtain ⟨hnodup, hrest⟩ := ih h
      refine ⟨List.nodup_cons.mpr ⟨fun hmem => ?_, hnodup⟩, List.forall_mem_cons.mpr
        ⟨hbefore, fun other hmem => ?_⟩⟩
      · exact hrest name hmem (List.mem_cons_self ..)
      · exact fun hother => hrest other hmem (List.mem_cons_of_mem name hother)

theorem names_nodup_of_fault?_eq_none (h : project.fault? = none) :
    (project.groups.map (·.name)).Nodup := by
  unfold fault? at h
  split_ifs at h
  exact (nodup_of_faultInNames h).1

/-- What tells apart no fewer groups than their names do has no repetitions either. -/
theorem nodup_map_of_names {α : Type} {groups : List ProjectGroup} {f : ProjectGroup → α}
    (hnames : (groups.map (·.name)).Nodup)
    (hf : ∀ group ∈ groups, ∀ other ∈ groups, f group = f other → group.name = other.name) :
    (groups.map f).Nodup := by
  have hpairs := List.pairwise_map.mp hnames
  apply List.pairwise_map.mpr
  apply hpairs.imp_of_mem
  intro group other hgroup hother hne heq
  exact hne (hf group hgroup other hother heq)

/-! ## Builds that succeed -/

/-- The step of one group in a build of several, from where it meets the workspace to where it
leaves it.  The groups before it and those behind it write at their own places only. -/
structure Step (project : Project) (base : String) (total number : Nat)
    (begun final : Workspace) (before : List ProjectGroup) (group : ProjectGroup)
    (after : List ProjectGroup) (met later : Workspace) : Prop where
  run : (buildGroup Workspace.host project base number total group).run.run met =
    (.ok (project.artifactPath base group), later)
  earlier : Overlay (before.map (artifactPlace begun project base)) begun met
  step : Overlay [artifactPlace begun project base group] met later
  others : Overlay (after.map (artifactPlace begun project base)) later final
  text : ∃ compiled, compiledIn met project base group = .ok compiled ∧
    later.entry? (artifactPlace begun project base group) =
      some (.text (compiled.artifact project.pretty))

/-- A build that gets to its end makes a step for every group, and nothing else. -/
theorem run_buildGroups_ok {groups : List ProjectGroup} {total number : Nat} {paths : List String}
    {begun : Workspace}
    (hrun : (buildGroups Workspace.host project base total number groups).run.run begun =
      (.ok paths, final)) :
    paths = groups.map (project.artifactPath base) ∧
      Overlay (groups.map (artifactPlace begun project base)) begun final ∧
      ∀ before group after, groups = before ++ group :: after →
        ∃ met later, Step project base total (number + before.length) begun final before group
          after met later := by
  -- The induction is on the groups; `begun` is where the first of them meets the workspace.
  induction groups generalizing begun number paths with
  | nil =>
      have hrun : (Except.ok [], begun) = (Except.ok paths, final) := hrun
      obtain ⟨hpaths, rfl⟩ := Prod.mk.inj hrun
      refine ⟨(Except.ok.inj hpaths).symm, .refl [] begun, fun before group after h => ?_⟩
      exact absurd h (by simp)
  | cons first rest ih =>
      rw [run_buildGroups_cons] at hrun
      rcases run_buildGroup begun project base number total first with
        ⟨failure, later, hgroup, -⟩ | ⟨-, fault, later, hgroup, -⟩ |
        ⟨compiled, later, hgroup, hwritten⟩
      · rw [hgroup] at hrun
        cases (Prod.mk.inj hrun).1
      · rw [hgroup] at hrun
        cases (Prod.mk.inj hrun).1
      rw [hgroup] at hrun
      rcases hrest : (buildGroups Workspace.host project base total (number + 1) rest).run.run
        later with ⟨failure | others, ended⟩
      · simp only [hrest] at hrun
        cases (Prod.mk.inj hrun).1
      simp only [hrest] at hrun
      obtain ⟨hpaths, rfl⟩ := Prod.mk.inj hrun
      obtain rfl := Except.ok.inj hpaths
      obtain ⟨rfl, hlater, hsteps⟩ := ih hrest
      have hsame := artifactPlace_congr project base hwritten.overlay.workingDirectory
      rw [hsame] at hlater
      have hmore : ∀ place ∈ [artifactPlace begun project base first],
          place ∈ (first :: rest).map (artifactPlace begun project base) := by simp
      refine ⟨rfl, (hwritten.overlay.mono hmore).trans (hlater.mono (by simp +contextual)), ?_⟩
      -- The step asked for is that of the first group, or one of those behind it.
      intro before group after hsplit
      cases before with
      | nil =>
          obtain ⟨rfl, rfl⟩ := List.cons.inj hsplit
          exact ⟨begun, later, hgroup, .refl [] begun, hwritten.overlay, hlater, compiled,
            hwritten.compiles, hwritten.text⟩
      | cons first' before =>
          obtain ⟨rfl, hbehind⟩ := List.cons.inj hsplit
          obtain ⟨met, left, hstep⟩ := hsteps before group after hbehind
          refine ⟨met, left, ?_, ?_, ?_, ?_, ?_⟩
          · rw [List.length_cons, Nat.add_comm before.length 1, ← Nat.add_assoc]
            exact hstep.run
          · have hearlier := hstep.earlier
            rw [hsame] at hearlier
            exact (hwritten.overlay.mono (by simp)).trans (hearlier.mono (by simp +contextual))
          · rw [← hsame]
            exact hstep.step
          · rw [← hsame]
            exact hstep.others
          · rw [← hsame]
            exact hstep.text

section Step

variable {total number : Nat} {begun ended met : Workspace} {before after : List ProjectGroup}

/-- What is printed before and after is no part of a step. -/
theorem Step.of_overlay
    (h : Step project base total number begun ended before group after met later)
    (hbegun : Overlay [] opened begun) (hended : Overlay [] ended final) :
    Step project base total number opened final before group after met later := by
  have hplace := artifactPlace_congr project base hbegun.workingDirectory
  have hearlier := h.earlier
  have hstep := h.step
  have hothers := h.others
  have htext := h.text
  rw [hplace] at hearlier hstep hothers htext
  exact ⟨h.run, (hbegun.mono (by simp)).trans hearlier, hstep,
    hothers.trans (hended.mono (by simp)), htext⟩

/-- Of the artifacts at one place the last is there in the end. -/
theorem Step.final_text
    (h : Step project base total number begun final before group after met later)
    (hplace : artifactPlace begun project base group ∉
      after.map (artifactPlace begun project base)) :
    final.entry? (artifactPlace begun project base group) =
      later.entry? (artifactPlace begun project base group) :=
  h.others.entry?_of_notMem hplace

end Step

/-- Where no name of a group has a slash, a build that succeeds writes one artifact for each group,
and each is a file of its own right in the output directory.  No group writes at the place of
another one's artifact, so what a group has written is there in the end, and nothing is written
anywhere else. -/
theorem build_writes_into_outDir {paths : List String} (hvalid : project.fault? = none)
    (hnames : ∀ group ∈ project.groups, '/' ∉ group.name.toList)
    (hrun : (build Workspace.host project base none).run.run workspace = (.ok paths, final)) :
    paths = project.groups.map (project.artifactPath base) ∧ paths.Nodup ∧
      (∀ group ∈ project.groups, ∃ file, FilePath.IsPlain file ∧
        project.artifactPath base group = FilePath.join (project.outPath base) file ∧
        artifactPlace workspace project base group =
          workspace.placeOf (project.outPath base) ++ [file]) ∧
      (project.groups.map (artifactPlace workspace project base)).Nodup ∧
      ∃ opened, workspace.createDirectories (project.outPath base) = (.ok (), opened) ∧
        Grown workspace opened ∧
        Overlay (project.groups.map (artifactPlace workspace project base)) opened final ∧
        ∀ before group after, project.groups = before ++ group :: after →
          ∃ met later, Step project base project.groups.length (1 + before.length) opened final
            before group after met later ∧
            final.entry? (artifactPlace workspace project base group) =
              later.entry? (artifactPlace workspace project base group) := by
  have hdistinct := names_nodup_of_fault?_eq_none hvalid
  obtain ⟨opened, hopened, hgrown⟩ :=
    createDirectories_of_run_build (select_none project) hrun nofun
  have hsame := artifactPlace_congr project base hgrown.workingDirectory
  obtain ⟨text, ended, hgroups, hfinal, -⟩ :=
    run_buildGroups_of_run_build (select_none project) hopened hrun
  obtain ⟨rfl, hoverlay, hsteps⟩ := run_buildGroups_ok hgroups
  have hpaths : (project.groups.map (project.artifactPath base)).Nodup :=
    nodup_map_of_names hdistinct fun group hgroup other hother =>
      artifactPath_inj (hnames group hgroup) (hnames other hother)
  have hplaces : (project.groups.map (artifactPlace workspace project base)).Nodup :=
    nodup_map_of_names hdistinct fun group hgroup other hother =>
      artifactPlace_inj (hnames group hgroup) (hnames other hother)
  have hbegun := (Overlay.refl [] opened).printed text
  have hplace := (artifactPlace_congr project base hbegun.workingDirectory).trans hsame
  rw [hplace] at hoverlay
  refine ⟨rfl, hpaths, ?_, hplaces, opened, hopened, hgrown, ?_, ?_⟩
  · intro group hgroup
    exact ⟨_, isPlain_json (hnames group hgroup), rfl,
      artifactPlace_of_not_mem (hnames group hgroup)⟩
  · exact ((hbegun.mono (by simp)).trans hoverlay).trans (hfinal.mono (by simp))
  · intro before group after hsplit
    obtain ⟨met, later, hstep⟩ := hsteps before group after hsplit
    have hothers : artifactPlace workspace project base group ∉
        after.map (artifactPlace workspace project base) := by
      rw [hsplit, List.map_append, List.map_cons] at hplaces
      exact (List.nodup_cons.mp (List.nodup_append.mp hplaces).2.1).1
    have hstep := hstep.of_overlay hbegun hfinal
    refine ⟨met, later, hstep, ?_⟩
    have htext := hstep.final_text (by rwa [hsame])
    rwa [hsame] at htext

/-- A site whose groups have the same routes but for a reserved path.  Their names are two spellings
of one file. -/
def respelled : Project where
  name := "site"
  outDir := "out"
  groups := [{ name := "en", routesFile := "en.json" },
    { name := "./en", routesFile := "en.json", reserved := ["/admin/"] }]

/-- The files of that site. -/
def respelledFiles : Workspace where
  entries := [(["en.json"], .text "{}")]

/-- The names are accepted and the build succeeds.  The second artifact is none of the plain files
of the output directory: it takes the place of the first, which is lost. -/
theorem build_overwrites_respelled :
    respelled.fault? = none ∧ ∃ final first,
      (build Workspace.host respelled "" none).run.run respelledFiles =
        (.ok ["out/en.json", "out/./en.json"], final) ∧
      (¬∃ file, FilePath.IsPlain file ∧
        respelled.artifactPath "" respelled.groups[1] =
          FilePath.join (respelled.outPath "") file) ∧
      artifactPlace respelledFiles respelled "" respelled.groups[0] =
        artifactPlace respelledFiles respelled "" respelled.groups[1] ∧
      compiledIn respelledFiles respelled "" respelled.groups[0] = .ok first ∧
      final.entry? (artifactPlace respelledFiles respelled "" respelled.groups[0]) ≠
        some (.text (first.artifact respelled.pretty)) := by
  have hpaths : ((build Workspace.host respelled "" none).run.run respelledFiles).1.toOption =
      some ["out/en.json", "out/./en.json"] := by decide +kernel
  rcases hrun : (build Workspace.host respelled "" none).run.run respelledFiles with
    ⟨failure | paths, final⟩
  · rw [hrun] at hpaths
    cases hpaths
  rw [hrun] at hpaths
  obtain rfl : paths = _ := Option.some.inj hpaths
  obtain ⟨first, hfirst⟩ := exists_ok_of_isOk (show
    (compiledIn respelledFiles respelled "" respelled.groups[0]).isOk = true by decide +kernel)
  refine ⟨by decide +kernel, final, first, rfl, ?_, by decide +kernel, hfirst, ?_⟩
  · rw [artifactPath_isPlain_iff (by decide +kernel)]
    decide +kernel
  -- The texts are long, and the trees that they hold differ in size already.
  obtain ⟨opened, hopened, hgrown⟩ :=
    createDirectories_of_run_build (select_none respelled) hrun nofun
  obtain ⟨text, ended, hgroups, hfinal, -⟩ :=
    run_buildGroups_of_run_build (select_none respelled) hopened hrun
  obtain ⟨-, -, hsteps⟩ := run_buildGroups_ok hgroups
  obtain ⟨met, later, hstep⟩ := hsteps [respelled.groups[0]] respelled.groups[1] [] rfl
  have hstep := hstep.of_overlay ((Overlay.refl [] opened).printed text) hfinal
  obtain rfl : (respelledFiles.createDirectories (respelled.outPath "")).2 = opened :=
    congrArg Prod.snd hopened
  obtain ⟨second, hmet, htext⟩ := hstep.text
  have hsecond := (compiledIn_overlay_ok hstep.earlier (by decide +kernel) second).mp hmet
  have hsizes : (compiledIn respelledFiles respelled "" respelled.groups[0]).toOption.map
      (·.tree.size) ≠ (compiledIn (respelledFiles.createDirectories (respelled.outPath "")).2
        respelled "" respelled.groups[1]).toOption.map (·.tree.size) := by decide +kernel
  have hplace : artifactPlace respelledFiles respelled "" respelled.groups[0] =
      artifactPlace (respelledFiles.createDirectories (respelled.outPath "")).2 respelled ""
        respelled.groups[1] := by decide +kernel
  rw [hfirst, hsecond] at hsizes
  rw [hplace, hstep.final_text List.not_mem_nil, htext]
  intro hlost
  obtain ⟨htree, -⟩ := Compiled.eq_of_artifact_eq (FileEntry.text.inj (Option.some.inj hlost))
  exact hsizes (congrArg some (congrArg Tree.size htree.symm))

/-- The same site with two plain names. -/
def plainlySpelled : Project :=
  { respelled with
    groups := [{ name := "en", routesFile := "en.json" },
      { name := "en.admin", routesFile := "en.json", reserved := ["/admin/"] }] }

/-- Both artifacts are there. -/
theorem build_writes_plainly_spelled :
    ∃ paths final, plainlySpelled.fault? = none ∧
      (build Workspace.host plainlySpelled "" none).run.run respelledFiles = (.ok paths, final) ∧
      paths = ["out/en.json", "out/en.admin.json"] ∧ paths.Nodup := by
  obtain ⟨paths, hpaths⟩ := exists_ok_of_isOk (show
    ((build Workspace.host plainlySpelled "" none).run.run respelledFiles).1.isOk = true by
      decide +kernel)
  have hrun : (build Workspace.host plainlySpelled "" none).run.run respelledFiles =
      (.ok paths, ((build Workspace.host plainlySpelled "" none).run.run respelledFiles).2) := by
    rw [← hpaths, Prod.eta]
  have hvalid : plainlySpelled.fault? = none := by decide +kernel
  obtain ⟨hall, hdistinct, -⟩ := build_writes_into_outDir hvalid (by decide +kernel) hrun
  exact ⟨paths, _, hvalid, hrun, hall.trans (by decide +kernel), hdistinct⟩

end Project
end RouteTree
