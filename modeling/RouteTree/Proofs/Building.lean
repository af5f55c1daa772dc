import RouteTree.Project.Build
import RouteTree.Proofs.Collision
import RouteTree.Proofs.Places

/-!
# What a build leaves

A build works through the groups in their order, and all that one group hands on to the next is the
workspace.  The artifact of a group is written there, and it is the only thing that is; so a group
that is compiled after others finds its file of routes as if it were the first, as long as no
artifact takes the place of that file (`compiledIn_overlay`).

One group is a step with three ends (`run_buildGroup`): it does not compile, its artifact cannot be
written, or its artifact is there and nothing else has changed.  Groups that compile are passed in
one run (`run_buildGroups_append`), which ends at the first group that does not.  What is there by
then is compared with what a build of each group by itself leaves
(`build_leaves_finished_groups`).
-/

namespace RouteTree

/-! ## Commands on a workspace -/

namespace Workspace

/-- A part of a command: it changes a workspace, and it may fail. -/
abbrev Action (α : Type) := ExceptT Failure (StateM Workspace) α

theorem run_bind {α β : Type} (first : Action α) (next : α → Action β) (workspace : Workspace) :
    (first >>= next).run.run workspace =
      match first.run.run workspace with
      | (.ok value, later) => (next value).run.run later
      | (.error failure, later) => (.error failure, later) := by
  rw [ExceptT.run_bind, StateT.run_bind]
  rcases first.run.run workspace with ⟨failure | value, later⟩ <;> rfl

theorem run_liftM {α : Type} (operation : StateM Workspace α) (workspace : Workspace) :
    (liftM operation : Action α).run.run workspace =
      (.ok (operation.run workspace).1, (operation.run workspace).2) := rfl

/-- The workspace with one more text printed. -/
def printed (workspace : Workspace) (text : String) : Workspace :=
  { workspace with output := workspace.output ++ text }

/-- The workspace with one more text printed as an error. -/
def warned (workspace : Workspace) (text : String) : Workspace :=
  { workspace with errors := workspace.errors ++ text }

theorem Overlay.printed {places : List (List String)} {earlier later : Workspace}
    (h : Overlay places earlier later) (text : String) :
    Overlay places earlier (later.printed text) :=
  ⟨h.workingDirectory, h.entries⟩

theorem Overlay.warned {places : List (List String)} {earlier later : Workspace}
    (h : Overlay places earlier later) (text : String) :
    Overlay places earlier (later.warned text) :=
  ⟨h.workingDirectory, h.entries⟩

theorem run_print (text : String) (workspace : Workspace) :
    (host.print text).run workspace = ((), workspace.printed text) := rfl

theorem run_printError (text : String) (workspace : Workspace) :
    (host.printError text).run workspace = ((), workspace.warned text) := rfl

theorem run_readText (path : String) (workspace : Workspace) :
    (host.readText path).run workspace = (workspace.readText path, workspace) := rfl

theorem run_writeText (path content : String) (workspace : Workspace) :
    (host.writeText path content).run workspace = workspace.writeText path content := rfl

theorem run_createDirectories (path : String) (workspace : Workspace) :
    (host.createDirectories path).run workspace = workspace.createDirectories path := rfl

end Workspace

namespace Project

open Workspace (Overlay Grown)

variable {project : Project} {base : String} {workspace opened earlier later final : Workspace}
  {group : ProjectGroup} {places : List (List String)}

/-! ## Compiling a group -/

/-- What compiling a group comes to in a workspace. -/
def compiledIn (workspace : Workspace) (project : Project) (base : String)
    (group : ProjectGroup) : Except Failure Compiled :=
  ((compileGroup Workspace.host project base group).run.run workspace).1

theorem run_compileGroup (workspace : Workspace) (project : Project) (base : String)
    (group : ProjectGroup) :
    (compileGroup Workspace.host project base group).run.run workspace =
      (match workspace.readText (FilePath.join base group.routesFile) with
        | .error fault => .error (.cannotRead (FilePath.join base group.routesFile) fault)
        | .ok text => project.compileRoutes group (FilePath.join base group.routesFile) text,
        workspace) := by
  unfold compileGroup
  rw [Workspace.run_bind, Workspace.run_liftM, Workspace.run_readText]
  cases workspace.readText (FilePath.join base group.routesFile) with
  | error fault => rfl
  | ok text =>
      cases hroutes : project.compileRoutes group (FilePath.join base group.routesFile) text with
      | error failure =>
          simp only [hroutes]
          rfl
      | ok compiled =>
          simp only [hroutes]
          rfl

/-- Compiling reads and does nothing else. -/
theorem run_compileGroup_eq (workspace : Workspace) (project : Project) (base : String)
    (group : ProjectGroup) :
    (compileGroup Workspace.host project base group).run.run workspace =
      (compiledIn workspace project base group, workspace) := by
  unfold compiledIn
  rw [run_compileGroup]

/-- A group whose file of routes is none of the texts written is compiled as before, up to the cause
why its file is not there. -/
theorem compiledIn_overlay (project : Project) (h : Overlay places earlier later)
    (hroutes : earlier.placeOf (FilePath.join base group.routesFile) ∉ places) :
    compiledIn later project base group = compiledIn earlier project base group ∨
      (places ≠ [] ∧ ∃ path,
        compiledIn earlier project base group = .error (.cannotRead path .notFound) ∧
        compiledIn later project base group = .error (.cannotRead path .notDirectory)) := by
  unfold compiledIn
  rw [run_compileGroup, run_compileGroup]
  rcases h.readText hroutes with hsame | ⟨hsome, hearlier, hlater⟩
  · left
    rw [hsame]
  · right
    rw [hearlier, hlater]
    exact ⟨hsome, _, rfl, rfl⟩

/-- Printing changes nothing for what is compiled. -/
theorem compiledIn_same (h : Overlay [] earlier later) :
    compiledIn later project base group = compiledIn earlier project base group := by
  rcases compiledIn_overlay project h List.not_mem_nil with hsame | ⟨hsome, -⟩
  · exact hsame
  · exact absurd rfl hsome

theorem compiledIn_overlay_ok (h : Overlay places earlier later)
    (hroutes : earlier.placeOf (FilePath.join base group.routesFile) ∉ places)
    (compiled : Compiled) :
    compiledIn later project base group = .ok compiled ↔
      compiledIn earlier project base group = .ok compiled := by
  rcases compiledIn_overlay project h hroutes with hsame | ⟨-, path, hearlier, hlater⟩
  · rw [hsame]
  · rw [hearlier, hlater]
    simp

/-! ## Building a group -/

/-- Building a group: two texts are printed before the artifact is written, and one after. -/
theorem run_buildGroup_eq (workspace : Workspace) (project : Project) (base : String)
    (number total : Nat) (group : ProjectGroup) :
    (buildGroup Workspace.host project base number total group).run.run workspace =
      let begun := workspace.printed (Terminal.step number total ("group " ++ group.name))
      let path := project.artifactPath base group
      match compiledIn begun project base group with
      | .error failure => (.error failure, begun)
      | .ok compiled =>
        match (begun.warned (warningLines compiled)).writeText path
            (compiled.artifact project.pretty) with
        | (.error fault, later) => (.error (.cannotWrite path fault), later)
        | (.ok (), later) => (.ok path, later.printed (summary path compiled)) := by
  unfold buildGroup
  rw [Workspace.run_bind, Workspace.run_liftM, Workspace.run_print]
  simp only
  rw [Workspace.run_bind, run_compileGroup_eq]
  generalize workspace.printed _ = begun
  cases compiledIn begun project base group with
  | error failure => rfl
  | ok compiled =>
      simp only
      rw [Workspace.run_bind, Workspace.run_liftM, Workspace.run_printError]
      simp only
      rw [Workspace.run_bind, Workspace.run_liftM, Workspace.run_writeText]
      rcases (begun.warned _).writeText _ _ with ⟨fault | done, later⟩ <;> rfl

/-- The place of a group's artifact. -/
def artifactPlace (workspace : Workspace) (project : Project) (base : String)
    (group : ProjectGroup) : List String :=
  workspace.placeOf (project.artifactPath base group)

theorem artifactPlace_congr (project : Project) (base : String)
    (h : later.workingDirectory = earlier.workingDirectory) :
    artifactPlace later project base = artifactPlace earlier project base :=
  funext fun group => Workspace.placeOf_congr h (project.artifactPath base group)

/-- The artifact of a group is written, and nothing else. -/
structure Written (project : Project) (base : String) (workspace later : Workspace)
    (group : ProjectGroup) (compiled : Compiled) : Prop where
  compiles : compiledIn workspace project base group = .ok compiled
  writable : workspace.Writable (project.artifactPath base group)
  overlay : Overlay [artifactPlace workspace project base group] workspace later
  text : later.entry? (artifactPlace workspace project base group) =
    some (.text (compiled.artifact project.pretty))

/-- The three ends that the build of a group can come to. -/
theorem run_buildGroup (workspace : Workspace) (project : Project) (base : String)
    (number total : Nat) (group : ProjectGroup) :
    (∃ failure later,
      (buildGroup Workspace.host project base number total group).run.run workspace =
        (.error failure, later) ∧
      Overlay [] workspace later ∧ compiledIn later project base group = .error failure) ∨
    (∃ compiled fault later,
      (buildGroup Workspace.host project base number total group).run.run workspace =
        (.error (.cannotWrite (project.artifactPath base group) fault), later) ∧
      compiledIn workspace project base group = .ok compiled ∧
      ¬workspace.Writable (project.artifactPath base group)) ∨
    (∃ compiled later,
      (buildGroup Workspace.host project base number total group).run.run workspace =
        (.ok (project.artifactPath base group), later) ∧
      Written project base workspace later group compiled) := by
  rw [run_buildGroup_eq]
  have hbegun := (Overlay.refl [] workspace).printed
    (Terminal.step number total ("group " ++ group.name))
  -- What has been printed is no part of the files, and nothing else is known of it below.
  generalize workspace.printed _ = begun at hbegun ⊢
  cases hcompiled : compiledIn begun project base group with
  | error failure => exact .inl ⟨failure, begun, by simp [hcompiled], hbegun, hcompiled⟩
  | ok compiled =>
      right
      simp only [hcompiled]
      have hcompiles := (compiledIn_same hbegun).symm.trans hcompiled
      have hwarned := hbegun.warned (warningLines compiled)
      generalize begun.warned _ = warned at hwarned ⊢
      have hplace : warned.placeOf (project.artifactPath base group) =
          artifactPlace workspace project base group := hwarned.placeOf_eq _
      by_cases hwritable : workspace.Writable (project.artifactPath base group)
      · right
        have hnow := hwarned.writable_iff.mpr hwritable
        have hwrite := Overlay.write hnow (compiled.artifact project.pretty)
        have htext (place : List String) := @Workspace.entry?_setEntry warned _
          (.text (compiled.artifact project.pretty)) hnow.placeOf_ne_nil place
        rw [Workspace.writeText_of_writable hnow]
        rw [hplace] at hwrite htext ⊢
        refine ⟨compiled, _, rfl, hcompiles, hwritable, ?_, ?_⟩
        · exact ((hwarned.mono (by simp)).trans hwrite).printed _
        · exact (htext _).trans (if_pos rfl)
      · left
        obtain ⟨fault, hfault⟩ := Workspace.writeText_of_not_writable
          (mt hwarned.writable_iff.mp hwritable) (compiled.artifact project.pretty)
        rw [hfault]
        exact ⟨compiled, fault, _, rfl, hcompiles, hwritable⟩

/-! ## Building groups -/

theorem run_buildGroups_cons (workspace : Workspace) (project : Project) (base : String)
    (total number : Nat) (group : ProjectGroup) (rest : List ProjectGroup) :
    (buildGroups Workspace.host project base total number (group :: rest)).run.run workspace =
      match (buildGroup Workspace.host project base number total group).run.run workspace with
      | (.error failure, later) => (.error failure, later)
      | (.ok path, later) =>
        let (result, final) :=
          (buildGroups Workspace.host project base total (number + 1) rest).run.run later
        (result.map (path :: ·), final) := by
  rw [buildGroups, Workspace.run_bind]
  rcases (buildGroup Workspace.host project base number total group).run.run workspace with
    ⟨failure | path, later⟩
  · rfl
  · simp only
    rw [Workspace.run_bind]
    rcases (buildGroups Workspace.host project base total (number + 1) rest).run.run later with
      ⟨failure | paths, final⟩ <;> rfl

/-- The artifacts of some groups are there, each as the group compiles in `opened`, and nothing else
has changed. -/
structure Finished (project : Project) (base : String) (opened earlier later : Workspace)
    (groups : List ProjectGroup) : Prop where
  artifacts : ∀ group ∈ groups, ∃ compiled, compiledIn opened project base group = .ok compiled ∧
    opened.Writable (project.artifactPath base group) ∧
      later.entry? (artifactPlace opened project base group) =
        some (.text (compiled.artifact project.pretty))
  others : ∀ place, (∀ group ∈ groups, place ≠ artifactPlace opened project base group) →
    later.entry? place = earlier.entry? place

/-- Whatever texts are laid over `opened` before, a group leaves its artifact as it compiles in
`opened`. -/
theorem Written.finished_cons {groups : List ProjectGroup} {compiled : Compiled}
    (hfirst : Written project base earlier later group compiled)
    (h : Overlay places opened earlier)
    (hroutes : opened.placeOf (FilePath.join base group.routesFile) ∉ places)
    (hrest : Finished project base opened later final groups)
    (hplace : artifactPlace opened project base group ∉
      groups.map (artifactPlace opened project base)) :
    Finished project base opened earlier final (group :: groups) := by
  have hsame : artifactPlace earlier project base group =
      artifactPlace opened project base group := h.placeOf_eq _
  have hcompiles := (compiledIn_overlay_ok h hroutes compiled).mp hfirst.compiles
  have hwritable := h.writable_iff.mp hfirst.writable
  have hothers : ∀ other ∈ groups,
      artifactPlace opened project base group ≠ artifactPlace opened project base other := by
    intro other hmem heq
    apply hplace
    rw [heq]
    exact List.mem_map_of_mem hmem
  refine ⟨?_, fun place hother => ?_⟩
  · refine List.forall_mem_cons.mpr ⟨⟨compiled, hcompiles, hwritable, ?_⟩, hrest.artifacts⟩
    rw [hrest.others _ hothers, ← hsame]
    exact hfirst.text
  · obtain ⟨hne, hothers⟩ := List.forall_mem_cons.mp hother
    rw [hrest.others place hothers]
    exact hfirst.overlay.entry?_of_notMem (by rwa [hsame, List.mem_singleton])

/-- Groups that compile are passed: the build goes on with the groups behind them, unless an
artifact cannot be written. -/
theorem run_buildGroups_append {before rest : List ProjectGroup} {total number : Nat}
    {result : Except Failure (List String)} (h : Overlay places opened workspace)
    (hroutes : ∀ group ∈ before, opened.placeOf (FilePath.join base group.routesFile) ∉ places)
    (hplaces : ∀ group ∈ before, artifactPlace opened project base group ∈ places)
    (hnodup : (before.map (artifactPlace opened project base)).Nodup)
    (hcompiles : ∀ group ∈ before, ∃ compiled,
      compiledIn opened project base group = .ok compiled)
    (hrun : (buildGroups Workspace.host project base total number (before ++ rest)).run.run
      workspace = (result, final))
    (hwrite : ∀ path fault, result ≠ .error (.cannotWrite path fault)) :
    ∃ later restResult,
      (buildGroups Workspace.host project base total (number + before.length) rest).run.run later =
        (restResult, final) ∧
      result = restResult.map (before.map (project.artifactPath base) ++ ·) ∧
      Overlay places opened later ∧ Finished project base opened workspace later before := by
  -- The induction is on the groups passed.  It is carried by `Overlay`: however many artifacts are
  -- there, the next group compiles as it does in `opened`.
  induction before generalizing workspace number result with
  | nil =>
      refine ⟨workspace, result, hrun, ?_, h, nofun, fun _ _ => rfl⟩
      cases result <;> rfl
  | cons group before ih =>
      obtain ⟨hroute, hroutes⟩ := List.forall_mem_cons.mp hroutes
      obtain ⟨hplace, hplaces⟩ := List.forall_mem_cons.mp hplaces
      obtain ⟨⟨compiled, hcompiled⟩, hcompiles⟩ := List.forall_mem_cons.mp hcompiles
      obtain ⟨hfresh, hnodup⟩ := List.nodup_cons.mp hnodup
      rw [List.cons_append, run_buildGroups_cons] at hrun
      rcases run_buildGroup workspace project base number total group with
        ⟨failure, later, hgroup, hlater, hfailure⟩ | ⟨-, fault, later, hgroup, -⟩ |
        ⟨compiled, later, hgroup, hwritten⟩
      -- It compiles in `opened`, so the first end is none.
      · have hlater := h.trans (hlater.mono (by simp))
        have hagain := (compiledIn_overlay_ok hlater hroute compiled).mpr hcompiled
        rw [hfailure] at hagain
        cases hagain
      · rw [hgroup] at hrun
        exact absurd (Prod.mk.inj hrun).1.symm (hwrite _ fault)
      · rw [hgroup] at hrun
        rcases hrest : (buildGroups Workspace.host project base total (number + 1)
          (before ++ rest)).run.run later with ⟨restResult, ended⟩
        simp only [hrest] at hrun
        obtain ⟨rfl, rfl⟩ := Prod.mk.inj hrun
        have hrestWrite (path : String) (fault : FileFault) :
            restResult ≠ .error (.cannotWrite path fault) := by
          rintro rfl
          exact hwrite path fault rfl
        have hsame : artifactPlace workspace project base group =
            artifactPlace opened project base group := h.placeOf_eq _
        have hlater := h.trans (hwritten.overlay.mono (by simpa [hsame] using hplace))
        obtain ⟨passed, lastResult, hlast, rfl, hpassed, hfinished⟩ :=
          ih hlater hroutes hplaces hnodup hcompiles hrest hrestWrite
        refine ⟨passed, lastResult, ?_, ?_, hpassed,
          hwritten.finished_cons h hroute hfinished hfresh⟩
        · rw [List.length_cons, Nat.add_comm before.length 1, ← Nat.add_assoc]
          exact hlast
        · cases lastResult <;> rfl

/-- A build ends at a group that does not compile.  It tells the failure as it meets it. -/
theorem run_buildGroups_fails {rest : List ProjectGroup} {total number : Nat} {failure : Failure}
    {result : Except Failure (List String)} (h : Overlay places opened workspace)
    (hroutes : opened.placeOf (FilePath.join base group.routesFile) ∉ places)
    (hfails : compiledIn opened project base group = .error failure)
    (hrun : (buildGroups Workspace.host project base total number (group :: rest)).run.run
      workspace = (result, final)) :
    Overlay [] workspace final ∧ ∃ reported, result = .error reported ∧
      compiledIn final project base group = .error reported ∧
      (reported = failure ∨ places ≠ [] ∧ ∃ path, failure = .cannotRead path .notFound ∧
        reported = .cannotRead path .notDirectory) := by
  rw [run_buildGroups_cons] at hrun
  rcases run_buildGroup workspace project base number total group with
    ⟨reported, stopped, hgroup, hkept, hreported⟩ | ⟨compiled, fault, stopped, -, hcompiled, -⟩ |
    ⟨compiled, stopped, -, hwritten⟩
  · rw [hgroup] at hrun
    obtain ⟨rfl, rfl⟩ := Prod.mk.inj hrun
    refine ⟨hkept, reported, rfl, hreported, ?_⟩
    have hmet := (compiledIn_same hkept).symm.trans hreported
    rcases compiledIn_overlay project h hroutes with hsame | ⟨hsome, path, hmissing, hbelow⟩
    · rw [hmet, hfails] at hsame
      exact .inl (Except.error.inj hsame)
    · rw [hfails] at hmissing
      rw [hmet] at hbelow
      exact .inr ⟨hsome, path, Except.error.inj hmissing, Except.error.inj hbelow⟩
  · have hagain := (compiledIn_overlay_ok h hroutes compiled).mp hcompiled
    rw [hfails] at hagain
    cases hagain
  · have hagain := (compiledIn_overlay_ok h hroutes compiled).mp hwritten.compiles
    rw [hfails] at hagain
    cases hagain

/-! ## The whole build -/

theorem run_build {groups : List ProjectGroup} {only : Option String}
    (hselect : project.select only = .ok groups)
    (hopened : workspace.createDirectories (project.outPath base) = (.ok (), opened)) :
    (build Workspace.host project base only).run.run workspace =
      let begun := opened.printed (Terminal.arrow ("compiling " ++ toString groups.length ++
        " route group(s) for " ++ project.name))
      match (buildGroups Workspace.host project base groups.length 1 groups).run.run begun with
      | (.error failure, final) => (.error failure, final)
      | (.ok paths, final) =>
        (.ok paths, final.printed ("\n" ++ Terminal.done "build complete")) := by
  unfold build
  rw [hselect]
  simp only
  rw [Workspace.run_bind, Workspace.run_liftM, Workspace.run_createDirectories, hopened]
  simp only
  rw [Workspace.run_bind, Workspace.run_liftM, Workspace.run_print]
  simp only
  rw [Workspace.run_bind]
  rcases (buildGroups Workspace.host project base groups.length 1 groups).run.run _ with
    ⟨failure | paths, final⟩ <;> rfl

/-- A build that does not fail for its directory has made it, and has changed nothing else so far.
-/
theorem createDirectories_of_run_build {groups : List ProjectGroup} {only : Option String}
    {result : Except Failure (List String)} (hselect : project.select only = .ok groups)
    (hrun : (build Workspace.host project base only).run.run workspace = (result, final))
    (hcreate : ∀ path fault, result ≠ .error (.cannotCreate path fault)) :
    ∃ opened, workspace.createDirectories (project.outPath base) = (.ok (), opened) ∧
      Grown workspace opened := by
  have hgrown := Workspace.grown_createDirectories workspace (project.outPath base)
  rcases hopened : workspace.createDirectories (project.outPath base) with ⟨fault | done, opened⟩
  · unfold build at hrun
    rw [hselect] at hrun
    simp only at hrun
    rw [Workspace.run_bind, Workspace.run_liftM, Workspace.run_createDirectories, hopened] at hrun
    exact absurd (Prod.mk.inj hrun).1.symm (hcreate _ fault)
  · rw [hopened] at hgrown
    exact ⟨opened, rfl, hgrown⟩

theorem select_none (project : Project) : project.select none = .ok project.groups := rfl

theorem select_name (hnames : (project.groups.map (·.name)).Nodup)
    (hgroup : group ∈ project.groups) : project.select (some group.name) = .ok [group] := by
  have hfind : project.groups.find? (·.name = group.name) = some group := by
    generalize project.groups = groups at hnames hgroup
    induction groups with
    | nil => cases hgroup
    | cons first rest ih =>
        obtain ⟨hfresh, hnames⟩ : first.name ∉ rest.map (·.name) ∧ (rest.map (·.name)).Nodup :=
          List.nodup_cons.mp hnames
        rcases List.mem_cons.mp hgroup with rfl | hgroup
        · exact List.find?_cons_of_pos (by simp)
        · have hmem : group.name ∈ rest.map (·.name) := List.mem_map_of_mem hgroup
          have hne : first.name ≠ group.name := by
            intro heq
            rw [heq] at hfresh
            exact hfresh hmem
          rw [List.find?_cons_of_neg (by simpa using hne)]
          exact ih hnames hgroup
  unfold select
  simp only [hfind]

/-- The groups of a project have different names, their artifacts are pairwise different files, and
none of these is a file of routes. -/
structure Apart (project : Project) (base : String) (workspace : Workspace) : Prop where
  names : (project.groups.map (·.name)).Nodup
  places : (project.groups.map (artifactPlace workspace project base)).Nodup
  routes : ∀ group ∈ project.groups, ∀ other ∈ project.groups,
    workspace.placeOf (FilePath.join base group.routesFile) ≠
      artifactPlace workspace project base other

theorem Apart.of_grown (h : project.Apart base workspace) (hgrown : Grown workspace opened) :
    project.Apart base opened := by
  have hsame := artifactPlace_congr project base hgrown.workingDirectory
  refine ⟨h.names, ?_, ?_⟩
  · rw [hsame]
    exact h.places
  · intro group hgroup other hother
    rw [hgrown.placeOf_eq, hsame]
    exact h.routes group hgroup other hother

theorem Apart.notMem (h : project.Apart base workspace) (hgroup : group ∈ project.groups) :
    workspace.placeOf (FilePath.join base group.routesFile) ∉
      project.groups.map (artifactPlace workspace project base) := by
  intro hmem
  obtain ⟨other, hother, heq⟩ := List.mem_map.mp hmem
  exact h.routes group hgroup other hother heq.symm

/-- A group whose artifact can be written is built by itself if it compiles. -/
theorem run_build_alone {compiled : Compiled} (hapart : project.Apart base opened)
    (hgroup : group ∈ project.groups)
    (hopened : workspace.createDirectories (project.outPath base) = (.ok (), opened))
    (hcompiles : compiledIn opened project base group = .ok compiled)
    (hwritable : opened.Writable (project.artifactPath base group)) :
    ∃ alone,
      (build Workspace.host project base (some group.name)).run.run workspace =
        (.ok [project.artifactPath base group], alone) ∧
      alone.entry? (artifactPlace opened project base group) =
        some (.text (compiled.artifact project.pretty)) := by
  rw [run_build (select_name hapart.names hgroup) hopened]
  have hroute : opened.placeOf (FilePath.join base group.routesFile) ∉
      [artifactPlace opened project base group] := by
    simpa using hapart.routes group hgroup group hgroup
  have hbegun := (Overlay.refl [artifactPlace opened project base group] opened).printed
    (Terminal.arrow ("compiling " ++ toString [group].length ++ " route group(s) for " ++
      project.name))
  simp only [run_buildGroups_cons]
  generalize opened.printed _ = begun at hbegun ⊢
  -- Of the three ends only the last agrees with what the group is known to do in `opened`.
  rcases run_buildGroup begun project base 1 [group].length group with
    ⟨failure, later, -, hlater, hfailure⟩ | ⟨-, fault, later, -, -, hrefused⟩ |
    ⟨found, later, hrun, hwritten⟩
  · have hlater := hbegun.trans (hlater.mono (by simp))
    have hagain := (compiledIn_overlay_ok hlater hroute compiled).mpr hcompiles
    rw [hfailure] at hagain
    cases hagain
  · exact absurd (hbegun.writable_iff.mpr hwritable) hrefused
  · rw [hrun]
    refine ⟨_, rfl, ?_⟩
    have hfound := (compiledIn_overlay_ok hbegun hroute found).mp hwritten.compiles
    obtain rfl := Except.ok.inj (hcompiles.symm.trans hfound)
    have hplace : artifactPlace begun project base group =
        artifactPlace opened project base group := hbegun.placeOf_eq _
    rw [← hplace]
    exact hwritten.text

/-- A group that does not compile fails by itself with the same failure. -/
theorem run_build_alone_fails {failure : Failure} (hapart : project.Apart base opened)
    (hgroup : group ∈ project.groups)
    (hopened : workspace.createDirectories (project.outPath base) = (.ok (), opened))
    (hfails : compiledIn opened project base group = .error failure) :
    ∃ alone, (build Workspace.host project base (some group.name)).run.run workspace =
      (.error failure, alone) := by
  rw [run_build (select_name hapart.names hgroup) hopened]
  have hbegun := (Overlay.refl [] opened).printed
    (Terminal.arrow ("compiling " ++ toString [group].length ++ " route group(s) for " ++
      project.name))
  simp only [run_buildGroups_cons]
  generalize opened.printed _ = begun at hbegun ⊢
  have hmet := (compiledIn_same hbegun).trans hfails
  rcases run_buildGroup begun project base 1 [group].length group with
    ⟨reported, stopped, hrun, hkept, hreported⟩ | ⟨compiled, fault, stopped, -, hcompiled, -⟩ |
    ⟨compiled, stopped, -, hwritten⟩
  · have hsame := (compiledIn_same hkept).symm.trans hreported
    obtain rfl := Except.error.inj (hmet.symm.trans hsame)
    rw [hrun]
    exact ⟨stopped, rfl⟩
  · rw [hcompiled] at hmet
    cases hmet
  · rw [hwritten.compiles] at hmet
    cases hmet

/-- The artifact of a group is there, with the text that a build of this group alone gives it. -/
def BuiltAsAlone (project : Project) (base : String) (workspace final : Workspace)
    (group : ProjectGroup) : Prop :=
  ∃ text alone,
    (build Workspace.host project base (some group.name)).run.run workspace =
      (.ok [project.artifactPath base group], alone) ∧
    alone.entry? (artifactPlace workspace project base group) = some (.text text) ∧
    final.entry? (artifactPlace workspace project base group) = some (.text text)

/-- What a build leaves that has come to the end of some groups. -/
structure Leaves (project : Project) (base : String) (workspace opened final : Workspace)
    (groups : List ProjectGroup) : Prop where
  artifacts : ∀ group ∈ groups, BuiltAsAlone project base workspace final group
  others : ∀ place, (∀ group ∈ groups, place ≠ artifactPlace workspace project base group) →
    final.entry? place = opened.entry? place

theorem Finished.congr {groups : List ProjectGroup} {earlier' later' : Workspace}
    (h : Finished project base opened earlier later groups)
    (hearlier : ∀ place, earlier'.entry? place = earlier.entry? place)
    (hlater : ∀ place, later'.entry? place = later.entry? place) :
    Finished project base opened earlier' later' groups := by
  refine ⟨fun group hgroup => ?_, fun place hother => ?_⟩
  · obtain ⟨compiled, hcompiles, hwritable, hthere⟩ := h.artifacts group hgroup
    exact ⟨compiled, hcompiles, hwritable, (hlater _).trans hthere⟩
  · rw [hlater, h.others place hother, hearlier]

theorem Finished.leaves {groups : List ProjectGroup}
    (h : Finished project base opened opened final groups)
    (hmem : ∀ group ∈ groups, group ∈ project.groups) (hapart : project.Apart base opened)
    (hopened : workspace.createDirectories (project.outPath base) = (.ok (), opened))
    (hgrown : Grown workspace opened) :
    Leaves project base workspace opened final groups := by
  have hsame := artifactPlace_congr project base hgrown.workingDirectory
  refine ⟨fun group hgroup => ?_, fun place hother => h.others place fun group hgroup => ?_⟩
  · obtain ⟨compiled, hcompiles, hwritable, hthere⟩ := h.artifacts group hgroup
    obtain ⟨alone, hrun, halone⟩ := run_build_alone hapart (hmem group hgroup) hopened
      hcompiles hwritable
    rw [hsame] at halone hthere
    exact ⟨_, alone, hrun, halone, hthere⟩
  · rw [hsame]
    exact hother group hgroup

/-- A build whose directory is there is the building of its groups. -/
theorem run_buildGroups_of_run_build {groups : List ProjectGroup} {only : Option String}
    {result : Except Failure (List String)} (hselect : project.select only = .ok groups)
    (hopened : workspace.createDirectories (project.outPath base) = (.ok (), opened))
    (hrun : (build Workspace.host project base only).run.run workspace = (result, final)) :
    ∃ text ended,
      (buildGroups Workspace.host project base groups.length 1 groups).run.run
        (opened.printed text) = (result, ended) ∧
      Overlay [] ended final ∧ ∀ failure, result = .error failure → final = ended := by
  rw [run_build hselect hopened] at hrun
  simp only at hrun
  split at hrun
  · rename_i failure ended hgroups
    obtain ⟨rfl, rfl⟩ := Prod.mk.inj hrun
    exact ⟨_, ended, hgroups, .refl [] ended, fun _ _ => rfl⟩
  · rename_i paths ended hgroups
    obtain ⟨rfl, rfl⟩ := Prod.mk.inj hrun
    exact ⟨_, ended, hgroups, (Overlay.refl [] ended).printed _, nofun⟩

/-- A build passes the groups that compile, and ends as the groups behind them end. -/
theorem run_build_append {before rest : List ProjectGroup}
    {result : Except Failure (List String)} (hsplit : project.groups = before ++ rest)
    (hapart : project.Apart base opened)
    (hopened : workspace.createDirectories (project.outPath base) = (.ok (), opened))
    (hcompiles : ∀ group ∈ before, ∃ compiled,
      compiledIn opened project base group = .ok compiled)
    (hrun : (build Workspace.host project base none).run.run workspace = (result, final))
    (hwrite : ∀ path fault, result ≠ .error (.cannotWrite path fault)) :
    ∃ later ended restResult,
      (buildGroups Workspace.host project base project.groups.length (1 + before.length)
        rest).run.run later = (restResult, ended) ∧
      result = restResult.map (before.map (project.artifactPath base) ++ ·) ∧
      Overlay (project.groups.map (artifactPlace opened project base)) opened later ∧
      Finished project base opened opened later before ∧
      Overlay [] ended final ∧ ∀ failure, result = .error failure → final = ended := by
  have hmem (group : ProjectGroup) (h : group ∈ before) : group ∈ project.groups := by
    rw [hsplit]
    exact List.mem_append_left _ h
  have hplaces : (before.map (artifactPlace opened project base)).Nodup := by
    have hall := hapart.places
    rw [hsplit, List.map_append] at hall
    exact (List.nodup_append.mp hall).1
  obtain ⟨text, ended, hgroups, hfinal, hended⟩ :=
    run_buildGroups_of_run_build (select_none project) hopened hrun
  have hbegun := (Overlay.refl (project.groups.map (artifactPlace opened project base))
    opened).printed text
  have hgroups : (buildGroups Workspace.host project base project.groups.length 1
      (before ++ rest)).run.run (opened.printed text) = (result, ended) := by
    rwa [← hsplit]
  obtain ⟨later, restResult, hrest, hresult, hlater, hfinished⟩ := run_buildGroups_append hbegun
    (fun group h => hapart.notMem (hmem group h))
    (fun group h => List.mem_map_of_mem (hmem group h)) hplaces hcompiles hgroups hwrite
  exact ⟨later, ended, restResult, hrest, hresult, hlater,
    hfinished.congr (fun _ => rfl) (fun _ => rfl), hfinal, hended⟩

/-- Groups that are kept apart are built independently.  The directory is made first, which changes
nothing but that directories come to be.  If a group is the first that does not compile, its failure
is that of the build, and the groups before it have left what each leaves alone and nothing else; if
every group compiles, that holds for all of them.

A group's failure is told as the group meets it.  Where its file of routes was missing, an artifact
that is there by then may be what the path now ends below. -/
theorem build_leaves_finished_groups {result : Except Failure (List String)}
    (hapart : project.Apart base workspace)
    (hrun : (build Workspace.host project base none).run.run workspace = (result, final))
    (hcreate : ∀ path fault, result ≠ .error (.cannotCreate path fault))
    (hwrite : ∀ path fault, result ≠ .error (.cannotWrite path fault)) :
    ∃ opened, workspace.createDirectories (project.outPath base) = (.ok (), opened) ∧
      Grown workspace opened ∧
      (∀ before group after failure, project.groups = before ++ group :: after →
        (∀ earlier ∈ before, ∃ compiled,
          compiledIn opened project base earlier = .ok compiled) →
        compiledIn opened project base group = .error failure →
        Leaves project base workspace opened final before ∧
          (∃ alone, (build Workspace.host project base (some group.name)).run.run workspace =
            (.error failure, alone)) ∧
          ∃ reported, result = .error reported ∧
            compiledIn final project base group = .error reported ∧
            (reported = failure ∨ ∃ path, failure = .cannotRead path .notFound ∧
              reported = .cannotRead path .notDirectory)) ∧
      ((∀ group ∈ project.groups, ∃ compiled,
          compiledIn opened project base group = .ok compiled) →
        Leaves project base workspace opened final project.groups ∧
          result = .ok (project.groups.map (project.artifactPath base))) := by
  obtain ⟨opened, hopened, hgrown⟩ :=
    createDirectories_of_run_build (select_none project) hrun hcreate
  have hapart := hapart.of_grown hgrown
  refine ⟨opened, hopened, hgrown, ?_, ?_⟩
  -- A group fails: those before it are passed, and the build ends there.
  · intro before group after failure hsplit hcompiles hfails
    obtain ⟨later, ended, restResult, hrest, rfl, hlater, hfinished, -, hended⟩ :=
      run_build_append hsplit hapart hopened hcompiles hrun hwrite
    have hgroup : group ∈ project.groups := by
      rw [hsplit]
      simp
    have hmem (earlier : ProjectGroup) (h : earlier ∈ before) : earlier ∈ project.groups := by
      rw [hsplit]
      exact List.mem_append_left _ h
    obtain ⟨hkept, reported, rfl, hreported, hsame⟩ :=
      run_buildGroups_fails hlater (hapart.notMem hgroup) hfails hrest
    obtain rfl := hended reported rfl
    have hleft := hfinished.congr (fun _ => rfl) fun _ =>
      hkept.entry?_of_notMem List.not_mem_nil
    exact ⟨hleft.leaves hmem hapart hopened hgrown,
      run_build_alone_fails hapart hgroup hopened hfails, reported, rfl, hreported,
      hsame.imp_right fun ⟨_, hpath⟩ => hpath⟩
  -- No group fails: all of them are passed, and nothing is left to build.
  · intro hcompiles
    obtain ⟨later, ended, restResult, hrest, rfl, -, hfinished, hfinal, -⟩ :=
      run_build_append (List.append_nil _).symm hapart hopened hcompiles hrun hwrite
    have hrest : (Except.ok [], later) = (restResult, ended) := hrest
    obtain ⟨rfl, rfl⟩ := Prod.mk.inj hrest
    have hleft := hfinished.congr (fun _ => rfl) fun _ =>
      hfinal.entry?_of_notMem List.not_mem_nil
    refine ⟨hleft.leaves (fun _ h => h) hapart hopened hgrown, ?_⟩
    simp [Except.map]

/-- A site in three languages, one of which has routes that are no JSON. -/
def languages : Project where
  name := "site"
  outDir := "out"
  groups := [{ name := "en", routesFile := "en.json" }, { name := "fr", routesFile := "fr.json" },
    { name := "de", routesFile := "de.json" }]

/-- The files of that site. -/
def languageFiles : Workspace where
  entries := [(["en.json"], .text "{}"), (["fr.json"], .text "["), (["de.json"], .text "{}")]

/-- The second group fails.  The first has left its artifact by then, and the third has not. -/
theorem build_leaves_first_language :
    ∃ opened final,
      (build Workspace.host languages "" none).run.run languageFiles =
        (.error (.badRoutes "fr.json"), final) ∧
      Leaves languages "" languageFiles opened final [{ name := "en", routesFile := "en.json" }] ∧
      final.entry? ["out", "en.json"] ≠ none ∧ final.entry? ["out", "de.json"] = none := by
  have hresult : ((build Workspace.host languages "" none).run.run languageFiles).1 =
      .error (.badRoutes "fr.json") := failure?_eq_some_iff.mp (by decide +kernel)
  have hapart : languages.Apart "" languageFiles :=
    ⟨by decide +kernel, by decide +kernel, by decide +kernel⟩
  obtain ⟨opened, hopened, -, hfailing, -⟩ := build_leaves_finished_groups hapart
    (Prod.eta _).symm (by rw [hresult]; nofun) (by rw [hresult]; nofun)
  obtain rfl : (languageFiles.createDirectories (languages.outPath "")).2 = opened :=
    congrArg Prod.snd hopened
  have hfails : compiledIn (languageFiles.createDirectories (languages.outPath "")).2 languages ""
      { name := "fr", routesFile := "fr.json" } = .error (.badRoutes "fr.json") :=
    failure?_eq_some_iff.mp (by decide +kernel)
  have hcompiles : ∀ earlier ∈ [({ name := "en", routesFile := "en.json" } : ProjectGroup)],
      ∃ compiled, compiledIn (languageFiles.createDirectories (languages.outPath "")).2 languages ""
        earlier = .ok compiled := by
    refine List.forall_mem_singleton.mpr (exists_ok_of_isOk ?_)
    decide +kernel
  obtain ⟨hleaves, -⟩ := hfailing [{ name := "en", routesFile := "en.json" }] _
    [{ name := "de", routesFile := "de.json" }] _ rfl hcompiles hfails
  refine ⟨_, ((build Workspace.host languages "" none).run.run languageFiles).2, ?_, hleaves,
    ?_, ?_⟩
  · rw [← hresult, Prod.eta]
  · decide +kernel
  · decide +kernel

end Project
end RouteTree
