import RouteTree.Json.Tree
import RouteTree.Proofs.Reading

/-!
# What an artifact says

An artifact is the only thing that a build leaves of a compiled group.  Nothing of the group's
tree and hooks is lost in it: both layouts are texts of one JSON value, and from the value the tree
and the hooks are read again.  So two compiled groups that differ in one of them never have the
same artifact (`Compiled.artifact_determines`).

A node is written as an object whose missing members are left out.  Reading it looks its members up
by name, and for each sort of node what is found are the readings of its branches
(`Tree.ofJson?_toJson`).  The only number in a node is the index of a static route, which comes
back from its digits (`NumberLiteral.ofDigits_toDigits`).
-/

namespace RouteTree

/-! ## Numbers -/

theorem NumberLiteral.ofDigits_toDigits (n : Nat) : ofDigits (Nat.toDigits 10 n) = n := by
  calc
    ofDigits (Nat.toDigits 10 n)
    _ = Nat.ofDigitChars 10 (Nat.toDigits 10 n) 0 := by
        rw [Nat.ofDigitChars_eq_foldl]
        rfl
    _ = n := Nat.ofDigitChars_ten_toDigits

namespace Json

@[simp] theorem nat?_nat (n : Nat) : nat? (nat n) = some n := by
  have hliteral : (toString n).toList = Nat.toDigits 10 n := by
    rw [Nat.toString_eq_ofList_toDigits, String.toList_ofList]
  have hdigits : (Nat.toDigits 10 n).all Char.isDigit = true :=
    List.all_eq_true.mpr fun _ =>
      Nat.isDigit_of_mem_toDigits (by decide : 0 < 10) (by decide : 10 ≤ 10)
  have hempty : (Nat.toDigits 10 n).isEmpty = false := by simp
  unfold nat nat?
  simp only [hliteral, hdigits, hempty, NumberLiteral.ofDigits_toDigits]
  rfl

/-- An object can be written if every member that is present can. -/
theorem isWritten_ofMembers {members : List (String × Option Json)}
    (h : ∀ member ∈ members, ∀ value, member.2 = some value → value.IsWritten) :
    (ofMembers members).IsWritten := by
  apply IsWritten.obj
  intro member hmember
  obtain ⟨⟨name, value⟩, hmem, hpresent⟩ := List.mem_filterMap.mp hmember
  obtain ⟨held, hheld, rfl⟩ := Option.map_eq_some_iff.mp hpresent
  exact h _ hmem held hheld

end Json

/-! ## Trees -/

namespace Tree

open Json (IsWritten)

theorem isWritten_tagged {sort : String} {members : List (String × Option Json)}
    (h : ∀ member ∈ members, ∀ value, member.2 = some value → value.IsWritten) :
    (tagged sort members).IsWritten := by
  apply Json.isWritten_ofMembers
  intro member hmember value hvalue
  rcases List.mem_cons.mp hmember with rfl | hmember
  · obtain rfl := Option.some.inj hvalue
    exact .str sort
  · exact h member hmember value hvalue

mutual

theorem isWritten_toJson (tree : Tree) : tree.toJson.IsWritten := by
  cases tree with
  | switch index cases other lastResort =>
      have hcases := isWritten_casesToJson cases
      have hother := isWritten_toJson other
      have hlast := isWritten_optionToJson lastResort
      apply isWritten_tagged
      simpa [Json.isWritten_nat, IsWritten.arr hcases, hother] using hlast
  | dynamic name index onward =>
      have honward := isWritten_toJson onward
      apply isWritten_tagged
      simp [Json.isWritten_nat, IsWritten.str, honward]
  | catchAll name index onward =>
      have honward := isWritten_toJson onward
      apply isWritten_tagged
      simp [Json.isWritten_nat, IsWritten.str, honward]
  | middleware path location onward =>
      have honward := isWritten_toJson onward
      apply isWritten_tagged
      simp [IsWritten.str, honward]
  | dynamicForward name path location onward forward =>
      have honward := isWritten_toJson onward
      have hforward := isWritten_toJson forward
      apply isWritten_tagged
      simp [IsWritten.str, honward, hforward]
  | staticForward path location onward forward =>
      have honward := isWritten_toJson onward
      have hforward := isWritten_toJson forward
      apply isWritten_tagged
      simp [IsWritten.str, honward, hforward]
  | rewrite location path fallback =>
      have hfallback := isWritten_optionToJson fallback
      apply isWritten_tagged
      simpa [IsWritten.str] using hfallback
  | redirect location path fallback =>
      have hfallback := isWritten_optionToJson fallback
      apply isWritten_tagged
      simpa [IsWritten.str] using hfallback
  | next internalPath externalPath =>
      apply isWritten_tagged
      simp [IsWritten.str]
  | external | notFound | skip =>
      apply isWritten_tagged
      simp
termination_by structural tree

theorem isWritten_casesToJson (cases : List (String × Tree)) :
    ∀ item ∈ casesToJson cases, IsWritten item := by
  cases cases with
  | nil => nofun
  | cons first rest =>
      obtain ⟨label, branch⟩ := first
      have hbranch := isWritten_toJson branch
      have hrest := isWritten_casesToJson rest
      refine List.forall_mem_cons.mpr ⟨.obj ?_, hrest⟩
      simp [IsWritten.str, hbranch]
termination_by structural cases

theorem isWritten_optionToJson (branch : Option Tree) :
    ∀ value, optionToJson branch = some value → value.IsWritten := by
  cases branch with
  | none => nofun
  | some branch =>
      have hbranch := isWritten_toJson branch
      intro value hvalue
      rwa [← Option.some.inj hvalue]
termination_by structural branch

end

/-- Reads a branch that may be missing. -/
def optionOf? (branch : Option Json) : Option (Option Tree) :=
  Json.withDefault none (·.map some) (branch.map ofJson?)

mutual

/-- What is written of a tree is read as the tree. -/
theorem ofJson?_toJson (tree : Tree) : ofJson? tree.toJson = some tree := by
  -- In each case `hread` is what the reader does with a node of the sort.  With its members given,
  -- nothing of that is left but the reading of the branches.
  cases tree with
  | switch index cases other lastResort =>
      have hread : ofJson? (switch index cases other lastResort).toJson =
          (Json.nat? (.nat index)).bind fun index =>
            (casesOf? (casesToJson cases)).bind fun cases =>
              (ofJson? other.toJson).bind fun other =>
                (optionOf? (optionToJson lastResort)).bind fun lastResort =>
                  some (.switch index cases other lastResort) := by
        cases lastResort <;> rfl
      rw [hread, Json.nat?_nat, casesOf?_casesToJson, ofJson?_toJson other,
        optionOf?_optionToJson]
      rfl
  | dynamic name index onward =>
      have hread : ofJson? (dynamic name index onward).toJson =
          (Json.nat? (.nat index)).bind fun index =>
            (ofJson? onward.toJson).bind fun onward => some (.dynamic name index onward) := rfl
      rw [hread, Json.nat?_nat, ofJson?_toJson onward]
      rfl
  | catchAll name index onward =>
      have hread : ofJson? (catchAll name index onward).toJson =
          (Json.nat? (.nat index)).bind fun index =>
            (ofJson? onward.toJson).bind fun onward => some (.catchAll name index onward) := rfl
      rw [hread, Json.nat?_nat, ofJson?_toJson onward]
      rfl
  | middleware path location onward =>
      have hread : ofJson? (middleware path location onward).toJson =
          (ofJson? onward.toJson).bind fun onward => some (.middleware path location onward) := by
        cases location <;> rfl
      rw [hread, ofJson?_toJson onward]
      rfl
  | dynamicForward name path location onward forward =>
      have hread : ofJson? (dynamicForward name path location onward forward).toJson =
          (ofJson? onward.toJson).bind fun onward => (ofJson? forward.toJson).bind fun forward =>
            some (.dynamicForward name path location onward forward) := by
        cases location <;> rfl
      rw [hread, ofJson?_toJson onward, ofJson?_toJson forward]
      rfl
  | staticForward path location onward forward =>
      have hread : ofJson? (staticForward path location onward forward).toJson =
          (ofJson? onward.toJson).bind fun onward => (ofJson? forward.toJson).bind fun forward =>
            some (.staticForward path location onward forward) := by
        cases location <;> rfl
      rw [hread, ofJson?_toJson onward, ofJson?_toJson forward]
      rfl
  | rewrite location path fallback =>
      have hread : ofJson? (rewrite location path fallback).toJson =
          (optionOf? (optionToJson fallback)).bind fun fallback =>
            some (.rewrite location path fallback) := by
        cases location <;> cases fallback <;> rfl
      rw [hread, optionOf?_optionToJson]
      rfl
  | redirect location path fallback =>
      have hread : ofJson? (redirect location path fallback).toJson =
          (optionOf? (optionToJson fallback)).bind fun fallback =>
            some (.redirect location path fallback) := by
        cases location <;> cases fallback <;> rfl
      rw [hread, optionOf?_optionToJson]
      rfl
  | external | next | notFound | skip => rfl
termination_by structural tree

theorem casesOf?_casesToJson (cases : List (String × Tree)) :
    casesOf? (casesToJson cases) = some cases := by
  cases cases with
  | nil => rfl
  | cons first rest =>
      obtain ⟨label, branch⟩ := first
      have hread : casesOf? (casesToJson ((label, branch) :: rest)) =
          (ofJson? branch.toJson).bind fun branch =>
            (casesOf? (casesToJson rest)).bind fun rest => some ((label, branch) :: rest) := rfl
      rw [hread, ofJson?_toJson branch, casesOf?_casesToJson rest]
      rfl
termination_by structural cases

theorem optionOf?_optionToJson (branch : Option Tree) :
    optionOf? (optionToJson branch) = some branch := by
  cases branch with
  | none => rfl
  | some branch =>
      unfold optionOf?
      rw [optionToJson, Option.map_some, ofJson?_toJson branch]
      rfl
termination_by structural branch

end

end Tree

/-! ## Hooks -/

namespace Hooks

theorem isWritten_toJson (hooks : Hooks) : hooks.toJson.IsWritten := by
  apply Json.IsWritten.obj
  intro member hmember
  obtain ⟨⟨name, flag⟩, -, rfl⟩ := List.mem_map.mp hmember
  exact .bool flag

theorem ofJson?_toJson (hooks : Hooks) : ofJson? .json hooks.toJson = some hooks := by
  cases hooks
  rfl

end Hooks

/-! ## Artifacts -/

namespace Compiled

theorem isWritten_toJson (compiled : Compiled) : compiled.toJson.IsWritten := by
  apply Json.IsWritten.obj
  simp [compiled.tree.isWritten_toJson, compiled.hooks.isWritten_toJson]

/-- Reads what an artifact holds: a tree and hooks. -/
def ofJson? (value : Json) : Option (Tree × Hooks) := do
  let tree ← (value.get? "tree").bind Tree.ofJson?
  let hooks ← (value.get? "hooks").bind (Hooks.ofJson? .json)
  return (tree, hooks)

theorem ofJson?_toJson (compiled : Compiled) :
    ofJson? compiled.toJson = some (compiled.tree, compiled.hooks) := by
  have hread : ofJson? compiled.toJson =
      (Tree.ofJson? compiled.tree.toJson).bind fun tree =>
        (Hooks.ofJson? .json compiled.hooks.toJson).bind fun hooks => some (tree, hooks) := rfl
  rw [hread, Tree.ofJson?_toJson, Hooks.ofJson?_toJson]
  rfl

theorem parse?_artifact (compiled : Compiled) (pretty : Bool) :
    Json.parse? (compiled.artifact pretty) = some compiled.toJson := by
  unfold artifact
  cases pretty with
  | true => exact Json.parse?_indented compiled.isWritten_toJson
  | false => exact Json.parse?_compact compiled.isWritten_toJson

theorem eq_of_artifact_eq {compiled other : Compiled} {pretty otherPretty : Bool}
    (h : compiled.artifact pretty = other.artifact otherPretty) :
    compiled.tree = other.tree ∧ compiled.hooks = other.hooks := by
  have hvalue : some compiled.toJson = some other.toJson := by
    rw [← compiled.parse?_artifact pretty, h, other.parse?_artifact]
  have hread : some (compiled.tree, compiled.hooks) = some (other.tree, other.hooks) := by
    rw [← compiled.ofJson?_toJson, Option.some.inj hvalue, other.ofJson?_toJson]
  exact Prod.mk.inj (Option.some.inj hread)

/-- In either layout the artifact of a compiled group is a text of its JSON value, and its tree and
hooks are read from that value.  So artifacts are equal only where both are. -/
theorem artifact_determines (compiled : Compiled) :
    (∀ pretty, Json.parse? (compiled.artifact pretty) = some compiled.toJson) ∧
      ofJson? compiled.toJson = some (compiled.tree, compiled.hooks) ∧
        ∀ (other : Compiled) (pretty otherPretty : Bool),
          compiled.artifact pretty = other.artifact otherPretty →
            compiled.tree = other.tree ∧ compiled.hooks = other.hooks := by
  refine ⟨compiled.parse?_artifact, compiled.ofJson?_toJson, ?_⟩
  intro other pretty otherPretty hartifact
  exact eq_of_artifact_eq hartifact

end Compiled
end RouteTree
