import Mathlib.Data.List.Sort
import Prefill.Proofs.Callee
import Prefill.Proofs.Filing
import Prefill.Proofs.Loading

/-!
Calls and the helpers below them. A call sees the helper files down to its own depth: two projects
that have the same files down there show a call the same list of files (`visible_congr`) and the same
functions (`lookup?_same`), whatever lies deeper. So a name means the same in both, and the program
that evaluates it is the same text (`deeper_helpers_unseen`).
-/

namespace Prefill

open Text

namespace HelperFile

/-- One file stands before another among those that a call sees. -/
def StandsBefore (a b : HelperFile) : Prop :=
  notBefore a b = true ∧ a.path.same b.path = false

theorem StandsBefore.asymm {a b : HelperFile} (h : StandsBefore a b) : ¬ StandsBefore b a := by
  obtain ⟨there, differ⟩ := h
  rintro ⟨back, -⟩
  have depth : a.depth = b.depth :=
    Nat.le_antisymm (depth_le_of_notBefore back) (depth_le_of_notBefore there)
  simp only [notBefore, depth, if_true, Path.notAfter, Path.stepsNotAfter_eq_lexNotAfter]
    at there back
  have steps := (separates_lexNotAfter Path.separates_component).antisymm _ _ there back
  simp [Path.same, steps] at differ

end HelperFile

namespace Project

section

variable {first second : Tree} (formed : first.WellFormed) (formed' : second.WellFormed)
  (plain : first.Plain) (plain' : second.Plain) {config config' : Config} {root : Place}
  {project project' : Project} (h : (load first config root).result = .ok project)
  (h' : (load second config' root).result = .ok project')

include formed plain h in
/-- The files that a call sees stand in an order that leaves no choice. -/
theorem visible_pairwise (depth : Nat) :
    (project.visible depth).Pairwise HelperFile.StandsBefore := by
  have apart : (project.visible depth).Pairwise fun a b => a.path.same b.path = false := by
    refine ((sortedBy_perm _ _).pairwise_iff ?_).mpr ?_
    · intro a b differ
      simpa [Path.same, eq_comm] using differ
    · exact (helpers_apart formed plain h).sublist List.filter_sublist
  exact (HelperFile.sorts_notBefore.sortedBy_pairwise _).and apart

variable {depth : Nat}
  (same : ∀ file : HelperFile, file.depth ≤ depth → (file ∈ project.helpers ↔ file ∈ project'.helpers))

include formed formed' plain plain' h h' same in
/-- **What a call sees** is decided by the files down to its depth. -/
theorem visible_congr : project.visible depth = project'.visible depth := by
  have irreflexive : Std.Irrefl HelperFile.StandsBefore := ⟨fun _ before => before.asymm before⟩
  have antisymmetric : Std.Antisymm HelperFile.StandsBefore :=
    ⟨fun _ _ before after => absurd after before.asymm⟩
  refine (visible_pairwise formed plain h depth).eq_of_mem_iff
    (visible_pairwise formed' plain' h' depth) ?_
  intro file
  rw [visible, visible, mem_sortedBy, mem_sortedBy, List.mem_filter, List.mem_filter]
  simp only [decide_eq_true_eq]
  exact and_congr_left fun visible => same file visible

include h h' same in
/-- Down to its depth a call finds the same functions. -/
theorem lookup?_same (name : Text) :
    project.index.lookup? name depth = project'.index.lookup? name depth := by
  have loaded := loaded_of_load h
  have loaded' := loaded_of_load h'
  refine loaded'.index.nearest?_congr loaded.index ?_
  intro s _ visible
  rw [HelperFile.symbols_flatMap_entries, HelperFile.symbols_flatMap_entries]
  refine mem_symbols.trans (Iff.trans ?_ mem_symbols.symm)
  constructor
  · rintro ⟨file, member, d, declared, function, exported, rfl⟩
    exact ⟨file, (same file visible).mp member, d, declared, function, exported, rfl⟩
  · rintro ⟨file, member, d, declared, function, exported, rfl⟩
    exact ⟨file, (same file visible).mpr member, d, declared, function, exported, rfl⟩

end

/-- **Deeper helpers are not seen.** Two projects at one root that have the same helper files down to
a depth resolve every name from there alike, whatever is known of packages and whatever the toolchain
answers, and they make the same program for every target and arguments. -/
theorem deeper_helpers_unseen {first second : Tree} (formed : first.WellFormed)
    (formed' : second.WellFormed) (plain : first.Plain) (plain' : second.Plain)
    {config config' : Config} {root : Place} {project project' : Project}
    (h : (load first config root).result = .ok project)
    (h' : (load second config' root).result = .ok project') {depth : Nat}
    (same : ∀ file : HelperFile, file.depth ≤ depth →
      (file ∈ project.helpers ↔ file ∈ project'.helpers)) :
    (∀ {σ : Type} (toolchain : Toolchain σ) name packages s,
      project.resolve toolchain name depth packages s =
        project'.resolve toolchain name depth packages s) ∧
    ∀ target arguments, Program.synthesize project target depth arguments =
      Program.synthesize project' target depth arguments := by
  have visible := visible_congr formed formed' plain plain' h h' same
  constructor
  · intro σ toolchain name packages s
    simp only [resolve, lookup?_same h h' same name, member?, visible]
  · intro target arguments
    simp only [Program.synthesize, visible]

section

variable (upper lower : List String)

theorem twoFiles_formed : (Program.twoFiles upper lower).WellFormed := by
  refine .directory (by simp) ?_
  simp only [List.forall_mem_cons]
  refine ⟨.directory (by simp) ?_, nofun⟩
  simp only [List.forall_mem_cons]
  refine ⟨.file _, .directory (by simp) ?_, nofun⟩
  simp only [List.forall_mem_cons]
  exact ⟨.file _, nofun⟩

theorem twoFiles_plain : (Program.twoFiles upper lower).Plain := by
  refine .directory ?_ ?_ <;> simp only [List.forall_mem_cons]
  · exact ⟨⟨by decide, by decide⟩, nofun⟩
  refine ⟨.directory ?_ ?_, nofun⟩ <;> simp only [List.forall_mem_cons]
  · exact ⟨⟨by decide, by decide⟩, ⟨by decide, by decide⟩, nofun⟩
  refine ⟨.file _, .directory ?_ ?_, nofun⟩ <;> simp only [List.forall_mem_cons]
  · exact ⟨⟨by decide, by decide⟩, nofun⟩
  · exact ⟨.file _, nofun⟩

/-- The helper file at the root, and the one below it. -/
theorem twoFiles_helpers {upper lower : List String} {project : Project}
    (h : (load (Program.twoFiles upper lower) {} Project.proj).result = .ok project)
    (found : (Discovery.ofTree (Program.twoFiles upper lower) [] Project.proj).helpers =
      [Project.proj.below ["a.go".toList], Project.proj.below ["sub".toList, "b.go".toList]])
    {file : HelperFile} (shallow : file.depth ≤ 0) :
    file ∈ project.helpers ↔ readHelper (Program.twoFiles upper lower) Project.proj
      (Project.proj.below ["a.go".toList]) = .ok file := by
  obtain ⟨excluded, patterns, members⟩ := mem_helpers_of_load h
  obtain rfl : [] = excluded := Except.ok.inj patterns
  rw [members, found]
  constructor
  · rintro ⟨place, isHelper, read⟩
    obtain rfl | isHelper := List.mem_cons.mp isHelper
    · exact read
    · obtain rfl := List.mem_singleton.mp isHelper
      unfold readHelper at read
      split at read
      · obtain rfl := Except.ok.inj read
        have deep : Project.proj.path.depthOf
            (Project.proj.below ["sub".toList, "b.go".toList]).path = 1 := by decide +kernel
        rw [HelperFile.ofText, deep] at shallow
        cases shallow
      · cases read
  · intro read
    exact ⟨_, by simp, read⟩

theorem twoFiles_text (other : List String) :
    (Program.twoFiles upper lower).text (Project.proj.below ["a.go".toList]).address =
      (Program.twoFiles upper other).text (Project.proj.below ["a.go".toList]).address := rfl

end

/-- A function in a deeper directory, or a variable in its place: for calls from the root the two
projects are one. -/
theorem version_below_unseen :
    let first := Program.twoFiles ["func Version() string \x7b\x7d"] ["func Version() int \x7b\x7d"]
    let second := Program.twoFiles ["func Version() string \x7b\x7d"] ["var Version = 1"]
    ∃ project project', (load first {} Project.proj).result = .ok project ∧
      (load second {} Project.proj).result = .ok project' ∧
      project.index.lookup? "Version".toList 1 ≠ project'.index.lookup? "Version".toList 1 ∧
      (∀ {σ : Type} (toolchain : Toolchain σ) name packages s,
        project.resolve toolchain name 0 packages s = project'.resolve toolchain name 0 packages s) ∧
      ∀ target arguments, Program.synthesize project target 0 arguments =
        Program.synthesize project' target 0 arguments := by
  intro first second
  have loads : ((load first {} Project.proj).result.toOption.map fun project =>
      (project.index.lookup? "Version".toList 1).map (·.depth)) = some (some 1) ∧
      ((load second {} Project.proj).result.toOption.map fun project =>
        (project.index.lookup? "Version".toList 1).map (·.depth)) = some (some 0) := by
    decide +kernel
  obtain ⟨project, h, deep⟩ := Option.map_eq_some_iff.mp loads.1
  obtain ⟨project', h', high⟩ := Option.map_eq_some_iff.mp loads.2
  have h := eq_ok_of_toOption h
  have h' := eq_ok_of_toOption h'
  refine ⟨project, project', h, h', ?_, ?_⟩
  · intro alike
    rw [alike, high] at deep
    exact absurd deep (by decide)
  · refine deeper_helpers_unseen (twoFiles_formed _ _) (twoFiles_formed _ _) (twoFiles_plain _ _)
      (twoFiles_plain _ _) h h' ?_
    intro file shallow
    rw [twoFiles_helpers h (by decide +kernel) shallow, twoFiles_helpers h' (by decide +kernel) shallow]
    rw [readHelper, readHelper, twoFiles_text]

end Project

end Prefill
