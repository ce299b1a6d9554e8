import Prefill.Proofs.Enumeration

/-!
Helpers of one name. A look-up finds the deepest helper of a name down to the depth of the call, and
a helper that is entered hides the deepest one of its name above it (`Holds.insert_eq_ok`). Loading
takes the files by depth: a helper that comes later lies no higher, so it does not change what the
ones before it hide (`Awaits.hides?`). What a helper hides when it is entered is therefore what it
hides in the whole project, and loading says so once (`checkFiles_diagnostics`,
`homonyms_by_depth`).
-/

namespace Prefill

open Text

/-- The warning about a helper that hides another. -/
def Shadowing.warning (s : Shadowing) : Diagnostic :=
  ⟨.warning, s.message, s.deeper.path.display, s.deeper.line, none⟩

namespace Index

section

variable {index : Index} {entries : List Entry} (holds : index.Holds entries) {s : Symbol}

include holds

theorem Holds.hides?_eq_some_iff {found : Shadowing} : index.hides? s = some found ↔
    found.deeper = s ∧ Nearest (entries.map (·.symbol)) s.name (· < s.depth) found.shallower := by
  unfold hides?
  rw [Option.map_eq_some_iff]
  constructor
  · rintro ⟨t, nearest, rfl⟩
    exact ⟨rfl, holds.nearest?_eq_some_iff.mp nearest⟩
  · rintro ⟨rfl, nearest⟩
    exact ⟨_, holds.nearest?_eq_some_iff.mpr nearest, rfl⟩

theorem Holds.hides?_eq_none_iff : index.hides? s = none ↔
    ¬ ∃ t ∈ entries.map (·.symbol), t.name = s.name ∧ t.depth < s.depth := by
  rw [hides?, Option.map_eq_none_iff, holds.nearest?_eq_none_iff]

end

/-! ## Helpers in the order of their depth -/

/-- An index on the way to another: some helpers are still to be entered, the shallow ones first. -/
def Awaits (last index : Index) (rest : List Entry) : Prop :=
  ∃ entries, index.Holds entries ∧ last.Holds (entries ++ rest) ∧
    rest.Pairwise fun e f => e.symbol.depth ≤ f.symbol.depth

/-- Helpers that come later are not above the next one, so they do not change what it hides. -/
theorem Awaits.hides? {last index : Index} {call : Entry} {rest : List Entry}
    (h : Awaits last index (call :: rest)) : index.hides? call.symbol = last.hides? call.symbol := by
  obtain ⟨entries, holds, final, ascending⟩ := h
  refine congrArg _ (final.nearest?_congr holds ?_)
  intro t _ above
  simp only [List.map_append, List.mem_append]
  refine (or_iff_left ?_).symm
  intro later
  obtain ⟨f, member, rfl⟩ := List.mem_map.mp later
  have below : call.symbol.depth ≤ f.symbol.depth := by
    obtain rfl | member := List.mem_cons.mp member
    · exact Nat.le_refl _
    · exact List.rel_of_pairwise_cons ascending member
  omega

theorem Awaits.insert {last index next : Index} {call : Entry} {rest : List Entry}
    {hidden : Option Shadowing} (h : Awaits last index (call :: rest))
    (entered : index.insert call.directory call.symbol = .ok (next, hidden)) :
    hidden = last.hides? call.symbol ∧ Awaits last next rest := by
  have hides := h.hides?
  obtain ⟨entries, holds, final, ascending⟩ := h
  obtain ⟨rfl, holdsNext⟩ := holds.insert_eq_ok call entered
  exact ⟨hides, entries ++ [call], holdsNext, by simpa using final, ascending.of_cons⟩

end Index

/-- What a loop tells, where each round tells something of its own and leaves the next ones in the
state they need. -/
theorem Journal.diagnostics_foldlM {ε β γ : Type} {f : β → γ → Journal ε β}
    (said : γ → List Diagnostic) (P : β → List γ → Prop)
    (step : ∀ b c rest b', P b (c :: rest) → (f b c).result = .ok b' →
      diagnosticsOf (f b c).events = said c ∧ P b' rest)
    {list : List γ} {b b' : β} (start : P b list) (h : (list.foldlM f b).result = .ok b') :
    diagnosticsOf (list.foldlM f b).events = list.flatMap said ∧ P b' [] := by
  induction list generalizing b with
  | nil =>
    obtain rfl : b = b' := by simpa [done] using h
    exact ⟨rfl, start⟩
  | cons c rest ih =>
    rw [List.foldlM_cons, bind_eq] at h ⊢
    obtain ⟨next, first, others⟩ := andThen_result_eq_ok_iff.mp h
    obtain ⟨here, later⟩ := step b c rest next start first
    obtain ⟨told, finish⟩ := ih later others
    refine ⟨?_, finish⟩
    rw [andThen, first, diagnosticsOf_append, here, told, List.flatMap_cons]

/-- What is wrong with a helper file by itself. -/
def HelperFile.faults (file : HelperFile) : List Diagnostic :=
  (if file.buildIgnored then [] else [⟨.warning,
    "helper file has no `//go:build ignore` line and will be compiled into its package",
    file.path.display, 1, none⟩]) ++
  if file.source.hasErrors then
    [⟨.warning, "helper file has syntax errors", file.path.display, 0, none⟩]
  else []

/-- What is said of a helper file where the index holds all helpers: its faults, and what its
helpers hide. -/
def HelperFile.remarks (index : Index) (file : HelperFile) : List Diagnostic :=
  file.faults ++ (file.symbols.filterMap index.hides?).map Shadowing.warning

namespace Project

open Index

theorem enterFile_diagnostics {last index next : Index} {file : HelperFile} {rest : List Entry}
    (awaits : Awaits last index (file.entries ++ rest))
    (h : (enterFile index file).result = .ok next) :
    diagnosticsOf (enterFile index file).events =
        (file.symbols.filterMap last.hides?).map Shadowing.warning ∧
      Awaits last next rest := by
  rw [List.map_filterMap, List.filterMap_eq_flatMap_toList]
  refine Journal.diagnostics_foldlM (fun s => ((last.hides? s).map Shadowing.warning).toList)
    (fun index symbols => Awaits last index (symbols.map (.mk file.directory) ++ rest)) ?_ awaits h
  intro index symbol later next awaits step
  simp only [Journal.bind_eq, Journal.andThen_result_eq_ok_iff] at step ⊢
  obtain ⟨⟨inserted, hidden⟩, entered, step⟩ := step
  obtain ⟨rfl, awaitsNext⟩ := awaits.insert entered
  rw [Journal.andThen, entered]
  cases hidden : last.hides? symbol with
  | none =>
    rw [hidden] at step
    obtain rfl : inserted = next := Except.ok.inj step
    exact ⟨rfl, awaitsNext⟩
  | some found =>
    rw [hidden] at step
    obtain rfl : inserted = next := Except.ok.inj step
    obtain ⟨shallower, -, rfl⟩ := Option.map_eq_some_iff.mp hidden
    exact ⟨rfl, awaitsNext⟩

theorem checkFile_diagnostics (index : Index) (file : HelperFile) :
    diagnosticsOf (checkFile index file).events =
      file.faults ++ diagnosticsOf (enterFile index file).events := by
  unfold checkFile HelperFile.faults
  cases file.buildIgnored <;> cases file.source.hasErrors <;> rfl

theorem depth_of_mem_symbols {file : HelperFile} {s : Symbol} (member : s ∈ file.symbols) :
    s.depth = file.depth := by
  obtain ⟨d, -, rfl⟩ := List.mem_map.mp member
  rfl

theorem entries_ascending {files : List HelperFile}
    (ascending : files.Pairwise fun a b => a.depth ≤ b.depth) :
    (files.flatMap HelperFile.entries).Pairwise fun e f => e.symbol.depth ≤ f.symbol.depth := by
  rw [← List.pairwise_map (f := Entry.symbol) (R := fun s t => s.depth ≤ t.depth),
    HelperFile.symbols_flatMap_entries]
  apply List.pairwise_flatMap.mpr
  constructor
  · intro file _
    apply List.pairwise_of_forall_mem_list
    intro s first t second
    rw [depth_of_mem_symbols first, depth_of_mem_symbols second]
  · apply ascending.imp
    intro a b above s first t second
    rwa [depth_of_mem_symbols first, depth_of_mem_symbols second]

/-- **Checking files** by depth says what is wrong with each, and what its helpers hide. -/
theorem checkFiles_diagnostics {files : List HelperFile} {last : Index}
    (ascending : files.Pairwise fun a b => a.depth ≤ b.depth)
    (h : (files.foldlM checkFile .empty).result = .ok last) :
    diagnosticsOf (files.foldlM checkFile .empty).events =
      files.flatMap (HelperFile.remarks last) := by
  have start : Awaits last .empty (files.flatMap HelperFile.entries) :=
    ⟨[], holds_empty, checkFiles_holds h, entries_ascending ascending⟩
  refine (Journal.diagnostics_foldlM (HelperFile.remarks last)
    (fun index files => Awaits last index (files.flatMap HelperFile.entries)) ?_ start h).1
  intro index file later next awaits step
  rw [checkFile_result] at step
  obtain ⟨told, awaitsNext⟩ := enterFile_diagnostics (by simpa using awaits) step
  exact ⟨by rw [checkFile_diagnostics, told, HelperFile.remarks], awaitsNext⟩

theorem ofDiscovery_diagnostics {top : Tree} {root : Place} {found : Discovery} {project : Project}
    (h : (ofDiscovery top root found).result = .ok project) :
    project.index.Holds (project.helpers.flatMap HelperFile.entries) ∧
      diagnosticsOf (ofDiscovery top root found).events =
        project.helpers.flatMap (HelperFile.remarks project.index) := by
  obtain ⟨files, read, -⟩ := Journal.andThen_result_eq_ok_iff.mp h
  rw [ofDiscovery_eq read] at h ⊢
  have made := Journal.mapError_result_eq_ok_iff.mp h
  simp only [ofFiles, Journal.bind_eq, Journal.andThen_result_eq_ok_iff] at made
  obtain ⟨index, entered, _, -, made⟩ := made
  obtain rfl := Except.ok.inj made
  have ascending := (HelperFile.sorts_notAfter.sortedBy_pairwise files).imp
    HelperFile.depth_le_of_notAfter
  refine ⟨checkFiles_holds entered, ?_⟩
  rw [← checkFiles_diagnostics ascending entered]
  simp only [Journal.mapError, ofFiles, Journal.bind_eq, Journal.andThen, entered, Journal.tell,
    diagnosticsOf_append]
  exact List.append_nil _

/-- **Helpers of one name.** After any insertions, a look-up finds the entered helper of the name
that lies deepest down to the depth of the call, and nothing exactly where there is none. An
insertion that succeeds tells of the helper that it hides, the deepest of its name that was entered
before and lies higher, and of nothing exactly where there is none. So loading warns, file by file,
once for each exported helper of the project that has a namesake above it. -/
theorem homonyms_by_depth (calls : List Entry) :
    (∀ name depth s, (ofAttempts calls).lookup? name depth = some s ↔
      Nearest ((entered calls).map (·.symbol)) name (· ≤ depth) s) ∧
    (∀ name depth, (ofAttempts calls).lookup? name depth = none ↔
      ¬ ∃ s ∈ (entered calls).map (·.symbol), s.name = name ∧ s.depth ≤ depth) ∧
    (∀ directory s next hidden, (ofAttempts calls).insert directory s = .ok (next, hidden) →
      (∀ found, hidden = some found ↔ found.deeper = s ∧
        Nearest ((entered calls).map (·.symbol)) s.name (· < s.depth) found.shallower) ∧
      (hidden = none ↔
        ¬ ∃ t ∈ (entered calls).map (·.symbol), t.name = s.name ∧ t.depth < s.depth)) ∧
    ∀ top root found project, (ofDiscovery top root found).result = .ok project →
      (project.helpers.flatMap HelperFile.symbols).Nodup ∧
      diagnosticsOf (ofDiscovery top root found).events = project.helpers.flatMap (fun file =>
        file.faults ++ (file.symbols.filterMap project.index.hides?).map Shadowing.warning) ∧
      ∀ s ∈ project.helpers.flatMap HelperFile.symbols,
        (∀ found, project.index.hides? s = some found ↔ found.deeper = s ∧
          Nearest (project.helpers.flatMap HelperFile.symbols) s.name (· < s.depth)
            found.shallower) ∧
        (project.index.hides? s = none ↔ ¬ ∃ t ∈ project.helpers.flatMap HelperFile.symbols,
          t.name = s.name ∧ t.depth < s.depth) := by
  have holds := holds_attempts calls
  refine ⟨?_, ?_, ?_, ?_⟩
  · intro name depth s
    exact holds.lookup?_eq_some_iff
  · intro name depth
    exact holds.nearest?_eq_none_iff
  · intro directory s next hidden done
    obtain ⟨rfl, -⟩ := holds.insert_eq_ok ⟨directory, s⟩ done
    exact ⟨fun found => holds.hides?_eq_some_iff, holds.hides?_eq_none_iff⟩
  · intro top root found project made
    obtain ⟨holds, told⟩ := ofDiscovery_diagnostics made
    rw [← HelperFile.symbols_flatMap_entries]
    refine ⟨?_, told, ?_⟩
    · refine List.pairwise_map.mpr (holds.apart.imp ?_)
      intro e f free same
      exact free ⟨congrArg Symbol.name same, .inr (congrArg Symbol.depth same)⟩
    · intro s _
      exact ⟨fun found => holds.hides?_eq_some_iff, holds.hides?_eq_none_iff⟩

/-- A function at the root and another of its name below: there is one warning, about the second. -/
theorem version_shadowed :
    let versions :=
      Program.twoFiles ["func Version() string \x7b\x7d"] ["func Version() int \x7b\x7d"]
    let found := Discovery.ofTree versions [] Project.proj
    ∃ project, (ofDiscovery versions Project.proj found).result = .ok project ∧
      (project.helpers.flatMap fun file =>
        file.faults ++ (file.symbols.filterMap project.index.hides?).map Shadowing.warning) =
      [⟨.warning, "helper \"Version\" at proj/sub/b.go:6 shadows the one at proj/a.go:6 " ++
        "for files at or below its depth", "proj/sub/b.go", 6, none⟩] := by
  intro versions found
  have loads : (ofDiscovery versions Project.proj found).result.toOption.isSome = true := by
    decide +kernel
  obtain ⟨project, loaded⟩ := Option.isSome_iff_exists.mp loads
  have made := eq_ok_of_toOption loaded
  refine ⟨project, made, ?_⟩
  rw [← ((homonyms_by_depth []).2.2.2 _ _ _ _ made).2.1]
  decide +kernel

end Project

end Prefill
