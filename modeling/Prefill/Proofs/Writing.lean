import Prefill.Proofs.Encoding
import Prefill.Proofs.Exploring

/-!
What a run writes. A file is written at most once in a run, by the project whose source it is, and
only if its text changes.

* `processFile_cases`: what working through one source can do to the files;
* `Written`, `written_processFile`, `written_projects`: what holds of the files all along a run;
* `run_frame`: a run that cannot load a project changes nothing; any other changes marked sources
  only, and counts them.
-/

namespace Prefill.Run

open Text

variable {σ : Type}

/-! ## One source -/

@[simp] theorem Work.tell_tree (work : Work σ) (events : List Event) :
    (work.tell events).tree = work.tree := rfl

@[simp] theorem Work.tell_report (work : Work σ) (events : List Event) :
    (work.tell events).report = work.report := rfl

@[simp] theorem Work.tally_tree (work : Work σ) (scanned rewritten replaced regions : Nat) :
    (work.tally scanned rewritten replaced regions).tree = work.tree := rfl

@[simp] theorem Work.tally_filesRewritten (work : Work σ)
    (scanned rewritten replaced regions : Nat) :
    (work.tally scanned rewritten replaced regions).report.filesRewritten =
      work.report.filesRewritten + rewritten := rfl

/-- A line of the text is a marker or opens a generated region. -/
def Marked (content : Text) : Prop :=
  ∃ line ∈ lines content,
    (Marker.classify? line.body).isSome = true ∨ (Marker.regionBegin? line.body).isSome = true

theorem marked_iff {content : Text} :
    Marked content ↔ Marker.anyIn content = true ∨ Marker.anyRegionIn content = true := by
  simp only [Marked, Marker.anyIn, Marker.anyRegionIn, List.any_eq_true, ← exists_or, ← and_or_left]

/-- What a step does to the files: nothing, or it puts another text into a marked one and counts
it. -/
def Rewrites (work next : Work σ) (address : Address) : Prop :=
  next.tree = work.tree ∧ next.report.filesRewritten = work.report.filesRewritten ∨
  ∃ old new, work.tree.text address = .ok old ∧ Marked old ∧ new ≠ old ∧
    next.tree = work.tree.put address (.file (Utf8.encode new)) ∧
    next.report.filesRewritten = work.report.filesRewritten + 1

theorem generate_cases (project : Project) (evaluate : Evaluator (Session σ)) (place : Place)
    {content : Text} {work : Work σ} (here : work.tree.text place.address = .ok content)
    (marked : Marked content) :
    Rewrites work (generate project evaluate place content work) place.address := by
  unfold generate
  dsimp only
  split
  · exact .inl ⟨rfl, rfl⟩
  · rw [Work.save]
    split
    · exact .inl ⟨rfl, rfl⟩
    · rename_i differs
      exact .inr ⟨content, _, here, marked, differs, rfl, rfl⟩

/-- **One source.** -/
theorem processFile_cases (project : Project) (evaluate : Evaluator (Session σ)) (work : Work σ)
    (place : Place) :
    Rewrites work (processFile project evaluate work place) place.address := by
  unfold processFile
  split
  · exact .inl ⟨rfl, rfl⟩
  · rename_i content here
    dsimp only
    split
    · exact .inl ⟨rfl, rfl⟩
    · rename_i unmarked
      have marked : Marked content := by
        rw [marked_iff]
        cases marker : Marker.anyIn content with
        | true => exact .inl rfl
        | false => exact .inr (by simpa [marker] using unmarked)
      have readable : (work.tally 1 0 0 0).tree.text place.address = .ok content := here
      exact generate_cases project evaluate place readable marked

/-! ## All sources -/

/-- The file at an address has another content than before. -/
def Changed (before after : Tree) (address : Address) : Prop :=
  after.file? address ≠ before.file? address

instance (before after : Tree) (address : Address) : Decidable (Changed before after address) :=
  inferInstanceAs (Decidable (_ ≠ _))

/-- What holds of the files when the sources at some addresses have been worked through. -/
structure Written (top : Tree) (seen : List Address) (work : Work σ) : Prop where
  formed : work.tree.WellFormed
  kinds : ∀ address, (work.tree.at? address).map Tree.kind = (top.at? address).map Tree.kind
  others : ∀ address, Changed top work.tree address → address ∈ seen
  marked : ∀ address, Changed top work.tree address →
    ∃ content, top.text address = .ok content ∧ Marked content
  count : work.report.filesRewritten =
    (seen.filter fun address => decide (Changed top work.tree address)).length

theorem written_start {top : Tree} (formed : top.WellFormed) {work : Work σ}
    (tree : work.tree = top) (count : work.report.filesRewritten = 0) : Written top [] work := by
  subst tree
  exact ⟨formed, fun _ => rfl, fun _ h => absurd rfl h, fun _ h => absurd rfl h, count⟩

/-- What holds of the files does not depend on the rest of the work. -/
theorem Written.congr {top : Tree} {seen : List Address} {work other : Work σ}
    (h : Written top seen work) (tree : other.tree = work.tree)
    (count : other.report.filesRewritten = work.report.filesRewritten) : Written top seen other := by
  obtain ⟨formed, kinds, others, marked, counted⟩ := h
  exact ⟨tree ▸ formed, tree ▸ kinds, tree ▸ others, tree ▸ marked, tree ▸ count.trans counted⟩

/-- Another text is another content. -/
theorem encode_ne_of_decode? {old new : Text} {bytes : Utf8.Bytes}
    (decoded : Utf8.decode? bytes = some old) (differs : new ≠ old) : Utf8.encode new ≠ bytes := by
  rintro rfl
  rw [Utf8.decode?_encode] at decoded
  exact differs (Option.some.inj decoded)

/-- **One more source.** -/
theorem written_step {top : Tree} {seen : List Address} {work next : Work σ} {address : Address}
    (h : Written top seen work) (fresh : address ∉ seen) (step : Rewrites work next address) :
    Written top (seen ++ [address]) next := by
  have unchanged : work.tree.file? address = top.file? address :=
    Decidable.not_not.mp (mt (h.others address) fresh)
  obtain ⟨tree, count⟩ | ⟨old, new, here, marked, differs, tree, count⟩ := step
  · refine Written.congr ?_ tree count
    refine ⟨h.formed, h.kinds, fun a changed => List.mem_append_left _ (h.others a changed),
      h.marked, ?_⟩
    rw [h.count, List.filter_append]
    simp [Changed, unchanged]
  · obtain ⟨bytes, found, decoded⟩ := Tree.text_eq_ok_iff.mp here
    have file? (other : Address) : next.tree.file? other =
        if other = address then some (Utf8.encode new) else work.tree.file? other := by
      rw [tree]
      exact Tree.file?_put found _ other
    have changedHere : Changed top next.tree address := by
      rw [Changed, file?, if_pos rfl, ← unchanged, found]
      exact fun same => encode_ne_of_decode? decoded differs (Option.some.inj same)
    have changedElsewhere {other : Address} (elsewhere : other ≠ address) :
        Changed top next.tree other ↔ Changed top work.tree other := by
      rw [Changed, file?, if_neg elsewhere, Changed]
    refine ⟨tree ▸ h.formed.put (.file _) address, ?_, ?_, ?_, ?_⟩
    · intro other
      rw [tree, Tree.kind_put found, h.kinds]
    · intro other changed
      by_cases same : other = address
      · simp [same]
      · exact List.mem_append_left _ (h.others other ((changedElsewhere same).mp changed))
    · intro other changed
      by_cases same : other = address
      · subst same
        exact ⟨old, Tree.text_eq_ok_iff.mpr ⟨bytes, unchanged ▸ found, decoded⟩, marked⟩
      · exact h.marked other ((changedElsewhere same).mp changed)
    · have before : (seen.filter fun other => decide (Changed top next.tree other)) =
          seen.filter fun other => decide (Changed top work.tree other) := by
        refine List.filter_congr fun other member => ?_
        exact decide_eq_decide.mpr (changedElsewhere (ne_of_mem_of_not_mem member fresh))
      rw [count, h.count, List.filter_append, before]
      simp [changedHere]

/-- Sources that have not been worked through yet. -/
theorem written_sources {top : Tree} (project : Project) (evaluate : Evaluator (Session σ))
    {places : List Place} {seen : List Address} {work : Work σ} (h : Written top seen work)
    (fresh : (seen ++ places.map (·.address)).Nodup) :
    Written top (seen ++ places.map (·.address))
      (places.foldl (processFile project evaluate) work) := by
  induction places generalizing seen work with
  | nil => simpa using h
  | cons place rest ih =>
    rw [List.map_cons, List.append_cons] at fresh ⊢
    refine ih (written_step h ?_ (processFile_cases project evaluate work place)) fresh
    intro seenBefore
    exact (List.nodup_append.mp (List.nodup_append.mp fresh).1).2.2 _ seenBefore _
      (List.mem_singleton_self _) rfl

theorem written_project {top : Tree} (toolchain : Toolchain σ) (config : Config)
    {project : Project} {seen : List Address} {work : Work σ} (h : Written top seen work)
    (fresh : (seen ++ project.sources.map (·.address)).Nodup) :
    Written top (seen ++ project.sources.map (·.address))
      (processProject toolchain config work project) := by
  have start : Written top seen
      { work with
        report := { work.report with projects := work.report.projects + 1 }
        session := .start work.session.executor.tool } := h.congr rfl rfl
  exact (written_sources project _ start fresh).congr rfl rfl

/-- **All projects.** -/
theorem written_projects {top : Tree} (toolchain : Toolchain σ) (config : Config)
    {projects : List Project} {seen : List Address} {work : Work σ} (h : Written top seen work)
    (fresh : (seen ++ projects.flatMap fun project => project.sources.map (·.address)).Nodup) :
    Written top (seen ++ projects.flatMap fun project => project.sources.map (·.address))
      (projects.foldl (processProject toolchain config) work) := by
  induction projects generalizing seen work with
  | nil => simpa using h
  | cons project rest ih =>
    rw [List.flatMap_cons, ← List.append_assoc] at fresh ⊢
    exact ih (written_project toolchain config h (List.nodup_append.mp fresh).1) fresh

/-! ## The number of files that changed -/

/-- The files that are new or other than before are the changed ones. -/
theorem length_changedFiles {top : Tree} (formed : top.WellFormed) {seen : List Address}
    (distinct : seen.Nodup) {work : Work σ} (h : Written top seen work) :
    (top.changedFiles work.tree).length = work.report.filesRewritten := by
  have listed (address : Address) :
      address ∈ (top.changedFiles work.tree).map (·.1) ↔ Changed top work.tree address := by
    simp only [Tree.changedFiles, List.mem_map, List.mem_filter, Prod.exists, exists_and_right,
      exists_eq_right, Bool.not_eq_eq_eq_not, Bool.not_true, List.contains_eq_mem,
      decide_eq_false_iff_not, Tree.mem_files h.formed, Tree.mem_files formed]
    constructor
    · rintro ⟨content, now, before⟩ same
      exact before (same ▸ now)
    · intro changed
      cases now : work.tree.file? address with
      | some content => exact ⟨content, rfl, fun before => changed (now.trans before.symm)⟩
      | none =>
        -- A file that is gone would have left another kind of entry.
        refine absurd ?_ changed
        rw [now, eq_comm, Option.eq_none_iff_forall_not_mem]
        intro content before
        have kinds := h.kinds address
        rw [Tree.file?_eq_some_iff.mp before] at kinds
        obtain ⟨entry, found, isFile⟩ := Option.map_eq_some_iff.mp kinds
        cases entry with
        | file bytes => simp [Tree.file?_eq_some_iff.mpr found] at now
        | link | directory => cases isFile
  have nodup : ((top.changedFiles work.tree).map (·.1)).Nodup :=
    (Tree.files_nodup h.formed).sublist (List.filter_sublist.map _)
  have perm : ((top.changedFiles work.tree).map (·.1)).Perm
      (seen.filter fun address => decide (Changed top work.tree address)) := by
    refine (List.perm_ext_iff_of_nodup nodup (distinct.filter _)).mpr fun address => ?_
    rw [listed, List.mem_filter, decide_eq_true_iff]
    exact ⟨fun changed => ⟨h.others address changed, changed⟩, And.right⟩
  rw [h.count, ← perm.length_eq, List.length_map]

/-! ## A whole run -/

theorem countAt_le (top : Tree) (address : Address) : countAt top address ≤ top.directoryCount := by
  induction address generalizing top with
  | nil => exact Nat.le_refl _
  | cons name rest ih =>
    cases found : top.entry? name with
    | none => simp [countAt, Tree.at?, found]
    | some child =>
      have below : countAt top (name :: rest) = countAt child rest := by
        simp [countAt, Tree.at?, found]
      have part : child.directoryCount ≤ top.directoryCount := by
        cases top with
        | file | link => cases found
        | directory entries =>
          have member := List.mem_map_of_mem (f := fun entry : Text × Tree => entry.2.directoryCount)
            (Tree.entry?_eq_some_mem found)
          have bound := List.le_sum_of_mem member
          rw [Tree.directoryCount, directoryCountOf_eq]
          exact Nat.le_add_left_of_le bound
      exact below ▸ (ih child).trans part

theorem ready_root {top : Tree} {root : Place} {tree : Tree}
    (here : top.at? root.address = some tree) (isDirectory : tree.isDirectory = true) :
    Ready top top.directoryCount [root] := by
  refine ⟨?_, by simpa using countAt_le top root.address⟩
  intro p member
  obtain rfl := List.mem_singleton.mp member
  exact ⟨tree, here, isDirectory⟩

section

variable {top : Tree} (formed : top.WellFormed) {config : Config} {root place : Place}

include formed

/-- No directory on the way from the root of a run to a project is skipped. -/
theorem leads_address (leads : Explores.Leads (modules top config) root place) :
    ∃ names, place.address = root.address ++ names ∧
      ∀ name ∈ names, Discovery.isSkipped name = false := by
  induction leads with
  | refl => exact ⟨[], by simp, nofun⟩
  | tail _ added ih =>
    obtain ⟨names, above, openAbove⟩ := ih
    obtain ⟨address, ⟨excluded, -, found⟩, rfl⟩ := mem_modules.mp added
    obtain ⟨entry, someAddress, -, stops, isOpen⟩ := (Discovery.mem_found formed).mp found
    refine ⟨names ++ address, by rw [Place.below_address, above, List.append_assoc], ?_⟩
    intro name member
    obtain member | member := List.mem_append.mp member
    · exact openAbove name member
    · have someAddress : address ≠ [] := someAddress
      rw [← List.dropLast_append_getLast someAddress] at member
      obtain inner | last := List.mem_append.mp member
      · exact Discovery.notSkipped_of_open isOpen inner
      · rw [List.mem_singleton.mp last]
        exact stops.2.1 _ (List.getLast?_eq_some_getLast someAddress)

/-- What is known of a source of a project: it is a plain Go file, and no directory on the way to it
from the root of the run is skipped. -/
theorem source_address (leads : Explores.Leads (modules top config) root place) {source : Place}
    (member : source ∈ sources top config place) :
    (∃ content, top.file? source.address = some content ∧ Marker.probe content = false) ∧
      ∃ names name, source.address = root.address ++ names ++ [name] ∧
        Discovery.isSource name = true ∧ ∀ n ∈ names, Discovery.isSkipped n = false := by
  obtain ⟨names, above, openAbove⟩ := leads_address formed leads
  obtain ⟨address, content, ⟨excluded, -, found⟩, plain, rfl⟩ := mem_sources.mp member
  obtain ⟨entry, someAddress, there, ⟨rfl, isSource, -⟩, isOpen⟩ :=
    (Discovery.mem_found formed).mp found
  have someAddress : address ≠ [] := someAddress
  rw [Place.below_address]
  refine ⟨⟨content, Tree.file?_eq_some_iff.mpr there, plain⟩,
    names ++ address.dropLast, address.getLast someAddress, ?_, ?_, ?_⟩
  · rw [above, List.append_assoc, List.append_assoc, List.append_assoc,
      List.dropLast_append_getLast]
  · exact isSource _ (List.getLast?_eq_some_getLast someAddress)
  · intro name member
    obtain member | member := List.mem_append.mp member
    · exact openAbove name member
    · exact Discovery.notSkipped_of_open isOpen member

end

section

variable {top : Tree} {config : Config} {visited : List Place} {projects : List Project}
  (all : List.Forall₂ (fun place project => (Project.load top config place).result = .ok project)
    visited projects)

include all

theorem exists_project {place : Place} (member : place ∈ visited) :
    ∃ project ∈ projects, (Project.load top config place).result = .ok project :=
  exists_second all member

theorem exists_place {project : Project} (member : project ∈ projects) :
    ∃ place ∈ visited, (Project.load top config place).result = .ok project :=
  exists_first all member

/-- The sources of the projects that were loaded. -/
theorem flatMap_sources :
    (projects.flatMap fun project => project.sources.map (·.address)) =
      visited.flatMap fun place => (sources top config place).map (·.address) := by
  induction all with
  | nil => rfl
  | cons loaded _ ih =>
    rw [List.flatMap_cons, List.flatMap_cons, ih, (load_eq_ok loaded).2.1]

end

/-- The work when all projects have been worked through. -/
def finish (toolchain : Toolchain σ) (config : Config) (top : Tree) (root : Place) (tool : σ)
    (projects : List Project) : Work σ :=
  projects.foldl (processProject toolchain config)
    ⟨top, {}, (loadAll top config root).events, .start tool⟩

section

variable {toolchain : Toolchain σ} {config : Config} {top : Tree} {root : Place} {tool : σ}

theorem run_error {e : LoadError} (h : (loadAll top config root).result = .error e) :
    run toolchain config top root tool =
      ⟨.error e, (loadAll top config root).events, top, tool⟩ := by
  simp only [run, h]

theorem run_ok {projects : List Project} (h : (loadAll top config root).result = .ok projects) :
    run toolchain config top root tool =
      let done := finish toolchain config top root tool projects
      ⟨.ok { done.report with diagnostics := diagnosticsOf done.events }, done.events, done.tree,
        done.session.executor.tool⟩ := by
  simp only [run, h, finish]

end

/-- **A run writes only what it should.** Where the root or a module nested in it fails to load, the
run ends with such an error and leaves the files and the toolchain as they were. Otherwise no entry
is made or taken away, the report counts the files that changed, and each of them is a source of a
project, has a marker or the begin of a region, and is neither a helper file nor a file of another
name nor in a skipped directory. -/
theorem run_frame (toolchain : Toolchain σ) (config : Config) {top : Tree} (formed : top.WellFormed)
    (root : Place) (isDirectory : (top.at? root.address).any Tree.isDirectory = true) (tool : σ) :
    let outcome := run toolchain config top root tool
    let Reached := Explores.Leads (modules top config) root
    ((∃ place e, Reached place ∧ (Project.load top config place).result = .error e) →
      ∃ place e, Reached place ∧ (Project.load top config place).result = .error e ∧
        outcome.result = .error e ∧ outcome.tree = top ∧ outcome.tool = tool) ∧
    ((∀ place, Reached place → ∃ project, (Project.load top config place).result = .ok project) →
      ∃ report, outcome.result = .ok report ∧
        (∀ address, (outcome.tree.at? address).map Tree.kind = (top.at? address).map Tree.kind) ∧
        report.filesRewritten = (top.changedFiles outcome.tree).length ∧
        ∀ address, outcome.tree.file? address ≠ top.file? address →
          (∃ place project, Reached place ∧ (Project.load top config place).result = .ok project ∧
            address ∈ project.sources.map (·.address)) ∧
          (∃ content, top.text address = .ok content ∧ Marked content) ∧
          (∃ content, top.file? address = some content ∧ Marker.probe content = false) ∧
          ∃ names name, address = root.address ++ names ++ [name] ∧
            Discovery.isSource name = true ∧ ∀ n ∈ names, Discovery.isSkipped n = false) := by
  intro outcome Reached
  cases here : top.at? root.address with
  | none => simp [here] at isDirectory
  | some tree =>
    have ready := ready_root here (by simpa [here] using isDirectory)
    cases loading : (loadAll top config root).result with
    | error e =>
      obtain ⟨_, atRoot, place, leads, failed⟩ := loadFrom_error loading
      rw [List.mem_singleton.mp atRoot] at leads
      have ended : outcome = _ := run_error loading
      refine ⟨fun _ => ⟨place, e, leads, failed, by rw [ended], by rw [ended], by rw [ended]⟩, ?_⟩
      intro loads
      obtain ⟨project, loaded⟩ := loads place leads
      cases failed.symm.trans loaded
    | ok projects =>
      obtain ⟨visited, explores, all, -⟩ := loadFrom_ok formed ready loading
      refine ⟨?_, fun _ => ?_⟩
      · rintro ⟨place, e, reached, failed⟩
        obtain ⟨project, -, loaded⟩ :=
          exists_project all (explores.mem_of_leads (List.mem_singleton_self _) reached)
        cases failed.symm.trans loaded
      · have distinct := explores_sources_nodup formed explores (List.pairwise_singleton _ _)
        rw [← flatMap_sources all] at distinct
        have written : Written top _ (finish toolchain config top root tool projects) :=
          written_projects toolchain config (written_start formed rfl rfl) (by simpa using distinct)
        have ended : outcome = _ := run_ok loading
        have tree : outcome.tree = (finish toolchain config top root tool projects).tree := by
          rw [ended]
        refine ⟨_, by rw [ended], tree ▸ written.kinds, ?_, ?_⟩
        · rw [tree, length_changedFiles formed (by simpa using distinct) written]
        · intro address changed
          rw [tree] at changed
          have listed := written.others address changed
          rw [List.nil_append, flatMap_sources all] at listed
          obtain ⟨place, member, isSource⟩ := List.mem_flatMap.mp listed
          obtain ⟨project, -, loaded⟩ := exists_project all member
          obtain ⟨_, atRoot, leads⟩ := explores.leads_of_mem member
          rw [List.mem_singleton.mp atRoot] at leads
          obtain ⟨source, member, rfl⟩ := List.mem_map.mp isSource
          obtain ⟨plain, way⟩ := source_address formed leads member
          exact ⟨⟨place, project, leads, loaded, (load_eq_ok loaded).2.1 ▸ isSource⟩,
            written.marked _ changed, plain, way⟩

/-- A toolchain that prints the same for every program and finds every package under its name. -/
def printing (output : Text) : Toolchain Unit where
  run _ s := (.ok ⟨true, some 0, output, []⟩, s)
  package name s := (.ok (some name), s)

/-- A helper file and a source that asks for its value. -/
def portTree : Tree := .directory
  [("helpers.go".toList, .file (Utf8.encode
      "//go:ahead functions\npackage main\n\nfunc Port() int \x7b return 8080 \x7d\n".toList)),
    ("main.go".toList, .file (Utf8.encode "package main\n\n//:Port\nvar port = 0\n".toList))]

/-- The source is filled and counted. -/
theorem port_counted :
    let outcome := run (printing "8080\n".toList) {} portTree ⟨⟨".".toList⟩, []⟩ ()
    outcome.tree.file? ["main.go".toList] =
        some (Utf8.encode "package main\n\n//:Port\nvar port = 8080\n".toList) ∧
      ∃ report, outcome.result = .ok report ∧
        report.filesRewritten = (portTree.changedFiles outcome.tree).length := by
  intro outcome
  have formed : portTree.WellFormed := by
    refine .directory (by decide) ?_
    simp only [List.forall_mem_cons]
    exact ⟨.file _, .file _, nofun⟩
  have alone : modules portTree {} ⟨⟨".".toList⟩, []⟩ = [] := by decide +kernel
  have loads : (Project.load portTree {} ⟨⟨".".toList⟩, []⟩).result.toBool = true := by decide +kernel
  have all (place : Place)
      (reached : Explores.Leads (modules portTree {}) ⟨⟨".".toList⟩, []⟩ place) :
      ∃ project, (Project.load portTree {} place).result = .ok project := by
    obtain rfl | ⟨_, added, -⟩ := reached.cases_head
    · cases loaded : (Project.load portTree {} ⟨⟨".".toList⟩, []⟩).result with
      | ok project => exact ⟨project, rfl⟩
      | error e =>
        rw [loaded] at loads
        cases loads
    · rw [alone] at added
      cases added
  obtain ⟨report, result, -, count, -⟩ :=
    (run_frame (printing "8080\n".toList) {} formed ⟨⟨".".toList⟩, []⟩ rfl ()).2 all
  exact ⟨by decide +kernel, report, result, count⟩

end Prefill.Run
