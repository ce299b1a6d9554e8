import Mathlib.Data.List.Induction
import Prefill.Proofs.Filing
import Prefill.Proofs.Sides

/-!
Which project a file belongs to. A project starts at the root of a run and at every directory with a
manifest, and an entry belongs to the nearest one above it (`Encloses`). A run comes to a project when
no directory on the way is skipped, or excluded as seen from the project around it
(`passed_of_leads`, `leads_of_passed`), and a Go file is in the lists of the project around it when
the same holds of the way to the file and the file is not excluded (`file_belongs`). Addresses count
from the root of the run.
-/

namespace Prefill.Run

open Text

/-- A directory at which a project starts: the root of a run, or one with a manifest. -/
def StartsProject (top : Tree) (root : Place) (directory : Address) : Prop :=
  directory = [] ∨ top.isFileAt (root.address ++ directory ++ [Discovery.manifest]) = true

/-- The nearest directory above an entry at which a project starts. -/
structure Encloses (top : Tree) (root : Place) (owner address : Address) : Prop where
  above : owner <+: address
  proper : owner ≠ address
  starts : StartsProject top root owner
  nearest : ∀ other, other <+: address → other ≠ address → StartsProject top root other →
    other <+: owner

/-- Whether the settings exclude what lies at an address below a project. -/
def excludes (config : Config) (relative : Address) : Bool :=
  match config.excluded with
  | .ok excluded => excluded.any fun glob => glob.isMatch (joinWith "/" relative)
  | .error _ => false

/-- An entry that is not excluded as seen from the project around it. -/
def Wanted (top : Tree) (config : Config) (root : Place) (address : Address) : Prop :=
  ∀ owner rest, address = owner ++ rest → Encloses top root owner address →
    excludes config rest = false

/-- A directory that a run passes on its way down. -/
structure Passed (top : Tree) (config : Config) (root : Place) (directory : Address) : Prop where
  notSkipped : ∀ name, directory.getLast? = some name → Discovery.isSkipped name = false
  wanted : Wanted top config root directory

section

variable {top : Tree} {config : Config} {root : Place}

theorem Encloses.unique {owner owner' address : Address} (h : Encloses top root owner address)
    (h' : Encloses top root owner' address) : owner = owner' := by
  have first := h'.nearest owner h.above h.proper h.starts
  have second := h.nearest owner' h'.above h'.proper h'.starts
  exact first.eq_of_length (Nat.le_antisymm first.length_le second.length_le)

theorem wanted_iff {owner rest : Address} (h : Encloses top root owner (owner ++ rest)) :
    Wanted top config root (owner ++ rest) ↔ excludes config rest = false := by
  constructor
  · intro wanted
    exact wanted owner rest rfl h
  · intro notExcluded other rest' whole encloses
    obtain rfl := h.unique encloses
    rwa [← List.append_cancel_left whole]

/-- A project is around what lies below it where no other project starts on the way. -/
theorem encloses_append_iff {owner rest : Address} (starts : StartsProject top root owner)
    (someRest : rest ≠ []) : Encloses top root owner (owner ++ rest) ↔
      ∀ front, front <+: rest → front ≠ [] → front ≠ rest →
        top.isFileAt (root.address ++ (owner ++ front) ++ [Discovery.manifest]) = false := by
  constructor
  · intro encloses front isPrefix someFront proper
    rw [Bool.eq_false_iff]
    intro manifest
    have higher := encloses.nearest (owner ++ front)
      ((List.prefix_append_right_inj owner).mpr isPrefix) (by simpa using proper) (.inr manifest)
    have size := higher.length_le
    have positive := List.length_pos_iff.mpr someFront
    rw [List.length_append] at size
    omega
  · intro none
    refine ⟨List.prefix_append _ _, by simpa using someRest.symm, starts, ?_⟩
    intro other isPrefix proper otherStarts
    obtain higher | lower := List.prefix_or_prefix_of_prefix isPrefix (List.prefix_append owner rest)
    · exact higher
    · obtain ⟨front, rfl⟩ := lower
      by_cases empty : front = []
      · simp [empty]
      have notModule := none front ((List.prefix_append_right_inj owner).mp isPrefix) empty
        (by simpa using proper)
      rcases otherStarts with atRoot | manifest
      · simp_all
      · rw [notModule] at manifest
        cases manifest

/-- What a project is around, it is around on the whole way down. -/
theorem Encloses.on_the_way {owner rest front : Address}
    (h : Encloses top root owner (owner ++ rest)) (isPrefix : front <+: rest)
    (someFront : front ≠ []) : Encloses top root owner (owner ++ front) := by
  have someRest : rest ≠ [] := by
    rintro rfl
    exact someFront (List.prefix_nil.mp isPrefix)
  have starts := h.starts
  rw [encloses_append_iff starts someRest] at h
  rw [encloses_append_iff starts someFront]
  intro before inFront someBefore proper
  refine h before (inFront.trans isPrefix) someBefore ?_
  rintro rfl
  exact proper (inFront.eq_of_length_le isPrefix.length_le)

/-- A beginning of two lists together is one of the first, or the first with one of the second. -/
theorem prefix_append_cases {α : Type} {part front back : List α} (h : part <+: front ++ back) :
    part <+: front ∨ ∃ more, more <+: back ∧ more ≠ [] ∧ part = front ++ more := by
  obtain inside | beyond := List.prefix_or_prefix_of_prefix h (List.prefix_append front back)
  · exact .inl inside
  · obtain ⟨more, rfl⟩ := beyond
    by_cases empty : more = []
    · simp [empty]
    · exact .inr ⟨more, (List.prefix_append_right_inj front).mp h, empty, rfl⟩

/-- Something is around every entry below the root. -/
theorem exists_encloses (top : Tree) (root : Place) (address : Address) (below : address ≠ []) :
    ∃ owner, Encloses top root owner address := by
  induction address using List.reverseRecOn with
  | nil => exact absurd rfl below
  | append_singleton front name ih =>
    by_cases starts : StartsProject top root front
    · refine ⟨front, List.prefix_append _ _, by simp, starts, ?_⟩
      intro other isPrefix proper _
      obtain inside | ⟨more, isPrefix, someMore, rfl⟩ := prefix_append_cases isPrefix
      · exact inside
      · exact absurd (by simp_all [List.prefix_cons_iff]) proper
    · have someFront : front ≠ [] := fun empty => starts (.inl empty)
      obtain ⟨owner, encloses⟩ := ih someFront
      refine ⟨owner, encloses.above.trans (List.prefix_append _ _), ?_, encloses.starts, ?_⟩
      · rintro rfl
        simpa using encloses.above.length_le
      · intro other isPrefix proper otherStarts
        obtain inside | ⟨more, isPrefix, someMore, rfl⟩ := prefix_append_cases isPrefix
        · refine encloses.nearest other inside ?_ otherStarts
          rintro rfl
          exact starts otherStarts
        · exact absurd (by simp_all [List.prefix_cons_iff]) proper

/-! ## What a project finds -/

variable {excluded : List Glob} (patterns : config.excluded = .ok excluded) {owner : Address}

include patterns

theorem scope_excluded_below (relative : Address) :
    (Discovery.scope top excluded (root.below owner)).excluded relative =
      excludes config relative := by
  rw [excludes, patterns, Discovery.scope_excluded]

omit patterns in
theorem scope_isModule_below (relative : Address) :
    (Discovery.scope top excluded (root.below owner)).isModule relative =
      top.isFileAt (root.address ++ (owner ++ relative) ++ [Discovery.manifest]) := by
  rw [Discovery.scope_isModule, Place.below_address]
  simp only [List.append_assoc]

/-- **The way of a walk.** A project comes to what lies below it exactly when it is around it and
passes the directories on the way. -/
theorem open_iff (starts : StartsProject top root owner) (rest : Address) (someRest : rest ≠ []) :
    Discovery.Open (Discovery.scope top excluded (root.below owner)) [] rest ↔
      Encloses top root owner (owner ++ rest) ∧
        ∀ front, front <+: rest → front ≠ [] → front ≠ rest →
          Passed top config root (owner ++ front) := by
  constructor
  · intro isOpen
    have encloses : Encloses top root owner (owner ++ rest) := by
      rw [encloses_append_iff starts someRest]
      intro front isPrefix someFront proper
      have enters := isOpen front isPrefix someFront proper
      have notModule := enters.notModule
      rwa [scope_isModule_below] at notModule
    refine ⟨encloses, ?_⟩
    intro front isPrefix someFront proper
    have enters := isOpen front isPrefix someFront proper
    constructor
    · intro name last
      rw [List.getLast?_append_of_ne_nil _ someFront] at last
      exact enters.notSkipped name last
    · rw [wanted_iff (encloses.on_the_way isPrefix someFront), ← scope_excluded_below patterns]
      exact enters.notExcluded
  · rintro ⟨encloses, passed⟩ front isPrefix someFront proper
    obtain ⟨notSkipped, wanted⟩ := passed front isPrefix someFront proper
    refine ⟨?_, ?_, ?_⟩
    · intro name last
      exact notSkipped name (by rwa [List.getLast?_append_of_ne_nil _ someFront])
    · rw [wanted_iff (encloses.on_the_way isPrefix someFront)] at wanted
      rw [← wanted]
      exact scope_excluded_below patterns front
    · rw [encloses_append_iff starts someRest] at encloses
      rw [← encloses front isPrefix someFront proper]
      exact scope_isModule_below front

variable (formed : top.WellFormed)

include formed

/-- A project finds an entry at which a walk stops, if it is around it and passes the directories on
the way. -/
theorem finds_iff (starts : StartsProject top root owner) {f : Discovery.Found} :
    Finds top config (root.below owner) f ↔
      f.address ≠ [] ∧
        (∃ entry, top.at? (root.address ++ (owner ++ f.address)) = some entry ∧
          Discovery.Stops (Discovery.scope top excluded (root.below owner)) entry f) ∧
        Encloses top root owner (owner ++ f.address) ∧
        ∀ front, front <+: f.address → front ≠ [] → front ≠ f.address →
          Passed top config root (owner ++ front) := by
  have here : (root.below owner).address ++ f.address = root.address ++ (owner ++ f.address) := by
    rw [Place.below_address, List.append_assoc]
  constructor
  · rintro ⟨_, same, found⟩
    obtain rfl := Except.ok.inj (patterns.symm.trans same)
    obtain ⟨entry, someRest, there, stops, isOpen⟩ := (Discovery.mem_found formed).mp found
    exact ⟨someRest, ⟨entry, here ▸ there, stops⟩, (open_iff patterns starts _ someRest).mp isOpen⟩
  · rintro ⟨someRest, ⟨entry, there, stops⟩, way⟩
    exact ⟨excluded, patterns, (Discovery.mem_found formed).mpr
      ⟨entry, someRest, here ▸ there, stops, (open_iff patterns starts _ someRest).mpr way⟩⟩

/-- The Go files that a project finds. -/
theorem finds_source_iff (starts : StartsProject top root owner) {rest : Address}
    {content : Utf8.Bytes} : Finds top config (root.below owner) (.source rest content) ↔
      rest ≠ [] ∧ top.at? (root.address ++ (owner ++ rest)) = some (.file content) ∧
        (∀ name, rest.getLast? = some name → Discovery.isSource name = true) ∧
        Encloses top root owner (owner ++ rest) ∧
        (∀ front, front <+: rest → front ≠ [] → front ≠ rest →
          Passed top config root (owner ++ front)) ∧
        Wanted top config root (owner ++ rest) := by
  rw [finds_iff patterns formed starts, Discovery.Found.address]
  constructor
  · rintro ⟨someRest, ⟨_, there, rfl, isSource, notExcluded⟩, encloses, passed⟩
    refine ⟨someRest, there, isSource, encloses, passed, ?_⟩
    rw [wanted_iff encloses, ← scope_excluded_below patterns]
    exact notExcluded
  · rintro ⟨someRest, there, isSource, encloses, passed, wanted⟩
    refine ⟨someRest, ⟨_, there, rfl, isSource, ?_⟩, encloses, passed⟩
    rw [scope_excluded_below patterns, (wanted_iff encloses).mp wanted]

/-- The modules that a project finds. -/
theorem finds_module_iff (starts : StartsProject top root owner) {rest : Address} :
    Finds top config (root.below owner) (.module rest) ↔
      rest ≠ [] ∧
        (∃ entry, top.at? (root.address ++ (owner ++ rest)) = some entry ∧
          entry.isDirectory = true) ∧
        top.isFileAt (root.address ++ (owner ++ rest) ++ [Discovery.manifest]) = true ∧
        Encloses top root owner (owner ++ rest) ∧
        ∀ front, front <+: rest → front ≠ [] → Passed top config root (owner ++ front) := by
  rw [finds_iff patterns formed starts, Discovery.Found.address]
  constructor
  · rintro ⟨someRest, ⟨entry, there, isDirectory, notSkipped, notExcluded, isModule⟩, encloses,
      passed⟩
    refine ⟨someRest, ⟨entry, there, isDirectory⟩, ?_, encloses, ?_⟩
    · rwa [scope_isModule_below] at isModule
    · intro front isPrefix someFront
      by_cases whole : front = rest
      · subst whole
        refine ⟨?_, ?_⟩
        · rw [List.getLast?_append_of_ne_nil _ someFront]
          exact notSkipped
        · rw [wanted_iff encloses, ← scope_excluded_below patterns]
          exact notExcluded
      · exact passed front isPrefix someFront whole
  · rintro ⟨someRest, ⟨entry, there, isDirectory⟩, isModule, encloses, passed⟩
    have last := passed rest List.prefix_rfl someRest
    refine ⟨someRest, ⟨entry, there, isDirectory, ?_, ?_, ?_⟩, encloses, ?_⟩
    · rw [← List.getLast?_append_of_ne_nil owner someRest]
      exact last.notSkipped
    · rw [scope_excluded_below patterns, (wanted_iff encloses).mp last.wanted]
    · rw [scope_isModule_below, isModule]
    · intro front isPrefix someFront _
      exact passed front isPrefix someFront

end

/-! ## The projects that a run comes to -/

section

variable {top : Tree} {config : Config} {root : Place} {excluded : List Glob}
  (patterns : config.excluded = .ok excluded) (formed : top.WellFormed)

include patterns formed

/-- A run has passed every directory down to a project. -/
theorem passed_of_leads {place : Place} (leads : Explores.Leads (modules top config) root place) :
    ∃ owner, place = root.below owner ∧ StartsProject top root owner ∧
      ∀ front, front <+: owner → front ≠ [] → Passed top config root front := by
  induction leads with
  | refl =>
    refine ⟨[], rfl, .inl rfl, ?_⟩
    intro front isPrefix someFront
    exact absurd (List.prefix_nil.mp isPrefix) someFront
  | tail _ added ih =>
    obtain ⟨owner, rfl, starts, passed⟩ := ih
    obtain ⟨rest, found, rfl⟩ := mem_modules.mp added
    obtain ⟨someRest, -, isModule, -, further⟩ := (finds_module_iff patterns formed starts).mp found
    refine ⟨owner ++ rest, (Place.below_append ..).symm, .inr isModule, ?_⟩
    intro front isPrefix someFront
    obtain inside | ⟨more, within, someMore, rfl⟩ := prefix_append_cases isPrefix
    · exact passed front inside someFront
    · exact further more within someMore

/-- **A run comes to a project** if it passes every directory down to it. -/
theorem leads_of_passed {owner : Address}
    (isDirectory : ∃ entry, top.at? (root.address ++ owner) = some entry ∧ entry.isDirectory = true)
    (starts : StartsProject top root owner)
    (passed : ∀ front, front <+: owner → front ≠ [] → Passed top config root front) :
    Explores.Leads (modules top config) root (root.below owner) := by
  induction size : owner.length using Nat.strong_induction_on generalizing owner with
  | _ n ih =>
    by_cases empty : owner = []
    · subst empty
      exact .refl
    obtain ⟨outer, encloses⟩ := exists_encloses top root owner empty
    obtain ⟨rest, rfl⟩ := encloses.above
    have someRest : rest ≠ [] := by
      rintro rfl
      exact encloses.proper (by simp)
    obtain ⟨entry, there, isDirectory⟩ := isDirectory
    have above : ∃ entry, top.at? (root.address ++ outer) = some entry ∧ entry.isDirectory = true := by
      rw [← List.append_assoc] at there
      exact Tree.isDirectory_of_at?_append someRest there
    have shorter : outer.length < n := by
      have positive := List.length_pos_iff.mpr someRest
      rw [List.length_append] at size
      omega
    have outerPassed (front : Address) (isPrefix : front <+: outer) (someFront : front ≠ []) :
        Passed top config root front :=
      passed front (isPrefix.trans (List.prefix_append _ _)) someFront
    have leads := ih outer.length shorter above encloses.starts outerPassed rfl
    have isModule : top.isFileAt (root.address ++ (outer ++ rest) ++ [Discovery.manifest]) = true := by
      rcases starts with atRoot | manifest
      · exact absurd atRoot empty
      · exact manifest
    have found : Finds top config (root.below outer) (.module rest) := by
      refine (finds_module_iff patterns formed encloses.starts).mpr
        ⟨someRest, ⟨entry, there, isDirectory⟩, isModule, encloses, ?_⟩
      intro front isPrefix someFront
      exact passed (outer ++ front) ((List.prefix_append_right_inj outer).mpr isPrefix)
        (by simp [someFront])
    rw [Place.below_append]
    exact leads.tail (mem_modules.mpr ⟨rest, found, rfl⟩)

omit patterns formed in
theorem below_injective {address other : Address} (same : root.below address = root.below other) :
    address = other := by
  have addresses := congrArg Place.address same
  rw [Place.below_address, Place.below_address] at addresses
  exact List.append_cancel_left addresses

/-- A Go file is one of a project that a run comes to exactly when the project is the nearest around
it and the run passes all directories down to the file. -/
theorem mem_goFiles_iff {owner address : Address} {content : Utf8.Bytes}
    (isFile : top.at? (root.address ++ address) = some (.file content))
    (isSource : ∀ name, address.getLast? = some name → Discovery.isSource name = true) :
    Explores.Leads (modules top config) root (root.below owner) ∧
        root.below address ∈ goFiles top config (root.below owner) ↔
      Encloses top root owner address ∧
        (∀ front, front <+: address → front ≠ [] → front ≠ address → Passed top config root front) ∧
        Wanted top config root address := by
  constructor
  · rintro ⟨leads, found⟩
    obtain ⟨owner', same, starts, above⟩ := passed_of_leads patterns formed leads
    obtain rfl := below_injective same
    obtain ⟨rest, _, finds, place⟩ := mem_goFiles.mp found
    rw [← Place.below_append] at place
    obtain rfl := below_injective place
    obtain ⟨someRest, -, -, encloses, below, wanted⟩ :=
      (finds_source_iff patterns formed starts).mp finds
    refine ⟨encloses, ?_, wanted⟩
    intro front isPrefix someFront proper
    obtain inside | ⟨more, within, someMore, rfl⟩ := prefix_append_cases isPrefix
    · exact above front inside someFront
    · exact below more within someMore (by simpa using proper)
  · rintro ⟨encloses, passed, wanted⟩
    obtain ⟨rest, rfl⟩ := encloses.above
    have someRest : rest ≠ [] := by
      rintro rfl
      exact encloses.proper (by simp)
    have isDirectory : ∃ entry, top.at? (root.address ++ owner) = some entry ∧
        entry.isDirectory = true := by
      rw [← List.append_assoc] at isFile
      exact Tree.isDirectory_of_at?_append someRest isFile
    constructor
    · apply leads_of_passed patterns formed isDirectory encloses.starts
      intro front isPrefix someFront
      refine passed front (isPrefix.trans (List.prefix_append _ _)) someFront ?_
      rintro rfl
      exact encloses.proper (isPrefix.eq_of_length_le (by simp)).symm
    · refine mem_goFiles.mpr ⟨rest, content, ?_, Place.below_append ..⟩
      refine (finds_source_iff patterns formed encloses.starts).mpr
        ⟨someRest, isFile, ?_, encloses, ?_, wanted⟩
      · intro name last
        exact isSource name (by rwa [List.getLast?_append_of_ne_nil _ someRest])
      · intro front isPrefix someFront proper
        exact passed (owner ++ front) ((List.prefix_append_right_inj owner).mpr isPrefix)
          (by simp [someFront]) (by simpa using proper)

end

/-! ## The files of the projects -/

/-- The paths of the helpers and the sources of a project. -/
def filePaths (project : Project) : List Path :=
  project.helpers.map (·.path) ++ project.sources.map (·.path)

/-- The files of a project are the Go files that it finds. -/
theorem filePaths_perm {top : Tree} {config : Config} {place : Place} {project : Project}
    (h : (Project.load top config place).result = .ok project) :
    (filePaths project).Perm ((goFiles top config place).map (·.path)) := by
  obtain ⟨excluded, files, patterns, perm, read⟩ := Project.helpers_of_load h
  obtain ⟨-, listed, -⟩ := load_eq_ok h
  have helpers : (project.helpers.map (·.path)).Perm
      ((contents top config place).helpers.map (·.path)) := by
    rw [contents, patterns, ← Project.paths_of_read read]
    exact perm.map _
  have parts := (helpers_append_sources top config place).map Place.path
  rw [List.map_append] at parts
  rw [filePaths, listed]
  exact (helpers.append_right _).trans parts

section

variable {top : Tree} {config : Config} {root : Place} (formed : top.WellFormed) (plain : top.Plain)

include formed plain

/-- What a run comes to lies at an address below the root that has the names of a file system. -/
theorem exists_address {visited : List Place}
    (explores : Explores (modules top config) [root] visited) {place file : Place}
    (member : place ∈ visited) (isFile : file ∈ goFiles top config place) :
    ∃ address, file = root.below address ∧ ∀ name ∈ address, Path.IsName name := by
  obtain ⟨names, rfl⟩ := below_of_visited explores member
  obtain ⟨rest, content, ⟨excluded, -, found⟩, rfl⟩ := mem_goFiles.mp isFile
  refine ⟨names ++ rest, (Place.below_append ..).symm, ?_⟩
  obtain ⟨entry, -, here, -⟩ := (Discovery.mem_found formed).mp found
  intro name inside
  refine plain _ entry here name ?_
  rw [Place.below_address, List.append_assoc]
  exact List.mem_append_right _ inside

theorem paths_apart {visited : List Place}
    (explores : Explores (modules top config) [root] visited) :
    (visited.flatMap fun p => (goFiles top config p).map (·.path)).Pairwise
      fun p q => p.same q = false := by
  have distinct := (explores_files_nodup formed explores (List.pairwise_singleton _ _)).1
  rw [← List.map_flatMap] at distinct ⊢
  refine List.pairwise_map.mpr ((List.pairwise_map.mp distinct).imp_of_mem ?_)
  intro file other inFirst inSecond differ
  obtain ⟨place, member, isFile⟩ := List.mem_flatMap.mp inFirst
  obtain ⟨place', member', isFile'⟩ := List.mem_flatMap.mp inSecond
  obtain ⟨address, rfl, valid⟩ := exists_address formed plain explores member isFile
  obtain ⟨address', rfl, valid'⟩ := exists_address formed plain explores member' isFile'
  rw [Bool.eq_false_iff]
  intro same
  exact differ (by rw [Place.address_eq_of_same valid valid' same])

end

theorem flatMap_filePaths_perm {top : Tree} {config : Config} {visited : List Place}
    {projects : List Project}
    (all : List.Forall₂ (fun place project => (Project.load top config place).result = .ok project)
      visited projects) :
    (projects.flatMap filePaths).Perm
      (visited.flatMap fun place => (goFiles top config place).map (·.path)) := by
  induction all with
  | nil => exact .nil
  | cons loaded _ ih =>
    rw [List.flatMap_cons, List.flatMap_cons]
    exact (filePaths_perm loaded).append ih

/-- **Every Go file belongs to one project.** Where all projects of a run load, no path is twice in
their lists. A Go file is in the lists of the project at a directory exactly when that project is the
nearest one around it, no directory on the way from the root is skipped by its name or excluded as
seen from the project around it, and the file is not excluded either. A project starts at the root of
the run and at every directory that has a manifest, perhaps at the end of links. -/
theorem file_belongs {top : Tree} (formed : top.WellFormed) (plain : top.Plain) {config : Config}
    {root : Place}
    (isDirectory : ∃ tree, top.at? root.address = some tree ∧ tree.isDirectory = true)
    {projects : List Project} (h : (loadAll top config root).result = .ok projects) :
    (projects.flatMap filePaths).Pairwise (fun p q => p.same q = false) ∧
    ∀ owner address, (top.file? (root.address ++ address)).isSome = true →
      (∀ name, address.getLast? = some name → Discovery.isSource name = true) →
      ((∃ project ∈ projects, project.root = root.below owner ∧
          (root.below address).path ∈ filePaths project) ↔
        Encloses top root owner address ∧
        (∀ front, front <+: address → front ≠ [] → front ≠ address →
          Passed top config root front) ∧
        Wanted top config root address) := by
  obtain ⟨tree, here, isDirectory⟩ := isDirectory
  obtain ⟨visited, explores, all, -⟩ := loadFrom_ok formed (ready_root here isDirectory) h
  have symm : ∀ {p q : Path}, p.same q = false → q.same p = false := by
    intro p q differ
    simpa [Path.same, eq_comm] using differ
  refine ⟨((flatMap_filePaths_perm all).pairwise_iff symm).mpr (paths_apart formed plain explores), ?_⟩
  intro owner address isFile isSource
  obtain ⟨content, isFile⟩ := Option.isSome_iff_exists.mp isFile
  rw [Tree.file?_eq_some_iff] at isFile
  have valid : ∀ name ∈ address, Path.IsName name := by
    intro name inside
    exact plain _ _ isFile name (List.mem_append_right _ inside)
  -- The root has been loaded, so the patterns can be read.
  obtain ⟨first, -, rootLoads⟩ := exists_project all (explores.subset root (by simp))
  obtain ⟨excluded, patterns, -⟩ := Project.mem_helpers_of_load rootLoads
  rw [← mem_goFiles_iff patterns formed isFile isSource]
  constructor
  · rintro ⟨project, member, atOwner, listed⟩
    obtain ⟨place, reached, loaded⟩ := exists_place all member
    obtain rfl : root.below owner = place := by rw [← atOwner, (load_eq_ok loaded).1]
    rw [(filePaths_perm loaded).mem_iff] at listed
    obtain ⟨file, found, samePath⟩ := List.mem_map.mp listed
    obtain ⟨other, rfl, validToo⟩ := exists_address formed plain explores reached found
    have same : (root.below other).path.same (root.below address).path = true := by
      simp [Path.same, samePath]
    obtain rfl := Place.address_eq_of_same validToo valid same
    exact ⟨explores.mem_iff.mp reached, found⟩
  · rintro ⟨leads, found⟩
    obtain ⟨project, member, loaded⟩ := exists_project all (explores.mem_iff.mpr leads)
    refine ⟨project, member, (load_eq_ok loaded).1, ?_⟩
    rw [(filePaths_perm loaded).mem_iff]
    exact List.mem_map_of_mem found

/-- A directory with a source, whose manifest is a link to the one above it. -/
def linkedTree : Tree := .directory
  [("go.mod".toList, .file []),
    ("sub".toList, .directory
      [("go.mod".toList, .link "../go.mod".toList),
        ("x.go".toList, .file (Utf8.encode "package x\n".toList))])]

def here : Place := ⟨⟨".".toList⟩, []⟩

/-- The manifest is no regular file, and still the directory is a project of its own: its source is
not in the lists of the project at the root. -/
theorem linked_manifest_starts_project :
    linkedTree.file? ["sub".toList, "go.mod".toList] = none ∧
    (loadAll linkedTree {} here).result.toOption.map (fun projects =>
        projects.map fun project => (project.root, filePaths project)) =
      some [(here, []), (here.below ["sub".toList], [⟨"./sub/x.go".toList⟩])] := by
  decide +kernel

theorem linkedTree_formed : linkedTree.WellFormed := by
  refine .directory (by simp) ?_
  simp only [List.forall_mem_cons]
  refine ⟨.file _, .directory (by simp) ?_, nofun⟩
  simp only [List.forall_mem_cons]
  exact ⟨.link _, .file _, nofun⟩

theorem linkedTree_plain : linkedTree.Plain := by
  refine .directory ?_ ?_ <;> simp only [List.forall_mem_cons]
  · exact ⟨⟨by decide, by decide⟩, ⟨by decide, by decide⟩, nofun⟩
  refine ⟨.file _, .directory ?_ ?_, nofun⟩ <;> simp only [List.forall_mem_cons]
  · exact ⟨⟨by decide, by decide⟩, ⟨by decide, by decide⟩, nofun⟩
  · exact ⟨.link _, .file _, nofun⟩

/-- The source is in the lists of the project around it. -/
theorem linked_source_belongs : ∃ projects, (loadAll linkedTree {} here).result = .ok projects ∧
    Encloses linkedTree here ["sub".toList] ["sub".toList, "x.go".toList] ∧
    ∃ project ∈ projects, project.root = here.below ["sub".toList] ∧
      (here.below ["sub".toList, "x.go".toList]).path ∈ filePaths project := by
  have summary : (loadAll linkedTree {} here).result.toOption.map (fun projects =>
        projects.map fun project => (project.root, filePaths project)) =
      some [(here, []), (here.below ["sub".toList], [⟨"./sub/x.go".toList⟩])] := by
    decide +kernel
  obtain ⟨projects, loads, lists⟩ := Option.map_eq_some_iff.mp summary
  have loads := eq_ok_of_toOption loads
  have belongs := (file_belongs linkedTree_formed linkedTree_plain ⟨linkedTree, rfl, rfl⟩ loads).2
    ["sub".toList] ["sub".toList, "x.go".toList] (by decide +kernel) (by decide +kernel)
  have member : (here.below ["sub".toList], [⟨"./sub/x.go".toList⟩]) ∈
      projects.map fun project => (project.root, filePaths project) := by
    rw [lists]
    simp
  obtain ⟨project, inProjects, same⟩ := List.mem_map.mp member
  obtain ⟨atOwner, files⟩ := Prod.mk.inj same
  have listed : ∃ project ∈ projects, project.root = here.below ["sub".toList] ∧
      (here.below ["sub".toList, "x.go".toList]).path ∈ filePaths project := by
    refine ⟨project, inProjects, atOwner, ?_⟩
    rw [files]
    decide +kernel
  exact ⟨projects, loads, (belongs.mp listed).1, listed⟩

end Prefill.Run
