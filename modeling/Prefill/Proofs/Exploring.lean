import Mathlib.Algebra.GroupWithZero.Nat
import Mathlib.Algebra.Order.BigOperators.Group.List
import Mathlib.Algebra.Order.Group.Nat
import Mathlib.Data.List.Flatten
import Mathlib.Data.List.Perm.Basic
import Mathlib.Logic.Relation
import Prefill.Proofs.Loading
import Prefill.Proofs.Walk

/-!
Which projects a run loads. The root comes first, and every project puts its modules at the end of
the queue (`Explores`).

* `modules_weight`: the modules of a project have fewer directories together than the project, so
  there is fuel enough;
* `loadFrom_ok`, `loadFrom_error`: loading gives all projects, or the error of one of them;
* `explores_files_nodup`: no file belongs to two projects.
-/

namespace Prefill

open Text

theorem Place.below_address (place : Place) (address : Address) :
    (place.below address).address = place.address ++ address := by
  induction address generalizing place with
  | nil => simp [below]
  | cons name address ih =>
    rw [below, List.foldl_cons, ← below, ih]
    simp [child]

theorem Place.below_append (place : Place) (front back : Address) :
    place.below (front ++ back) = (place.below front).below back := by
  simp [below]

/-! ## Working through a queue -/

/-- A queue that is worked through: each element puts others at its end. -/
inductive Explores {α : Type} (next : α → List α) : List α → List α → Prop
  | nil : Explores next [] []
  | cons {a : α} {rest visited : List α} (h : Explores next (rest ++ next a) visited) :
      Explores next (a :: rest) (a :: visited)

namespace Explores

variable {α : Type} {next : α → List α} {pending visited : List α}

theorem subset (h : Explores next pending visited) : ∀ a ∈ pending, a ∈ visited := by
  induction h with
  | nil => simp
  | cons _ ih =>
    intro b member
    obtain rfl | member := List.mem_cons.mp member
    · exact List.mem_cons_self
    · exact List.mem_cons_of_mem _ (ih b (List.mem_append_left _ member))

theorem closed (h : Explores next pending visited) : ∀ a ∈ visited, ∀ b ∈ next a, b ∈ visited := by
  induction h with
  | nil => simp
  | cons rest ih =>
    intro a member b added
    obtain rfl | member := List.mem_cons.mp member
    · exact List.mem_cons_of_mem _ (rest.subset b (List.mem_append_right _ added))
    · exact List.mem_cons_of_mem _ (ih a member b added)

/-- One element leads to another. -/
abbrev Leads (next : α → List α) : α → α → Prop := Relation.ReflTransGen fun a b => b ∈ next a

theorem mem_of_leads (h : Explores next pending visited) {a b : α} (member : a ∈ pending)
    (leads : Leads next a b) : b ∈ visited := by
  induction leads with
  | refl => exact h.subset a member
  | tail _ added ih => exact h.closed _ ih _ added

theorem leads_of_mem (h : Explores next pending visited) {b : α} (member : b ∈ visited) :
    ∃ a ∈ pending, Leads next a b := by
  induction h with
  | nil => cases member
  | @cons a rest visited _ ih =>
    obtain rfl | member := List.mem_cons.mp member
    · exact ⟨b, by simp, .refl⟩
    · obtain ⟨c, here, leads⟩ := ih member
      obtain here | added := List.mem_append.mp here
      · exact ⟨c, by simp [here], leads⟩
      · exact ⟨a, by simp, .head added leads⟩

theorem mem_iff {a : α} (h : Explores next [a] visited) {b : α} : b ∈ visited ↔ Leads next a b := by
  constructor
  · intro member
    obtain ⟨start, queued, leads⟩ := h.leads_of_mem member
    exact List.mem_singleton.mp queued ▸ leads
  · exact h.mem_of_leads (List.mem_singleton_self a)

theorem unique (h : Explores next pending visited) {others : List α}
    (h' : Explores next pending others) : visited = others := by
  induction h generalizing others with
  | nil =>
    cases h'
    rfl
  | cons _ ih =>
    cases h' with
    | cons h' => rw [ih h']

theorem congr {next' : α → List α} (h : Explores next pending visited)
    (same : ∀ a ∈ visited, next a = next' a) : Explores next' pending visited := by
  induction h with
  | nil => exact .nil
  | @cons a rest visited _ ih =>
    refine .cons ?_
    rw [← same a (by simp)]
    exact ih fun b member => same b (List.mem_cons_of_mem _ member)

end Explores

/-! ## The modules and sources of a project -/

/-- Where a Go file was found. -/
def Discovery.Found.file? : Found → Option Address
  | .source address _ => some address
  | .module _ => none

namespace Discovery.Found

variable {f : Found} {address : Address}

theorem module?_eq_some_iff : f.module? = some address ↔ f = .module address := by
  cases f <;> simp [module?]

theorem file?_eq_some_iff : f.file? = some address ↔ ∃ content, f = .source address content := by
  cases f <;> simp [file?]

theorem helper?_eq_some_iff : f.helper? = some address ↔
    ∃ content, f = .source address content ∧ Marker.probe content = true := by
  cases f <;> simp [helper?, and_comm]

theorem source?_eq_some_iff : f.source? = some address ↔
    ∃ content, f = .source address content ∧ Marker.probe content = false := by
  cases f <;> simp [source?, and_comm]

end Discovery.Found

namespace Run

/-- The files of the project at a place. -/
def contents (top : Tree) (config : Config) (place : Place) : Discovery :=
  match config.excluded with
  | .ok excluded => .ofTree top excluded place
  | .error _ => ⟨[], [], []⟩

def modules (top : Tree) (config : Config) (place : Place) : List Place :=
  (contents top config place).submodules

def sources (top : Tree) (config : Config) (place : Place) : List Place :=
  (contents top config place).sources

/-- The Go files of the project at a place, helpers and others. -/
def goFiles (top : Tree) (config : Config) (place : Place) : List Place :=
  match config.excluded with
  | .ok excluded =>
    ((Discovery.found top excluded place).filterMap Discovery.Found.file?).map place.below
  | .error _ => []

/-- What loading a project takes from the files. -/
theorem load_eq_ok {top : Tree} {config : Config} {place : Place} {project : Project}
    (h : (Project.load top config place).result = .ok project) :
    project.root = place ∧ project.sources = sources top config place ∧
      project.submodules = modules top config place := by
  obtain ⟨excluded, files, readable, -, made⟩ := Project.exists_of_load h
  simp only [Project.ofFiles, Journal.bind_eq, Journal.andThen_result_eq_ok_iff] at made
  obtain ⟨index, -, _, -, made⟩ := made
  obtain rfl := Except.ok.inj made
  simp [sources, modules, contents, readable]

/-- A finding of the project at a place. -/
def Finds (top : Tree) (config : Config) (place : Place) (f : Discovery.Found) : Prop :=
  ∃ excluded, config.excluded = .ok excluded ∧ f ∈ Discovery.found top excluded place

section

variable {top : Tree} {config : Config} {place p : Place}

theorem mem_modules : p ∈ modules top config place ↔
    ∃ address, Finds top config place (.module address) ∧ p = place.below address := by
  unfold modules contents Finds
  cases config.excluded with
  | error bad => simp
  | ok excluded =>
    simp [Discovery.ofTree, Discovery.Found.module?_eq_some_iff, eq_comm (b := p)]

theorem mem_sources : p ∈ sources top config place ↔
    ∃ address content, Finds top config place (.source address content) ∧
      Marker.probe content = false ∧ p = place.below address := by
  unfold sources contents Finds
  cases config.excluded with
  | error bad => simp
  | ok excluded =>
    simp only [Discovery.ofTree, List.mem_map, List.mem_filterMap,
      Discovery.Found.source?_eq_some_iff]
    constructor
    · rintro ⟨address, ⟨_, member, content, rfl, plain⟩, rfl⟩
      exact ⟨address, content, ⟨excluded, rfl, member⟩, plain, rfl⟩
    · rintro ⟨address, content, ⟨_, same, member⟩, plain, rfl⟩
      obtain rfl := Except.ok.inj same
      exact ⟨address, ⟨_, member, content, rfl, plain⟩, rfl⟩

theorem mem_goFiles : p ∈ goFiles top config place ↔
    ∃ address content, Finds top config place (.source address content) ∧
      p = place.below address := by
  unfold goFiles Finds
  cases config.excluded with
  | error bad => simp
  | ok excluded =>
    simp only [List.mem_map, List.mem_filterMap, Discovery.Found.file?_eq_some_iff]
    constructor
    · rintro ⟨address, ⟨_, member, content, rfl⟩, rfl⟩
      exact ⟨address, content, ⟨excluded, rfl, member⟩, rfl⟩
    · rintro ⟨address, content, ⟨_, same, member⟩, rfl⟩
      obtain rfl := Except.ok.inj same
      exact ⟨address, ⟨_, member, content, rfl⟩, rfl⟩

theorem mem_helpers {excluded : List Glob} : p ∈ (Discovery.ofTree top excluded place).helpers ↔
    ∃ address content, .source address content ∈ Discovery.found top excluded place ∧
      Marker.probe content = true ∧ p = place.below address := by
  simp only [Discovery.ofTree, mem_sortedBy, List.mem_map, List.mem_filterMap,
    Discovery.Found.helper?_eq_some_iff]
  constructor
  · rintro ⟨address, ⟨_, member, content, rfl, active⟩, rfl⟩
    exact ⟨address, content, member, active, rfl⟩
  · rintro ⟨address, content, member, active, rfl⟩
    exact ⟨address, ⟨_, member, content, rfl, active⟩, rfl⟩

end

theorem helper_append_source (found : List Discovery.Found) :
    (found.filterMap Discovery.Found.helper? ++ found.filterMap Discovery.Found.source?).Perm
      (found.filterMap Discovery.Found.file?) := by
  induction found with
  | nil => exact .nil
  | cons f rest ih =>
    cases f with
    | source address content =>
      have isFile : (Discovery.Found.source address content).file? = some address := rfl
      rw [List.filterMap_cons_some isFile]
      by_cases active : Marker.probe content = true
      · have helper : (Discovery.Found.source address content).helper? = some address := if_pos active
        have source : (Discovery.Found.source address content).source? = none := if_pos active
        rw [List.filterMap_cons_some helper, List.filterMap_cons_none source]
        exact ih.cons address
      · have helper : (Discovery.Found.source address content).helper? = none := if_neg active
        have source : (Discovery.Found.source address content).source? = some address := if_neg active
        rw [List.filterMap_cons_none helper, List.filterMap_cons_some source]
        exact List.perm_middle.trans (ih.cons address)
    | module address =>
      rw [List.filterMap_cons_none rfl, List.filterMap_cons_none rfl, List.filterMap_cons_none rfl]
      exact ih

/-- Every Go file of a project is a helper or a source. -/
theorem helpers_append_sources (top : Tree) (config : Config) (place : Place) :
    ((contents top config place).helpers ++ sources top config place).Perm
      (goFiles top config place) := by
  unfold sources contents goFiles
  cases config.excluded with
  | error bad => exact .nil
  | ok excluded =>
    have parts := (helper_append_source (Discovery.found top excluded place)).map place.below
    rw [List.map_append] at parts
    exact ((sortedBy_perm _ _).append_right _).trans parts

theorem prefix_of_mem_modules {top : Tree} {config : Config} {place p : Place}
    (member : p ∈ modules top config place) : place.address <+: p.address := by
  obtain ⟨address, -, rfl⟩ := mem_modules.mp member
  rw [Place.below_address]
  exact List.prefix_append ..

theorem prefix_of_mem_goFiles {top : Tree} {config : Config} {place p : Place}
    (member : p ∈ goFiles top config place) : place.address <+: p.address := by
  obtain ⟨address, -, -, rfl⟩ := mem_goFiles.mp member
  rw [Place.below_address]
  exact List.prefix_append ..

/-! ## Fuel -/

theorem directoryCountOf_eq (entries : List (Text × Tree)) :
    Tree.directoryCountOf entries = (entries.map fun entry => entry.2.directoryCount).sum := by
  induction entries with
  | nil => simp [Tree.directoryCountOf]
  | cons first rest ih => simp [Tree.directoryCountOf, ih]

/-- How many directories there are at an address and below it. -/
def countAt (top : Tree) (address : Address) : Nat :=
  ((top.at? address).map Tree.directoryCount).getD 0

/-- How many directories there are in the modules that were found. -/
def foundCount (top : Tree) (base : Address) (found : List Discovery.Found) : Nat :=
  ((found.filterMap Discovery.Found.module?).map fun address => countAt top (base ++ address)).sum

theorem foundCount_flatMap {α : Type} (top : Tree) (base : Address) (list : List α)
    (f : α → List Discovery.Found) :
    foundCount top base (list.flatMap f) = (list.map fun a => foundCount top base (f a)).sum := by
  induction list with
  | nil => simp [foundCount]
  | cons a rest ih =>
    rw [List.flatMap_cons, List.map_cons, List.sum_cons, ← ih]
    simp [foundCount]

/-- The modules below a directory have no more directories than there are below it. -/
theorem foundCount_walkEntries {top tree : Tree} (formed : tree.WellFormed)
    (scope : Discovery.Scope) {base address : Address} (here : top.at? (base ++ address) = some tree) :
    foundCount top base (Discovery.inOrder (Discovery.walkEntries scope address tree.entries)) ≤
      Tree.directoryCountOf tree.entries := by
  induction formed generalizing address with
  | file | link => exact Nat.zero_le _
  | @directory entries distinct inner ih =>
    have perm := sortedBy_perm (fun (a b : Text × List Discovery.Found) => notAfter a.1 b.1)
      (Discovery.walkEntries scope address entries)
    have total := (perm.map fun part => foundCount top base part.2).sum_eq
    rw [Discovery.inOrder, foundCount_flatMap]
    simp only [Tree.entries]
    rw [total, Discovery.walkEntries_eq, List.map_map, directoryCountOf_eq]
    refine List.sum_le_sum ?_
    rintro ⟨name, child⟩ member
    have there : top.at? (base ++ (address ++ [name])) = some child := by
      rw [← List.append_assoc, Tree.at?_append, here]
      simp [Tree.at?, (Tree.entry?_eq_some_iff distinct).mpr member]
    have below := ih _ member there
    cases child with
    | file content =>
      simp only [Function.comp_apply, Discovery.walk]
      split <;> exact Nat.zero_le _
    | link target => exact Nat.zero_le _
    | directory entries =>
      simp only [Function.comp_apply, Discovery.walk]
      split
      · exact Nat.zero_le _
      · split
        · simp [foundCount, Discovery.Found.module?, countAt, there]
        · rw [Tree.directoryCount]
          exact Nat.le_add_left_of_le below

/-- **Modules are smaller.** The modules of a project have fewer directories together than the
project has. -/
theorem modules_weight {top : Tree} (formed : top.WellFormed) (config : Config) {place : Place}
    {tree : Tree} (here : top.at? place.address = some tree) (isDirectory : tree.isDirectory = true) :
    ((modules top config place).map fun p => countAt top p.address).sum <
      countAt top place.address := by
  have positive : Tree.directoryCountOf tree.entries < countAt top place.address := by
    cases tree with
    | file | link => cases isDirectory
    | directory entries =>
      simp only [countAt, here, Option.map_some, Option.getD_some, Tree.directoryCount, Tree.entries]
      omega
  refine Nat.lt_of_le_of_lt ?_ positive
  unfold modules contents
  cases config.excluded with
  | error bad => exact Nat.zero_le _
  | ok excluded =>
    have bound : foundCount top place.address (Discovery.inOrder
        (Discovery.walkEntries (Discovery.scope top excluded place) [] tree.entries)) ≤ _ :=
      foundCount_walkEntries (formed.at? here) _ (by simpa using here)
    simpa [Discovery.ofTree, Discovery.found, here, foundCount, Function.comp_def,
      Place.below_address] using bound

/-- The modules of a project are directories. -/
theorem isDirectory_of_mem_modules {top : Tree} (formed : top.WellFormed) {config : Config}
    {place p : Place} (member : p ∈ modules top config place) :
    ∃ tree, top.at? p.address = some tree ∧ tree.isDirectory = true := by
  obtain ⟨address, ⟨excluded, -, found⟩, rfl⟩ := mem_modules.mp member
  obtain ⟨entry, -, there, stops, -⟩ := (Discovery.mem_found formed).mp found
  exact ⟨entry, by rw [Place.below_address]; exact there, stops.1⟩

/-! ## Loading -/

/-- The places of a queue are directories, and there is fuel for all that lies below them. -/
structure Ready (top : Tree) (fuel : Nat) (pending : List Place) : Prop where
  directories : ∀ p ∈ pending, ∃ tree, top.at? p.address = some tree ∧ tree.isDirectory = true
  enough : (pending.map fun p => countAt top p.address).sum ≤ fuel

theorem Ready.next {top : Tree} (formed : top.WellFormed) (config : Config) {fuel : Nat}
    {place : Place} {rest : List Place} (ready : Ready top fuel (place :: rest)) :
    ∃ less, fuel = less + 1 ∧ Ready top less (rest ++ modules top config place) := by
  obtain ⟨tree, here, isDirectory⟩ := ready.directories place (by simp)
  have smaller := modules_weight formed config here isDirectory
  have enough := ready.enough
  rw [List.map_cons, List.sum_cons] at enough
  refine ⟨fuel - 1, by omega, ?_, ?_⟩
  · intro p member
    obtain member | member := List.mem_append.mp member
    · exact ready.directories p (List.mem_cons_of_mem _ member)
    · exact isDirectory_of_mem_modules formed member
  · rw [List.map_append, List.sum_append]
    omega

/-- The project at the place of a queue loads, and then those behind it. -/
theorem loadFrom_cons {top : Tree} {config : Config} {fuel : Nat} {place : Place}
    {rest : List Place} :
    loadFrom top config (fuel + 1) (place :: rest) =
      (Project.load top config place).andThen fun project =>
        (loadFrom top config fuel (rest ++ project.submodules)).andThen fun more =>
          .done (project :: more) := rfl

/-- **Loading all projects.** Where loading succeeds, the queue was worked through, every project in
it has been loaded, and the events are those of the projects. -/
theorem loadFrom_ok {top : Tree} (formed : top.WellFormed) {config : Config} {fuel : Nat}
    {pending : List Place} (ready : Ready top fuel pending) {projects : List Project}
    (h : (loadFrom top config fuel pending).result = .ok projects) :
    ∃ visited, Explores (modules top config) pending visited ∧
      List.Forall₂ (fun place project => (Project.load top config place).result = .ok project)
        visited projects ∧
      (loadFrom top config fuel pending).events =
        visited.flatMap fun place => (Project.load top config place).events := by
  induction fuel generalizing pending projects with
  | zero =>
    cases pending with
    | nil =>
      obtain rfl : [] = projects := by simpa [loadFrom, Journal.done] using h
      exact ⟨[], .nil, .nil, rfl⟩
    | cons place rest =>
      obtain ⟨less, impossible, -⟩ := ready.next formed config
      cases impossible
  | succ fuel ih =>
    cases pending with
    | nil =>
      obtain rfl : [] = projects := by simpa [loadFrom, Journal.done] using h
      exact ⟨[], .nil, .nil, rfl⟩
    | cons place rest =>
      obtain ⟨less, same, ready⟩ := ready.next formed config
      obtain rfl := Nat.succ.inj same
      rw [loadFrom_cons, Journal.andThen_result_eq_ok_iff] at h
      obtain ⟨project, loaded, h⟩ := h
      obtain ⟨-, -, nested⟩ := load_eq_ok loaded
      rw [Journal.andThen_result_eq_ok_iff, nested] at h
      obtain ⟨more, others, made⟩ := h
      obtain rfl := Except.ok.inj made
      obtain ⟨visited, explores, all, events⟩ := ih ready others
      refine ⟨place :: visited, .cons explores, .cons loaded all, ?_⟩
      rw [loadFrom_cons]
      simp [Journal.andThen, loaded, nested, others, events, Journal.done]

/-- **An error of loading** is the error of one of the projects. -/
theorem loadFrom_error {top : Tree} {config : Config} {fuel : Nat} {pending : List Place}
    {e : LoadError} (h : (loadFrom top config fuel pending).result = .error e) :
    ∃ start ∈ pending, ∃ place, Explores.Leads (modules top config) start place ∧
      (Project.load top config place).result = .error e := by
  induction fuel generalizing pending with
  | zero => cases h
  | succ fuel ih =>
    cases pending with
    | nil => cases h
    | cons place rest =>
      rw [loadFrom_cons] at h
      cases loaded : (Project.load top config place).result with
      | error e' =>
        obtain rfl : e' = e := by simpa [Journal.andThen, loaded] using h
        exact ⟨place, by simp, place, .refl, loaded⟩
      | ok project =>
        obtain ⟨-, -, nested⟩ := load_eq_ok loaded
        have failed : (loadFrom top config fuel (rest ++ modules top config place)).result =
            .error e := by
          cases others : (loadFrom top config fuel (rest ++ modules top config place)).result with
          | ok more => simp [Journal.andThen, loaded, nested, others, Journal.done] at h
          | error e' =>
            simpa [Journal.andThen, loaded, nested, others, Journal.done] using h
        obtain ⟨start, member, target, leads, fails⟩ := ih failed
        obtain member | added := List.mem_append.mp member
        · exact ⟨start, by simp [member], target, leads, fails⟩
        · exact ⟨place, by simp, target, .head added leads, fails⟩

/-! ## Every file has one project -/

/-- Neither of two places lies below the other. -/
def Apart (p q : Place) : Prop := ¬ p.address <+: q.address ∧ ¬ q.address <+: p.address

theorem Apart.symm {p q : Place} (h : Apart p q) : Apart q p := And.symm h

/-- What lies below one of two places that are apart does not lie below the other. -/
theorem Apart.not_below {p q : Place} (h : Apart p q) {address : Address}
    (below : p.address <+: address) : ¬ q.address <+: address := by
  intro other
  obtain first | second := List.prefix_or_prefix_of_prefix below other
  · exact h.1 first
  · exact h.2 second

theorem Apart.of_below {p q r : Place} (h : Apart p q) (below : p.address <+: r.address) :
    Apart r q :=
  ⟨fun deeper => h.1 (below.trans deeper), h.not_below below⟩

section

variable {top : Tree} (formed : top.WellFormed) {config : Config}

include formed

/-- A finding of a project does not lie below another. -/
theorem not_prefix_of_finds {place : Place} {f g : Discovery.Found}
    (first : Finds top config place f) (second : Finds top config place g) (differ : f ≠ g) :
    ¬ (place.below f.address).address <+: (place.below g.address).address := by
  obtain ⟨excluded, patterns, inFirst⟩ := first
  obtain ⟨_, same, inSecond⟩ := second
  obtain rfl := Except.ok.inj (patterns.symm.trans same)
  simpa [Place.below_address] using
    Discovery.not_prefix_of_mem_found formed inFirst inSecond differ

theorem not_prefix_of_mem {place p q : Place} (isModule : p ∈ modules top config place)
    (isFile : q ∈ goFiles top config place) : ¬ p.address <+: q.address := by
  obtain ⟨_, first, rfl⟩ := mem_modules.mp isModule
  obtain ⟨_, _, second, rfl⟩ := mem_goFiles.mp isFile
  exact not_prefix_of_finds formed first second nofun

omit formed in
/-- Findings of one kind come in the order of the walk. -/
theorem pairwise_places {excluded : List Glob} {place : Place}
    (ordered : (Discovery.found top excluded place).Pairwise
      fun f g => Discovery.Before f.address g.address)
    (select : Discovery.Found → Option Address)
    (kept : ∀ f address, select f = some address → f.address = address) :
    (((Discovery.found top excluded place).filterMap select).map place.below).Pairwise Apart := by
  rw [List.pairwise_map, List.pairwise_filterMap]
  refine ordered.imp ?_
  intro f g before a first b second
  obtain rfl := kept f a first
  obtain rfl := kept g b second
  simpa [Apart, Place.below_address] using before.incomparable

theorem modules_apart (place : Place) : (modules top config place).Pairwise Apart := by
  unfold modules contents
  cases config.excluded with
  | error bad => exact .nil
  | ok excluded =>
    refine pairwise_places (Discovery.found_ordered formed excluded place) _ ?_
    intro f address selected
    rw [Discovery.Found.module?_eq_some_iff.mp selected]
    rfl

theorem goFiles_apart (place : Place) : (goFiles top config place).Pairwise Apart := by
  unfold goFiles
  cases config.excluded with
  | error bad => exact .nil
  | ok excluded =>
    refine pairwise_places (Discovery.found_ordered formed excluded place) _ ?_
    intro f address selected
    obtain ⟨content, rfl⟩ := Discovery.Found.file?_eq_some_iff.mp selected
    rfl

/-- Places that are apart stay so when one of them makes room for its modules. -/
theorem apart_next {place : Place} {rest : List Place} (apart : (place :: rest).Pairwise Apart) :
    (rest ++ modules top config place).Pairwise Apart := by
  obtain ⟨first, others⟩ := List.pairwise_cons.mp apart
  refine List.pairwise_append.mpr ⟨others, modules_apart formed place, ?_⟩
  intro q member m isModule
  exact ((first q member).of_below (prefix_of_mem_modules isModule)).symm

/-- **Every file has one project.** No address is among the files of two projects, or twice among
those of one. -/
theorem explores_files_nodup {pending visited : List Place}
    (explores : Explores (modules top config) pending visited) (apart : pending.Pairwise Apart) :
    (visited.flatMap fun p => (goFiles top config p).map (·.address)).Nodup ∧
      ∀ p ∈ visited, ∃ q ∈ pending, q.address <+: p.address := by
  induction explores with
  | nil => simp
  | @cons place rest visited _ ih =>
    obtain ⟨nodup, below⟩ := ih (apart_next formed apart)
    obtain ⟨first, -⟩ := List.pairwise_cons.mp apart
    refine ⟨?_, ?_⟩
    · rw [List.flatMap_cons]
      refine List.nodup_append.mpr ⟨?_, nodup, ?_⟩
      · refine List.pairwise_map.mpr ((goFiles_apart formed place).imp ?_)
        intro p q away same
        exact away.1 (same ▸ List.prefix_rfl)
      · rintro address here other there rfl
        obtain ⟨file, isFile, rfl⟩ := List.mem_map.mp here
        obtain ⟨p, member, listed⟩ := List.mem_flatMap.mp there
        obtain ⟨again, isFileToo, same⟩ := List.mem_map.mp listed
        have inside : p.address <+: file.address := same ▸ prefix_of_mem_goFiles isFileToo
        -- The other project lies below a place of the queue, and the file below that.
        obtain ⟨q, queued, above⟩ := below p member
        obtain queued | isModule := List.mem_append.mp queued
        · exact (first q queued).not_below (prefix_of_mem_goFiles isFile) (above.trans inside)
        · exact not_prefix_of_mem formed isModule isFile (above.trans inside)
    · intro p member
      obtain rfl | member := List.mem_cons.mp member
      · exact ⟨p, by simp, List.prefix_rfl⟩
      · obtain ⟨q, queued, above⟩ := below p member
        obtain queued | isModule := List.mem_append.mp queued
        · exact ⟨q, by simp [queued], above⟩
        · exact ⟨place, by simp, (prefix_of_mem_modules isModule).trans above⟩

theorem explores_sources_nodup {pending visited : List Place}
    (explores : Explores (modules top config) pending visited) (apart : pending.Pairwise Apart) :
    (visited.flatMap fun p => (sources top config p).map (·.address)).Nodup := by
  have all := (explores_files_nodup formed explores apart).1
  have parts := List.Perm.flatMap_left visited fun p _ =>
    (helpers_append_sources top config p).map Place.address
  refine (parts.nodup_iff.mpr all).sublist (List.Sublist.flatMap_right visited fun p _ => ?_)
  exact (List.sublist_append_right _ _).map _

end

end Run

end Prefill
