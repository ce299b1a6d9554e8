import Prefill.Proofs.Exploring

/-!
The paths of files. In a tree whose entries have the names that a file system allows, the path of a
place has one component for each name below the root (`components_below`), so different files have
different paths. The helper files of a project are those that the walk has found, each read once
(`helpers_of_load`).
-/

namespace Prefill

open Text

namespace Text

/-- A mark ends a piece. -/
theorem pieces_append_mark (mark : Char) (front back : Text) :
    pieces mark (front ++ mark :: back) = pieces mark front ++ pieces mark back := by
  induction front with
  | nil => simp [pieces]
  | cons c front ih =>
    rw [List.cons_append, pieces, pieces, ih]
    split
    · rfl
    · obtain ⟨piece, more, cut⟩ := List.exists_cons_of_ne_nil (pieces_ne_nil mark front)
      simp [cut]

theorem pieces_of_notMem {mark : Char} {text : Text} (plain : mark ∉ text) :
    pieces mark text = [text] := by
  induction text with
  | nil => rfl
  | cons c rest ih =>
    have differ : c ≠ mark := fun same => plain (by simp [same])
    rw [pieces, if_neg differ, ih fun member => plain (List.mem_cons_of_mem _ member)]

end Text

namespace Path

/-- A name that an entry of a directory can have. -/
structure IsName (name : Text) : Prop where
  noSlash : '/' ∉ name
  component : component? name = some (.normal name)

/-- The steps that the pieces of a path stand for. -/
def steps : List Text → List Component
  | [] => []
  | first :: rest =>
    let rest := rest.filterMap component?
    if first = [] then .root :: rest
    else if first = ['.'] then .current :: rest
    else (component? first).toList ++ rest

theorem components_eq {p : Path} (someText : p.text ≠ []) :
    p.components = steps (pieces '/' p.text) := by
  unfold components steps
  split <;> simp_all

theorem steps_append {front : List Text} (someFront : front ≠ []) (back : List Text) :
    steps (front ++ back) = steps front ++ back.filterMap component? := by
  obtain ⟨first, rest, rfl⟩ := List.exists_cons_of_ne_nil someFront
  rw [List.cons_append, steps, steps]
  simp only [List.filterMap_append]
  split
  · simp
  · split <;> simp

/-- **A name below a path** is one more component. -/
theorem components_join (p : Path) {name : Text} (valid : IsName name) :
    (p.join name).components = p.components ++ [.normal name] := by
  have someName : name ≠ [] := by
    rintro rfl
    exact nomatch valid.component
  have notPoint : name ≠ ['.'] := by
    rintro rfl
    exact nomatch valid.component
  have alone : pieces '/' name = [name] := pieces_of_notMem valid.noSlash
  have last : [name].filterMap component? = [.normal name] := by simp [valid.component]
  unfold join
  split
  · rename_i empty
    obtain rfl : p = ⟨[]⟩ := by
      cases p
      simpa using empty
    rw [components_eq someName, alone]
    simp [steps, someName, notPoint, valid.component, components, pieces]
  · rename_i slash
    obtain ⟨front, cut⟩ : ∃ front, p.text = front ++ ['/'] := List.getLast?_eq_some_iff.mp slash
    have someText : p.text ≠ [] := by simp [cut]
    rw [components_eq (by simp [cut]), components_eq someText, cut]
    rw [List.append_assoc, List.singleton_append, pieces_append_mark, pieces_append_mark, alone,
      steps_append (pieces_ne_nil _ _), steps_append (pieces_ne_nil _ _), last]
    simp [pieces, component?]
  · rename_i c notSlash isLast
    have someText : p.text ≠ [] := by
      intro empty
      simp [empty] at isLast
    rw [components_eq (by simp), components_eq someText]
    rw [pieces_append_mark, alone, steps_append (pieces_ne_nil _ _), last]

end Path

/-- Every entry of a tree has a name that a file system allows. -/
def Tree.Plain (top : Tree) : Prop :=
  ∀ address entry, top.at? address = some entry → ∀ name ∈ address, Path.IsName name

theorem Tree.Plain.file (content : Utf8.Bytes) : (Tree.file content).Plain := by
  intro address entry here
  cases address with
  | nil => exact nofun
  | cons => cases here

theorem Tree.Plain.link (target : Text) : (Tree.link target).Plain := by
  intro address entry here
  cases address with
  | nil => exact nofun
  | cons => cases here

theorem Tree.Plain.directory {entries : List (Text × Tree)}
    (names : ∀ entry ∈ entries, Path.IsName entry.1) (inner : ∀ entry ∈ entries, entry.2.Plain) :
    (Tree.directory entries).Plain := by
  intro address entry here
  cases address with
  | nil => exact nofun
  | cons label address =>
    obtain ⟨child, found, below⟩ := Option.bind_eq_some_iff.mp here
    have member := Tree.entry?_eq_some_mem found
    intro name inside
    obtain rfl | inside := List.mem_cons.mp inside
    · exact names _ member
    · exact inner _ member address entry below name inside

/-- **The path of a place** has one component for each name below the root. -/
theorem Place.components_below (place : Place) {address : Address}
    (valid : ∀ name ∈ address, Path.IsName name) :
    (place.below address).path.components =
      place.path.components ++ address.map Path.Component.normal := by
  induction address generalizing place with
  | nil => simp [below]
  | cons name address ih =>
    have later := ih (place.child name) fun other member => valid other (List.mem_cons_of_mem _ member)
    rw [below, List.foldl_cons, ← below, later, child, Path.components_join _ (valid name (by simp))]
    simp

theorem Place.address_eq_of_same {place : Place} {address other : Address}
    (valid : ∀ name ∈ address, Path.IsName name) (valid' : ∀ name ∈ other, Path.IsName name)
    (same : (place.below address).path.same (place.below other).path = true) : address = other := by
  have components : (place.below address).path.components = (place.below other).path.components := by
    simpa [Path.same] using same
  rw [place.components_below valid, place.components_below valid'] at components
  refine List.map_injective_iff.mpr ?_ (List.append_cancel_left components)
  intro a b normal
  exact Path.Component.normal.inj normal

/-! ## Helper files of a project -/

namespace Project

variable {top : Tree} {config : Config} {root : Place} {project : Project}

/-- **The helper files of a project** are those that the walk has found, each read once. -/
theorem helpers_of_load (h : (load top config root).result = .ok project) :
    ∃ excluded files, config.excluded = .ok excluded ∧ project.helpers.Perm files ∧
      List.Forall₂ (fun place file => readHelper top root place = .ok file)
        (Discovery.ofTree top excluded root).helpers files := by
  obtain ⟨excluded, files, readable, read, made⟩ := exists_of_load h
  simp only [ofFiles, Journal.bind_eq, Journal.andThen_result_eq_ok_iff] at made
  obtain ⟨index, -, _, -, made⟩ := made
  obtain rfl := Except.ok.inj made
  exact ⟨excluded, files, readable, sortedBy_perm _ _, forall₂_of_mapM read⟩

theorem mem_of_read {places : List Place} {files : List HelperFile}
    (read : List.Forall₂ (fun place file => readHelper top root place = .ok file) places files)
    {file : HelperFile} :
    file ∈ files ↔ ∃ place ∈ places, readHelper top root place = .ok file := by
  constructor
  · exact exists_first read
  · rintro ⟨place, listed, isFile⟩
    obtain ⟨other, member, isOther⟩ := exists_second read listed
    rw [isFile] at isOther
    exact Except.ok.inj isOther ▸ member

theorem mem_helpers_of_load (h : (load top config root).result = .ok project) :
    ∃ excluded, config.excluded = .ok excluded ∧ ∀ file, file ∈ project.helpers ↔
      ∃ place ∈ (Discovery.ofTree top excluded root).helpers,
        readHelper top root place = .ok file := by
  obtain ⟨excluded, files, patterns, perm, read⟩ := helpers_of_load h
  refine ⟨excluded, patterns, ?_⟩
  intro file
  rw [perm.mem_iff, mem_of_read read]

theorem paths_of_read {places : List Place} {files : List HelperFile}
    (read : List.Forall₂ (fun place file => readHelper top root place = .ok file) places files) :
    files.map (·.path) = places.map (·.path) := by
  induction read with
  | nil => rfl
  | cons first _ ih => simp [path_of_readHelper first, ih]

/-- What stands below the root of a project has names that a file system allows. -/
theorem isName_of_found (formed : top.WellFormed) (plain : top.Plain) {excluded : List Glob}
    {f : Discovery.Found} (member : f ∈ Discovery.found top excluded root) :
    ∀ name ∈ f.address, Path.IsName name := by
  obtain ⟨entry, -, here, -⟩ := (Discovery.mem_found formed).mp member
  intro name inside
  exact plain _ entry here name (List.mem_append_right _ inside)

/-- Two findings of a project have different paths. -/
theorem places_apart (formed : top.WellFormed) (plain : top.Plain) (excluded : List Glob)
    (root : Place) (select : Discovery.Found → Option Address)
    (kept : ∀ f address, select f = some address → f.address = address) :
    (((Discovery.found top excluded root).filterMap select).map root.below).Pairwise
      fun p q => p.path.same q.path = false := by
  rw [List.pairwise_map, List.pairwise_filterMap]
  refine (Discovery.found_ordered formed excluded root).imp_of_mem ?_
  intro f g inFirst inSecond before a first b second
  obtain rfl := kept f a first
  obtain rfl := kept g b second
  rw [Bool.eq_false_iff]
  intro same
  have address := Place.address_eq_of_same (isName_of_found formed plain inFirst)
    (isName_of_found formed plain inSecond) same
  exact before.incomparable.1 (address ▸ List.prefix_rfl)

theorem helper?_address (f : Discovery.Found) (address : Address)
    (h : f.helper? = some address) : f.address = address := by
  obtain ⟨content, rfl, -⟩ := Discovery.Found.helper?_eq_some_iff.mp h
  rfl

/-- **The helper files of a project** have different paths. -/
theorem helpers_apart (formed : top.WellFormed) (plain : top.Plain)
    (h : (load top config root).result = .ok project) :
    project.helpers.Pairwise fun a b => a.path.same b.path = false := by
  obtain ⟨excluded, files, -, perm, read⟩ := helpers_of_load h
  have symm : ∀ {p q : Path}, p.same q = false → q.same p = false := by
    intro p q differ
    simpa [Path.same, eq_comm] using differ
  have places : (Discovery.ofTree top excluded root).helpers.Pairwise
      fun p q => p.path.same q.path = false := by
    refine ((sortedBy_perm _ _).pairwise_iff symm).mpr ?_
    exact places_apart formed plain excluded root _ helper?_address
  have paths : (files.map (·.path)).Pairwise fun p q => p.same q = false := by
    rw [paths_of_read read]
    exact List.pairwise_map.mpr places
  exact (perm.pairwise_iff symm).mpr (List.pairwise_map.mp paths)

end Project

end Prefill
