import Mathlib.Data.List.Nodup
import Prefill.Run

/-!
Trees of files. In a well-formed tree the entries of a directory have different names, so an address
leads to one entry.

* `at?_put`, `file?_put`: what stands where after something was put in;
* `skeleton_put`: putting a text into a file changes nothing but its content;
* `mem_files`: the list of files has what the addresses lead to.
-/

namespace Prefill.Tree

open Text

/-- The entries of a directory have different names. -/
inductive WellFormed : Tree → Prop
  | file (content : Utf8.Bytes) : WellFormed (.file content)
  | link (target : Text) : WellFormed (.link target)
  | directory {entries : List (Text × Tree)} (distinct : (entries.map (·.1)).Nodup)
      (inner : ∀ entry ∈ entries, WellFormed entry.2) : WellFormed (.directory entries)

/-! ## Addresses -/

theorem entry?_directory {entries : List (Text × Tree)} {name : Text} :
    entry? (directory entries) name = (entries.find? fun entry => entry.1 = name).map (·.2) := rfl

/-- The first entry of a name is the only one. -/
theorem entry?_eq_some_iff {entries : List (Text × Tree)} (distinct : (entries.map (·.1)).Nodup)
    {name : Text} {child : Tree} :
    entry? (directory entries) name = some child ↔ (name, child) ∈ entries := by
  rw [entry?_directory, Option.map_eq_some_iff]
  constructor
  · rintro ⟨⟨found, tree⟩, here, rfl⟩
    obtain rfl : found = name := by simpa using List.find?_some here
    exact List.mem_of_find?_eq_some here
  · intro member
    obtain ⟨entry, here⟩ : ∃ entry, entries.find? (fun entry => entry.1 = name) = some entry :=
      Option.isSome_iff_exists.mp (List.find?_isSome.mpr ⟨_, member, by simp⟩)
    have named : entry.1 = name := by simpa using List.find?_some here
    have same := List.inj_on_of_nodup_map distinct (List.mem_of_find?_eq_some here) member named
    exact ⟨entry, here, by rw [same]⟩

theorem entry?_eq_some_mem {tree child : Tree} {name : Text} (h : tree.entry? name = some child) :
    (name, child) ∈ tree.entries := by
  obtain ⟨⟨found, tree⟩, here, rfl⟩ := Option.map_eq_some_iff.mp h
  obtain rfl : found = name := by simpa using List.find?_some here
  exact List.mem_of_find?_eq_some here

theorem WellFormed.entries {tree : Tree} (formed : tree.WellFormed) :
    (tree.entries.map (·.1)).Nodup ∧ ∀ entry ∈ tree.entries, entry.2.WellFormed := by
  cases formed with
  | file | link => simp [Tree.entries]
  | directory distinct inner => exact ⟨distinct, inner⟩

theorem at?_append (tree : Tree) (front back : Address) :
    tree.at? (front ++ back) = (tree.at? front).bind fun child => child.at? back := by
  induction front generalizing tree with
  | nil => rfl
  | cons name front ih =>
    rw [List.cons_append, at?, at?]
    cases tree.entry? name with
    | none => rfl
    | some child => exact ih child

theorem WellFormed.at? {tree child : Tree} (formed : tree.WellFormed) {address : Address}
    (h : tree.at? address = some child) : child.WellFormed := by
  induction address generalizing tree with
  | nil => exact Option.some.inj h ▸ formed
  | cons name address ih =>
    obtain ⟨inner, here, below⟩ := Option.bind_eq_some_iff.mp h
    exact ih (formed.entries.2 _ (entry?_eq_some_mem here)) below

/-- What has entries is a directory. -/
theorem isDirectory_of_entry? {tree child : Tree} {name : Text}
    (h : tree.entry? name = some child) : tree.isDirectory = true := by
  cases tree with
  | file | link => simp [ entry?, Tree.entries] at h
  | directory entries => rfl

/-- Above every entry there are directories. -/
theorem isDirectory_of_at?_append {top : Tree} {front back : Address} (someBelow : back ≠ [])
    {child : Tree} (h : top.at? (front ++ back) = some child) :
    ∃ above, top.at? front = some above ∧ above.isDirectory = true := by
  rw [at?_append] at h
  obtain ⟨above, here, below⟩ := Option.bind_eq_some_iff.mp h
  obtain ⟨name, back, rfl⟩ := List.exists_cons_of_ne_nil someBelow
  obtain ⟨inner, found, -⟩ := Option.bind_eq_some_iff.mp below
  exact ⟨above, here, isDirectory_of_entry? found⟩

theorem file?_eq_some_iff {tree : Tree} {address : Address} {content : Utf8.Bytes} :
    tree.file? address = some content ↔ tree.at? address = some (.file content) := by
  unfold file?
  split
  · rename_i found
    simp [found]
  · rename_i other
    constructor
    · intro h
      cases h
    · intro h
      exact absurd h (other content)

/-! ## Putting something in -/

theorem entry?_cons {name other : Text} {child : Tree} {rest : List (Text × Tree)} :
    entry? (directory ((name, child) :: rest)) other =
      if name = other then some child else entry? (directory rest) other := by
  rw [entry?_directory, entry?_directory, List.find?_cons]
  by_cases same : name = other <;> simp [same]

/-- Entries with those of a name replaced. -/
theorem entry?_map {entries : List (Text × Tree)} {name other : Text} {child : Tree} :
    entry? (directory (entries.map fun entry => if entry.1 = name then (name, child) else entry))
        other =
      if name = other then ( entry? (directory entries) name).map fun _ => child
      else entry? (directory entries) other := by
  induction entries with
  | nil => simp [entry?_directory]
  | cons first rest ih =>
    obtain ⟨label, entry⟩ := first
    rw [List.map_cons]
    by_cases here : label = name
    · subst here
      by_cases same : label = other <;> simp [entry?_cons, same, ih]
    · by_cases same : name = other
      · subst same
        simp [entry?_cons, here, ih]
      · simp [entry?_cons, here, same, ih]

theorem entry?_append {entries : List (Text × Tree)} {name other : Text} {child : Tree} :
    entry? (directory (entries ++ [(name, child)])) other =
      ( entry? (directory entries) other).or (if name = other then some child else none) := by
  induction entries with
  | nil => simp [entry?_directory]
  | cons first rest ih =>
    obtain ⟨label, entry⟩ := first
    rw [List.cons_append, entry?_cons, entry?_cons, ih]
    split <;> rfl

theorem entry?_setEntry {entries : List (Text × Tree)} {name other : Text} {child : Tree} :
    entry? (directory (setEntry entries name child)) other =
      if name = other then some child else entry? (directory entries) other := by
  have present : (entries.any fun entry => entry.1 = name) =
      ( entry? (directory entries) name).isSome := by
    rw [entry?_directory, Option.isSome_map, Bool.eq_iff_iff, List.any_eq_true, List.find?_isSome]
  unfold setEntry
  split
  · rename_i found
    obtain ⟨old, here⟩ := Option.isSome_iff_exists.mp (present ▸ found)
    rw [entry?_map, here]
    rfl
  · rename_i absent
    have none : entry? (directory entries) name = none := by simpa [present] using absent
    rw [entry?_append]
    by_cases same : name = other
    · subst same
      simp [none]
    · simp [same]

theorem WellFormed.put {tree child : Tree} (formed : tree.WellFormed) (inner : child.WellFormed)
    (address : Address) : (tree.put address child).WellFormed := by
  induction address generalizing tree with
  | nil => exact inner
  | cons name address ih =>
    obtain ⟨distinct, below⟩ := formed.entries
    have next : (((tree.entry? name).getD empty).put address child).WellFormed := by
      apply ih
      cases found : tree.entry? name with
      | none => exact .directory .nil nofun
      | some entry => exact below _ (entry?_eq_some_mem found)
    rw [Tree.put, setEntry]
    split
    · refine .directory ?_ ?_
      · rw [List.map_map]
        refine Eq.mpr (congrArg List.Nodup (List.map_congr_left fun entry _ => ?_)) distinct
        by_cases named : entry.1 = name <;> simp [named]
      · intro entry member
        obtain ⟨old, here, rfl⟩ := List.mem_map.mp member
        split
        · exact next
        · exact below old here
    · rename_i absent
      refine .directory ?_ ?_
      · rw [List.map_append, List.nodup_append]
        refine ⟨distinct, List.nodup_singleton _, ?_⟩
        rintro label member other last rfl
        obtain ⟨entry, here, rfl⟩ := List.mem_map.mp member
        exact absent (List.any_eq_true.mpr ⟨entry, here, by simpa using last⟩)
      · intro entry member
        obtain here | last := List.mem_append.mp member
        · exact below entry here
        · exact List.mem_singleton.mp last ▸ next

/-! ## What stands at an address -/

/-- An entry without what lies below it. -/
def shallow : Tree → Tree
  | .directory _ => .directory []
  | entry => entry

/-- What stands at an address, without what lies below it. -/
def look (tree : Tree) (address : Address) : Option Tree := (tree.at? address).map shallow

theorem look_cons {tree : Tree} {name : Text} {address : Address} :
    tree.look (name :: address) = (tree.entry? name).bind fun child => child.look address := by
  rw [look, at?]
  cases tree.entry? name <;> rfl

theorem look_eq_file_iff {tree : Tree} {address : Address} {content : Utf8.Bytes} :
    tree.look address = some (.file content) ↔ tree.file? address = some content := by
  rw [look, file?_eq_some_iff, Option.map_eq_some_iff]
  constructor
  · rintro ⟨entry, found, same⟩
    cases entry with
    | file => exact same ▸ found
    | link | directory => cases same
  · exact fun found => ⟨_, found, rfl⟩

/-- **Writing a file** changes what stands at its address, and nothing else. -/
theorem look_put {tree : Tree} {address : Address} {old : Utf8.Bytes}
    (h : tree.file? address = some old) (new : Utf8.Bytes) (other : Address) :
    (tree.put address (.file new)).look other =
      if other = address then some (.file new) else tree.look other := by
  induction address generalizing tree other with
  | nil =>
    obtain rfl : tree = .file old := by simpa [at?] using file?_eq_some_iff.mp h
    cases other with
    | nil => rfl
    | cons label other => rfl
  | cons name address ih =>
    obtain ⟨inner, found, below⟩ := Option.bind_eq_some_iff.mp (file?_eq_some_iff.mp h)
    cases tree with
    | file | link => simp [ entry?, Tree.entries] at found
    | directory entries =>
      cases other with
      | nil => rfl
      | cons label other =>
        rw [put, look_cons, look_cons, entry?_setEntry, found]
        by_cases same : name = label
        · subst same
          simpa [found] using ih (file?_eq_some_iff.mpr below) other
        · simp [same, Ne.symm same, Tree.entries]

theorem file?_put {tree : Tree} {address : Address} {old : Utf8.Bytes}
    (h : tree.file? address = some old) (new : Utf8.Bytes) (other : Address) :
    (tree.put address (.file new)).file? other =
      if other = address then some new else tree.file? other := by
  refine Option.ext fun content => ?_
  rw [← look_eq_file_iff, look_put h]
  split
  · simp
  · exact look_eq_file_iff

/-- What an entry is, whatever the content of a file. -/
inductive Kind where
  | file
  | link (target : Text)
  | directory
  deriving DecidableEq, Repr

def kind : Tree → Kind
  | .file _ => .file
  | .link target => .link target
  | .directory _ => .directory

theorem kind_shallow (tree : Tree) : tree.shallow.kind = tree.kind := by
  cases tree <;> rfl

theorem map_kind_look (tree : Tree) (address : Address) :
    (tree.look address).map kind = (tree.at? address).map kind := by
  simp [look, Function.comp_def, kind_shallow]

/-- Writing a file makes no entry and takes none away. -/
theorem kind_put {tree : Tree} {address : Address} {old : Utf8.Bytes}
    (h : tree.file? address = some old) (new : Utf8.Bytes) (other : Address) :
    ((tree.put address (.file new)).at? other).map kind = (tree.at? other).map kind := by
  rw [← map_kind_look, look_put h, ← map_kind_look]
  split
  · rename_i same
    subst same
    rw [look_eq_file_iff.mpr h]
    rfl
  · rfl

theorem text_eq_ok_iff {tree : Tree} {address : Address} {content : Text} :
    tree.text address = .ok content ↔
      ∃ bytes, tree.file? address = some bytes ∧ Utf8.decode? bytes = some content := by
  unfold text
  simp only [file?_eq_some_iff]
  split
  · rename_i bytes found
    simp only [found, Option.some.injEq, file.injEq, exists_eq_left']
    split <;> simp_all
  all_goals simp_all

/-! ## The list of files -/

theorem filesOf_eq (entries : List (Text × Tree)) :
    filesOf entries =
      entries.flatMap fun entry => entry.2.files.map fun file => (entry.1 :: file.1, file.2) := by
  induction entries with
  | nil => simp [filesOf]
  | cons first rest ih => simp [filesOf, ih]

theorem mem_files {tree : Tree} (formed : tree.WellFormed) {address : Address}
    {content : Utf8.Bytes} :
    (address, content) ∈ tree.files ↔ tree.file? address = some content := by
  induction formed generalizing address with
  | file bytes =>
    cases address with
    | nil => simp [files, file?, at?, eq_comm]
    | cons => simp [files, file?, at?, entry?, Tree.entries]
  | link target =>
    cases address with
    | nil => simp [files, file?, at?]
    | cons => simp [files, file?, at?, entry?, Tree.entries]
  | @directory entries distinct inner ih =>
    rw [files, filesOf_eq, List.mem_flatMap, file?_eq_some_iff]
    cases address with
    | nil => simp [at?]
    | cons name address =>
      rw [at?, Option.bind_eq_some_iff]
      constructor
      · rintro ⟨⟨label, child⟩, member, listed⟩
        obtain ⟨⟨below, bytes⟩, found, same⟩ := List.mem_map.mp listed
        obtain ⟨⟨rfl, rfl⟩, rfl⟩ := by simpa using same
        exact ⟨child, (entry?_eq_some_iff distinct).mpr member,
          file?_eq_some_iff.mp ((ih _ member).mp found)⟩
      · rintro ⟨child, found, below⟩
        have member := (entry?_eq_some_iff distinct).mp found
        exact ⟨(name, child), member, List.mem_map.mpr
          ⟨(address, content), (ih _ member).mpr (file?_eq_some_iff.mpr below), rfl⟩⟩

theorem files_nodup {tree : Tree} (formed : tree.WellFormed) : (tree.files.map (·.1)).Nodup := by
  induction formed with
  | file bytes => simp [files]
  | link target => simp [files]
  | @directory entries distinct inner ih =>
    rw [files, filesOf_eq, List.map_flatMap, List.nodup_flatMap]
    refine ⟨?_, ?_⟩
    · intro entry member
      have names : (entry.2.files.map fun file => (entry.1 :: file.1, file.2)).map (·.1) =
          (entry.2.files.map (·.1)).map (entry.1 :: ·) := by simp
      rw [names]
      exact (ih entry member).map List.cons_injective
    · refine (List.pairwise_map.mp distinct).imp ?_
      intro first second differ address here there
      have starts {entry : Text × Tree} (member : address ∈ (entry.2.files.map fun file =>
          (entry.1 :: file.1, file.2)).map (·.1)) : address.head? = some entry.1 := by
        simp only [List.map_map, List.mem_map, Function.comp_apply] at member
        obtain ⟨file, -, rfl⟩ := member
        rfl
      exact differ (Option.some.inj ((starts here).symm.trans (starts there)))

end Prefill.Tree
