import Mathlib.Data.List.Forall2
import Prefill.Project
import Prefill.Proofs.Indexing
import Prefill.Proofs.Naming
import Prefill.Proofs.Order

/-!
What loading a project establishes. The index holds exactly the exported functions of the helper
files, in their order, and no depth has a name twice.

* `Project.Loaded`, `loaded_of_load`: what holds of every project that loads;
* `Loaded.lookup?_eq_some_iff`: a look-up finds the function of greatest depth that a call can see.
-/

namespace Prefill

open Text

theorem eq_ok_of_toOption {ε α : Type} {result : Except ε α} {a : α}
    (h : result.toOption = some a) : result = .ok a := by
  cases result with
  | error e => cases h
  | ok b => exact congrArg Except.ok (Option.some.inj h)

theorem mapError_eq_ok_iff {ε δ α : Type} {f : ε → δ} {result : Except ε α} {a : α} :
    result.mapError f = .ok a ↔ result = .ok a := by
  cases result with
  | error e => exact iff_of_false nofun nofun
  | ok b =>
    constructor
    · exact fun same => congrArg Except.ok (Except.ok.inj same)
    · exact fun same => congrArg Except.ok (Except.ok.inj same)

/-- What a loop finds, in the order of its rounds. -/
theorem forall₂_of_mapM {ε α β : Type} {f : α → Except ε β} {list : List α} {results : List β}
    (h : list.mapM f = .ok results) : List.Forall₂ (fun a b => f a = .ok b) list results := by
  induction list generalizing results with
  | nil =>
    obtain rfl : [] = results := by simpa [pure, Except.pure] using h
    exact .nil
  | cons a rest ih =>
    rw [List.mapM_cons] at h
    cases first : f a with
    | error e => simp [first, bind, Except.bind] at h
    | ok found =>
      cases others : rest.mapM f with
      | error e => simp [first, others, bind, Except.bind] at h
      | ok more =>
        obtain rfl : found :: more = results := by
          simpa [first, others, bind, Except.bind, pure, Except.pure] using h
        exact .cons first (ih others)

section

variable {α β : Type} {R : α → β → Prop} {as : List α} {bs : List β}

/-- Where two lists go together, an entry of the first has its partner in the second. -/
theorem exists_second (all : List.Forall₂ R as bs) {a : α} (member : a ∈ as) : ∃ b ∈ bs, R a b := by
  induction all with
  | nil => cases member
  | cons related _ ih =>
    obtain rfl | later := List.mem_cons.mp member
    · exact ⟨_, List.mem_cons_self .., related⟩
    · obtain ⟨b, inside, related⟩ := ih later
      exact ⟨b, List.mem_cons_of_mem _ inside, related⟩

theorem exists_first (all : List.Forall₂ R as bs) {b : β} (member : b ∈ bs) : ∃ a ∈ as, R a b := by
  have flipped : List.Forall₂ (flip R) bs as := List.Forall₂.flip all
  exact exists_second flipped member

end

/-- What a loop has found was found in one of its rounds. -/
theorem exists_of_mem_mapM {ε α β : Type} {f : α → Except ε β} {list : List α} {results : List β}
    (h : list.mapM f = .ok results) {b : β} (member : b ∈ results) : ∃ a ∈ list, f a = .ok b :=
  exists_first (forall₂_of_mapM h) member

namespace Journal

variable {ε α β : Type}

theorem andThen_result_eq_ok_iff {first : Journal ε α} {next : α → Journal ε β} {b : β} :
    (first.andThen next).result = .ok b ↔
      ∃ a, first.result = .ok a ∧ (next a).result = .ok b := by
  unfold andThen
  cases first.result <;> simp

theorem mapError_result_eq_ok_iff {δ : Type} {f : ε → δ} {j : Journal ε α} {a : α} :
    (j.mapError f).result = .ok a ↔ j.result = .ok a :=
  Prefill.mapError_eq_ok_iff

/-- What every step of a loop keeps holds at its end. -/
theorem foldlM_result {γ : Type} {f : β → γ → Journal ε β} {P : β → List γ → Prop}
    (step : ∀ b seen c b', P b seen → (f b c).result = .ok b' → P b' (seen ++ [c]))
    {list seen : List γ} {b b' : β} (start : P b seen)
    (h : (list.foldlM f b).result = .ok b') : P b' (seen ++ list) := by
  induction list generalizing b seen with
  | nil =>
    obtain rfl : b = b' := by simpa [done] using h
    simpa using start
  | cons c rest ih =>
    rw [List.foldlM_cons, bind_eq, andThen_result_eq_ok_iff] at h
    obtain ⟨next, first, rest⟩ := h
    simpa using ih (step b seen c next start first) rest

end Journal

/-! ## Loaded projects -/

namespace HelperFile

/-- A file of a project, read below its root. -/
def ReadBelow (root : Path) (file : HelperFile) : Prop :=
  ∃ path content, file = .ofText root path content

theorem exists_name {root : Path} {file : HelperFile} (read : file.ReadBelow root)
    {d : Go.Declaration} (member : d ∈ file.source.declarations) (function : d.kind = .function) :
    ∃ name, d.names = [name] ∧ isIdentifier name = true := by
  obtain ⟨path, content, rfl⟩ := read
  exact Go.exists_name_of_function member function

/-- The functions of a file as they are entered into the index. -/
def entries (file : HelperFile) : List Index.Entry :=
  file.symbols.map (Index.Entry.mk file.directory)

theorem symbols_flatMap_entries (files : List HelperFile) :
    (files.flatMap entries).map (·.symbol) = files.flatMap symbols := by
  simp [List.map_flatMap, entries, Function.comp_def]

end HelperFile

namespace Project

theorem enterFile_holds {index next : Index} {entered : List Index.Entry} {file : HelperFile}
    (holds : index.Holds entered) (h : (enterFile index file).result = .ok next) :
    next.Holds (entered ++ file.entries) := by
  have start : index.Holds (entered ++ ([] : List Symbol).map (.mk file.directory)) := by
    simpa using holds
  refine Journal.foldlM_result
    (P := fun index symbols => index.Holds (entered ++ symbols.map (.mk file.directory))) ?_ start h
  intro index symbols symbol next holds step
  simp only [Journal.bind_eq, Journal.andThen_result_eq_ok_iff] at step
  obtain ⟨⟨inserted, hidden⟩, ok, rest⟩ := step
  have same : inserted = next := by
    cases hidden <;> simpa [Journal.done, Journal.tell, Journal.andThen] using rest
  have grown := (holds.insert_eq_ok ⟨file.directory, symbol⟩ ok).2
  simpa [← same] using grown

theorem checkFile_result (index : Index) (file : HelperFile) :
    (checkFile index file).result = (enterFile index file).result := by
  unfold checkFile
  split <;> split <;> simp [Journal.andThen, Journal.tell]

theorem checkFiles_holds {files : List HelperFile} {index : Index}
    (h : (files.foldlM checkFile .empty).result = .ok index) :
    index.Holds (files.flatMap HelperFile.entries) := by
  have start : Index.empty.Holds (([] : List HelperFile).flatMap HelperFile.entries) :=
    Index.holds_empty
  refine Journal.foldlM_result
    (P := fun index seen => index.Holds (seen.flatMap HelperFile.entries)) ?_ start h
  intro index seen file next holds step
  rw [checkFile_result] at step
  simpa using enterFile_holds holds step

/-- What holds of every project that loads. -/
structure Loaded (project : Project) : Prop where
  read : ∀ file ∈ project.helpers, file.ReadBelow project.root.path
  index : project.index.Holds (project.helpers.flatMap HelperFile.entries)

theorem loaded_of_ofFiles {root : Place} {files : List HelperFile} {sources submodules : List Place}
    {project : Project} (read : ∀ file ∈ files, file.ReadBelow root.path)
    (h : (ofFiles root files sources submodules).result = .ok project) : project.Loaded := by
  simp only [ofFiles, Journal.bind_eq, Journal.andThen_result_eq_ok_iff] at h
  obtain ⟨index, entered, _, -, made⟩ := h
  obtain rfl := Except.ok.inj made
  refine ⟨?_, ?_⟩
  · intro file member
    exact read file (mem_sortedBy.mp member)
  · exact checkFiles_holds entered

theorem readBelow_of_readHelper {top : Tree} {root place : Place} {file : HelperFile}
    (h : readHelper top root place = .ok file) : file.ReadBelow root.path := by
  unfold readHelper at h
  split at h
  · obtain rfl := Except.ok.inj h
    exact ⟨_, _, rfl⟩
  · cases h

theorem path_of_readHelper {top : Tree} {root place : Place} {file : HelperFile}
    (h : readHelper top root place = .ok file) : file.path = place.path := by
  unfold readHelper at h
  split at h
  · obtain rfl := Except.ok.inj h
    rfl
  · cases h

/-- What loading goes through: the files are found, read, and made into a project. -/
theorem exists_of_load {top : Tree} {config : Config} {root : Place} {project : Project}
    (h : (load top config root).result = .ok project) :
    ∃ excluded files, config.excluded = .ok excluded ∧
      let found := Discovery.ofTree top excluded root
      found.helpers.mapM (readHelper top root) = .ok files ∧
      (ofFiles root files found.sources found.submodules).result = .ok project := by
  simp only [load, ofDiscovery, Journal.bind_eq, Journal.andThen_result_eq_ok_iff] at h
  obtain ⟨excluded, patterns, files, read, made⟩ := h
  exact ⟨excluded, files, mapError_eq_ok_iff.mp patterns, read,
    Journal.mapError_result_eq_ok_iff.mp made⟩

/-- **Loading** enters every exported function of the helper files, and nothing else. -/
theorem loaded_of_load {top : Tree} {config : Config} {root : Place} {project : Project}
    (h : (load top config root).result = .ok project) : project.Loaded := by
  obtain ⟨_, _, -, found, made⟩ := exists_of_load h
  refine loaded_of_ofFiles ?_ made
  intro file member
  obtain ⟨place, -, read⟩ := exists_of_mem_mapM found member
  exact readBelow_of_readHelper read

/-- The functions of a project. -/
def symbols (project : Project) : List Symbol := project.helpers.flatMap HelperFile.symbols

/-- A function of the project stands in a helper file, and the other way round. -/
theorem mem_symbols {project : Project} {s : Symbol} :
    s ∈ project.symbols ↔ ∃ file ∈ project.helpers, ∃ d ∈ file.source.declarations,
      d.kind = .function ∧ d.isExported = true ∧ file.symbol d = s := by
  simp [symbols, HelperFile.symbols, HelperFile.exportedFunctions, and_assoc]

section LookUp

variable {project : Project} (loaded : project.Loaded) {name : Text} {depth : Nat} {symbol : Symbol}

include loaded

/-- **What a look-up finds:** a function of the name that the call can see, and none that it can see
lies deeper. -/
theorem Loaded.lookup?_eq_some_iff : project.index.lookup? name depth = some symbol ↔
    Index.Nearest project.symbols name (· ≤ depth) symbol := by
  rw [loaded.index.lookup?_eq_some_iff, HelperFile.symbols_flatMap_entries]
  rfl

variable (found : project.index.lookup? name depth = some symbol)

include found

/-- A look-up finds an exported function of a helper file that a call can see. -/
theorem Loaded.exists_of_lookup? : ∃ file ∈ project.helpers, ∃ d ∈ file.source.declarations,
    d.kind = .function ∧ d.names = [name] ∧ isIdentifier name = true ∧
      Go.isExported name = true ∧ file.depth ≤ depth ∧ file.symbol d = symbol := by
  obtain ⟨entered, named, below, -⟩ := loaded.lookup?_eq_some_iff.mp found
  obtain ⟨file, inProject, d, declared, function, exported, rfl⟩ := mem_symbols.mp entered
  obtain ⟨only, names, identifier⟩ :=
    HelperFile.exists_name (loaded.read file inProject) declared function
  have isName : d.name = only := by simp [Go.Declaration.name, names]
  obtain rfl : only = name := isName.symm.trans named
  exact ⟨file, inProject, d, declared, function, names, identifier, isName ▸ exported, below, rfl⟩

/-- No other function of the name that the call can see is as deep as the one found. -/
theorem Loaded.symbol_eq_of_lookup? {file : HelperFile} (inProject : file ∈ project.helpers)
    {d : Go.Declaration} (declared : d ∈ file.source.declarations) (function : d.kind = .function)
    (names : d.names = [name]) (near : file.depth ≤ depth) (deep : symbol.depth ≤ file.depth) :
    file.symbol d = symbol := by
  obtain ⟨-, -, -, greatest⟩ := loaded.lookup?_eq_some_iff.mp found
  obtain ⟨-, -, -, -, -, -, -, exported, -⟩ := loaded.exists_of_lookup? found
  have isName : d.name = name := by simp [Go.Declaration.name, names]
  have entered : file.symbol d ∈ project.symbols := by
    refine mem_symbols.mpr ⟨file, inProject, d, declared, function, ?_, rfl⟩
    rw [Go.Declaration.isExported, isName, exported]
  -- The function found and this one are both the deepest, and a look-up finds only one.
  have alsoFound : project.index.lookup? name depth = some (file.symbol d) := by
    refine loaded.lookup?_eq_some_iff.mpr ⟨entered, isName, near, ?_⟩
    intro t inside named visible
    exact Nat.le_trans (greatest t inside named visible) deep
  exact Option.some.inj (alsoFound.symm.trans found)

end LookUp

end Project

/-! ## Small projects -/

/-- A text of the given lines. -/
def Text.ofLines (lines : List String) : Text := lines.flatMap fun line => line.toList ++ ['\n']

namespace Project

/-- The text of a helper file with the given lines. -/
def helperText (body : List String) : Text :=
  ofLines (["//go:build ignore", "//go:ahead functions", "", "package main", ""] ++ body)

/-- A helper file with the given lines. -/
def helperTree (body : List String) : Tree := .file (Utf8.encode (helperText body))

/-- The directory of the project, below the top. -/
def proj : Place := ⟨⟨"proj".toList⟩, ["proj".toList]⟩

end Project

end Prefill
