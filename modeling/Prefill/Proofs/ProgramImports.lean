import Prefill.Proofs.Answering
import Prefill.Proofs.Keeping
import Prefill.Proofs.Words

/-!
The imports of a program. The declarations of a program come from several files, and each refers to
packages by the names they have in its file. A program has one list of imports, so of the packages
that are needed under one name only the first gets it (`imports_of_program`). A declaration that was
written against another one then means something else (`template_shared`).
-/

namespace Prefill

open Text

namespace Go.ImportTable

/-! ## Tables -/

/-- An entry is found under the name of its import; an import that is there for its effect only has
no name, and stands under a key that is none. -/
def Fits (entry : Text × ImportSpec) : Prop :=
  entry.2.localName = entry.1 ∨ entry.2.localName = ['_'] ∧ ' ' ∈ entry.1

/-- A table in the order of its keys, whose entries fit. -/
structure Formed (table : ImportTable) : Prop where
  ordered : table.Pairwise fun a b => a.1 < b.1
  fits : ∀ entry ∈ table, Fits entry

section

variable {table : ImportTable} {name : Text} {spec : ImportSpec}

theorem ordered_put (h : table.Pairwise fun a b => a.1 < b.1) :
    (table.put name spec).Pairwise fun a b => a.1 < b.1 := by
  induction table with
  | nil => exact List.pairwise_singleton _ _
  | cons entry rest ih =>
    rw [List.pairwise_cons] at h
    unfold put
    split
    · rename_i same
      rw [List.pairwise_cons, same]
      exact h
    · rename_i differ
      split
      · rename_i less
        rw [List.pairwise_cons, List.forall_mem_cons, List.pairwise_cons]
        exact ⟨⟨less, fun other member => List.lt_trans less (h.1 other member)⟩, h⟩
      · rename_i notLess
        have greater : entry.1 < name :=
          (List.le_iff_lt_or_eq.mp notLess).resolve_right (Ne.symm differ)
        refine List.pairwise_cons.mpr ⟨?_, ih h.2⟩
        intro other member
        obtain rfl | member := mem_put member
        · exact greater
        · exact h.1 other member

theorem Formed.put (h : table.Formed) (fits : Fits (name, spec)) : (table.put name spec).Formed := by
  refine ⟨ordered_put h.ordered, ?_⟩
  intro entry member
  obtain rfl | member := mem_put member
  · exact fits
  · exact h.fits entry member

theorem Formed.add (h : table.Formed) (fits : Fits (name, spec)) : (table.add name spec).Formed := by
  unfold ImportTable.add
  split
  · exact h
  · exact h.put fits

theorem mem_of_find? (found : table.find? name = some spec) : (name, spec) ∈ table := by
  obtain ⟨entry, here, rfl⟩ := Option.map_eq_some_iff.mp found
  have same := List.find?_some here
  simp only [decide_eq_true_eq] at same
  subst same
  exact List.mem_of_find?_eq_some here

/-- What a table holds under a name has that name. -/
theorem Formed.localName_of_find? (h : table.Formed) (plain : ' ' ∉ name)
    (found : table.find? name = some spec) : spec.localName = name := by
  obtain same | ⟨-, blank⟩ := h.fits _ (mem_of_find? found)
  · exact same
  · exact absurd blank plain

/-- **One import for a name**: the one that the table holds under it. -/
theorem Formed.filter_specs (h : table.Formed) (plain : ' ' ∉ name) (someName : name ≠ ['_']) :
    table.specs.filter (fun spec => spec.localName = name) = (table.find? name).toList := by
  obtain ⟨ordered, fits⟩ := h
  induction table with
  | nil => rfl
  | cons entry rest ih =>
    rw [List.pairwise_cons] at ordered
    rw [List.forall_mem_cons] at fits
    have later := ih ordered.2 fits.2
    have named : entry.2.localName = name ↔ entry.1 = name := by
      obtain same | ⟨nameless, blank⟩ := fits.1
      · rw [same]
      · refine iff_of_false ?_ ?_
        · rw [nameless]
          exact someName.symm
        · rintro rfl
          exact plain blank
    by_cases here : entry.1 = name
    · -- The keys go up, so there is no second entry under the name.
      have gone : find? rest name = none := by
        rw [find?, List.find?_eq_none.mpr, Option.map_none]
        intro other member same
        have less := ordered.1 other member
        rw [of_decide_eq_true same, here] at less
        exact List.lt_irrefl name less
      rw [gone] at later
      simp only [specs, List.map_cons, List.filter_cons, named, here] at later ⊢
      simp [later, find?, here]
    · simp only [specs, List.map_cons, List.filter_cons, named, here] at later ⊢
      simpa [find?, here] using later

end

end Go.ImportTable

namespace Program

/-! ## What declarations need -/

/-- The import that a declaration needs under a name: what its file imports under it, if the
declaration uses the name before a point. -/
def needed? (name : Text) (origin : Origin) : Option Go.ImportSpec :=
  if name ∈ origin.declaration.qualifiers then
    (origin.file.source.import? name).map (·.toImportSpec)
  else none

/-- The path of the package that the first of some declarations needs under a name. -/
def firstPath? (origins : List Origin) (name : Text) : Option Text :=
  (origins.findSome? (needed? name)).map (·.path)

theorem find?_neededImports (origin : Origin) (name : Text) :
    ((neededImports origin).find? fun entry => entry.1 = name).map (·.2) = needed? name origin := by
  unfold neededImports needed?
  induction origin.declaration.qualifiers with
  | nil => rfl
  | cons q rest ih =>
    rw [List.filterMap_cons]
    by_cases same : q = name
    · subst same
      cases imported : origin.file.source.import? q with
      | none => simpa [imported] using ih
      | some i => simp
    · cases imported : origin.file.source.import? q with
      | none => simpa [Ne.symm same] using ih
      | some i => simpa [same, Ne.symm same] using ih

theorem localName_of_import? {source : Go.Source} {name : Text} {i : Go.Import}
    (h : source.import? name = some i) : i.localName = name := by
  simpa using List.find?_some h

theorem fits_of_needed {origin : Origin} {entry : Text × Go.ImportSpec}
    (h : entry ∈ neededImports origin) : Go.ImportTable.Fits entry := by
  obtain ⟨q, -, imported⟩ := List.mem_filterMap.mp h
  obtain ⟨i, found, rfl⟩ := Option.map_eq_some_iff.mp imported
  exact .inl (localName_of_import? found)

/-! ## Collecting the imports -/

theorem addImport_table (table : Go.ImportTable) (name : Text) (spec : Go.ImportSpec) :
    (addImport table name spec).1 = table.add name spec := by
  unfold addImport Go.ImportTable.add
  split
  · rename_i noneThere
    rw [noneThere]
  · rename_i present there
    rw [there]
    split <;> rfl

/-- The imports that a declaration brings along. -/
theorem importsFor_table (state : Go.ImportTable × List String) (origin : Origin) :
    (importsFor state origin).1 =
      (blankImports origin.file).foldl (fun table spec => table.put ("_ ".toList ++ spec.path) spec)
        ((neededImports origin).foldl (fun table entry => table.add entry.1 entry.2) state.1) := by
  refine congrArg (List.foldl _ · (blankImports origin.file)) ?_
  refine (List.foldl_hom Prod.fst ?_).symm
  intro state entry
  exact (addImport_table state.1 entry.1 entry.2).symm

theorem foldl_add_find? (entries : List (Text × Go.ImportSpec)) (table : Go.ImportTable)
    (name : Text) :
    (entries.foldl (fun table entry => table.add entry.1 entry.2) table).find? name =
      (table.find? name).or ((entries.find? fun entry => entry.1 = name).map (·.2)) := by
  induction entries generalizing table with
  | nil => simp
  | cons entry rest ih =>
    rw [List.foldl_cons, ih, Go.ImportTable.find?_add, List.find?_cons]
    by_cases same : entry.1 = name
    · simp [same]
    · simp [same]

/-- What a program imports for effect only stands under no name. -/
theorem foldl_blank_find? (specs : List Go.ImportSpec) (table : Go.ImportTable) {name : Text}
    (plain : ' ' ∉ name) :
    (specs.foldl (fun table spec => table.put ("_ ".toList ++ spec.path) spec) table).find? name =
      table.find? name := by
  induction specs generalizing table with
  | nil => rfl
  | cons spec rest ih =>
    have differ : "_ ".toList ++ spec.path ≠ name := by
      rintro rfl
      exact plain (by simp)
    rw [List.foldl_cons, ih, Go.ImportTable.find?_put, if_neg differ]

theorem importsFor_find? (state : Go.ImportTable × List String) (origin : Origin) {name : Text}
    (plain : ' ' ∉ name) :
    (importsFor state origin).1.find? name = (state.1.find? name).or (needed? name origin) := by
  rw [importsFor_table, foldl_blank_find? _ _ plain, foldl_add_find?, find?_neededImports]

/-- **The first import that is needed under a name** is the one that is collected. -/
theorem foldl_importsFor_find? (origins : List Origin) (state : Go.ImportTable × List String)
    {name : Text} (plain : ' ' ∉ name) :
    (origins.foldl importsFor state).1.find? name =
      (state.1.find? name).or (origins.findSome? (needed? name)) := by
  induction origins generalizing state with
  | nil => simp
  | cons origin rest ih =>
    rw [List.foldl_cons, ih, importsFor_find? _ _ plain, List.findSome?_cons, Option.or_assoc]
    cases needed? name origin <;> rfl

theorem formed_importsFor {state : Go.ImportTable × List String} (h : state.1.Formed)
    (origin : Origin) : (importsFor state origin).1.Formed := by
  rw [importsFor_table]
  have needs : ∀ entries : List (Text × Go.ImportSpec), (∀ e ∈ entries, Go.ImportTable.Fits e) →
      (entries.foldl (fun table entry => table.add entry.1 entry.2) state.1).Formed := by
    intro entries fits
    exact List.foldlRecOn entries _ h fun table formed entry member => formed.add (fits entry member)
  refine List.foldlRecOn _ _ (needs _ fun _ => fits_of_needed) ?_
  intro table formed spec member
  obtain ⟨i, among, rfl⟩ := List.mem_map.mp member
  have label : i.label = some ['_'] := by simpa using (List.mem_filter.mp among).2
  refine formed.put (.inr ⟨?_, by simp⟩)
  simp [Go.ImportSpec.localName, label]

theorem formed_foldl_importsFor (origins : List Origin) :
    (origins.foldl importsFor ([], [])).1.Formed := by
  refine List.foldlRecOn (motive := fun state => state.1.Formed) origins importsFor ?_ ?_
  · exact ⟨.nil, nofun⟩
  · intro state formed origin _
    exact formed_importsFor formed origin

/-! ## The callee -/

theorem formed_callee {table : Go.ImportTable} (h : table.Formed) (target : Target) :
    (callee table target).2.Formed := by
  cases target with
  | helper symbol => exact h
  | qualified qualifier member => exact h
  | package spec member =>
    dsimp only [callee]
    split
    · exact h.put (.inl rfl)
    · exact h.put (.inl rfl)

/-- The callee takes no name from an import: a package whose name is taken gets another one. -/
theorem callee_find? {table : Go.ImportTable} {target : Target} {name : Text}
    {spec : Go.ImportSpec} (found : table.find? name = some spec)
    (free : name = targetAlias → ¬ targetAlias ++ ['.'] <+: (callee table target).1) :
    ∃ other, (callee table target).2.find? name = some other ∧ other.path = spec.path := by
  cases target with
  | helper symbol => exact ⟨spec, found, rfl⟩
  | qualified qualifier member => exact ⟨spec, found, rfl⟩
  | package package member =>
    dsimp only [callee] at free ⊢
    split
    · rename_i taken
      rw [if_pos taken] at free
      have differ : targetAlias ≠ name := by
        rintro rfl
        exact free rfl ⟨member, by simp⟩
      rw [Go.ImportTable.find?_put, if_neg differ]
      exact ⟨spec, found, rfl⟩
    · rename_i taken
      rw [Go.ImportTable.find?_put]
      split
      · rename_i same
        rw [same, found] at taken
        simp only [Option.any_some, decide_eq_true_eq, ne_eq, not_not] at taken
        exact ⟨package, rfl, taken.symm⟩
      · exact ⟨spec, found, rfl⟩

/-! ## Programs -/

/-- A program opens with its heading. -/
theorem heading_prefix (table : Go.ImportTable) (kept : List Origin) (call : Text) :
    heading table <+: assemble table kept call := by
  rw [assemble, List.append_assoc, List.append_assoc]
  exact List.prefix_append _ _

/-- An import block gives a name to one package: exactly one import in it has the name. -/
def Binds (block : List Go.ImportSpec) (name path : Text) : Prop :=
  ∃ spec, block.filter (fun spec => spec.localName = name) = [spec] ∧ spec.path = path

/-- A name that a declaration of a program uses before a point is an identifier. -/
theorem isIdentifier_of_kept {project : Project} (loaded : project.Loaded) {depth : Nat}
    {origin : Origin} (isKept : origin ∈ kept (project.visible depth)) {name : Text}
    (used : name ∈ origin.declaration.qualifiers) : isIdentifier name = true := by
  obtain ⟨inVisible, declared⟩ := mem_origins.mp (mem_of_keptFrom isKept)
  obtain ⟨path, content, read⟩ := loaded.read origin.file (mem_visible.mp inVisible).1
  rw [read] at declared
  exact Go.isIdentifier_of_qualifier declared used

/-- **The imports of a program.** For a name that a declaration of a program uses before a point, and
under which its file imports a package, the program has an import: of the package that the first of
its declarations needs under the name. No other import has the name, unless it is one that the
program uses itself. Where the call goes through the name for callees, that name is left out here. -/
theorem imports_of_program {top : Tree} {config : Config} {root : Place} {project : Project}
    (loads : (Project.load top config root).result = .ok project) (target : Target) (depth : Nat)
    (arguments : List Text) {origin : Origin} (isKept : origin ∈ kept (project.visible depth))
    {name : Text} (used : name ∈ origin.declaration.qualifiers) {i : Go.Import}
    (imported : origin.file.source.import? name = some i) :
    let program := (synthesize project target depth arguments).1
    ∃ table rest, program.source = heading table ++ rest ∧
      ((name = targetAlias → ¬ targetAlias ++ ['.'] <+: program.call) →
        (∃ spec ∈ table.specs, spec.localName = name ∧
          firstPath? (kept (project.visible depth)) name = some spec.path) ∧
        (name ≠ ['_'] → name ∉ reservedImports.map (·.localName) → ∀ path,
          Binds (reservedImports ++ table.specs) name path ↔
            firstPath? (kept (project.visible depth)) name = some path)) := by
  intro program
  let collected := ((kept (project.visible depth)).foldl importsFor ([], [])).1
  have plain : ' ' ∉ name :=
    not_mem_identifier (isIdentifier_of_kept (Project.loaded_of_load loads) isKept used)
      (by decide) (by decide)
  obtain ⟨spec, first⟩ : ∃ spec,
      (kept (project.visible depth)).findSome? (needed? name) = some spec := by
    rw [← Option.isSome_iff_exists, List.findSome?_isSome_iff]
    exact ⟨origin, isKept, by simp [needed?, used, imported]⟩
  have found : collected.find? name = some spec := by
    rw [foldl_importsFor_find? _ _ plain, first]
    rfl
  have formed := formed_callee (formed_foldl_importsFor (kept (project.visible depth))) target
  have path : firstPath? (kept (project.visible depth)) name = some spec.path := by
    rw [firstPath?, first, Option.map_some]
  obtain ⟨rest, source⟩ :=
    heading_prefix (callee collected target).2 (kept (project.visible depth)) program.call
  refine ⟨(callee collected target).2, rest, source.symm, ?_⟩
  intro free
  have called : (callee collected target).1 <+: program.call :=
    (List.prefix_append _ _).trans (List.prefix_append _ _)
  obtain ⟨other, there, same⟩ := callee_find? found fun isAlias inside =>
    free isAlias (inside.trans called)
  rw [path, ← same]
  refine ⟨⟨other, ?_, formed.localName_of_find? plain there, rfl⟩, ?_⟩
  · exact List.mem_map_of_mem (Go.ImportTable.mem_of_find? there)
  · intro someName notReserved path
    have noneReserved : reservedImports.filter (fun spec => spec.localName = name) = [] := by
      refine List.filter_eq_nil_iff.mpr ?_
      intro reserved member
      simp only [decide_eq_true_eq]
      rintro rfl
      exact notReserved (List.mem_map_of_mem member)
    rw [Binds, List.filter_append, noneReserved, formed.filter_specs plain someName, there]
    simp

/-- Two helper files whose functions use packages of one name; the deeper one is about texts. -/
def templateFiles : Tree := twoFiles
  ["import \"html/template\"", "", "func Safe(t template.HTML) \x7b\x7d"]
  ["import \"text/template\"", "", "func Plain(t template.Template) \x7b\x7d"]

/-- A declaration of a program uses a name before a point, and its file imports a package under it. -/
def Uses (files : List HelperFile) (name path : Text) : Prop :=
  ∃ origin ∈ kept files, name ∈ origin.declaration.qualifiers ∧
    ∃ i, origin.file.source.import? name = some i ∧ i.path = path

instance (files : List HelperFile) (name path : Text) : Decidable (Uses files name path) :=
  decidable_of_iff (∃ origin ∈ kept files, name ∈ origin.declaration.qualifiers ∧
    (origin.file.source.import? name).map (·.path) = some path) (by simp [Uses])

/-- Seen from below, the name goes to the package of the deeper file. -/
theorem template_first : ∃ project origin i symbol table rest,
    (Project.load templateFiles {} Project.proj).result = .ok project ∧
      project.index.lookup? "Plain".toList 1 = some symbol ∧
      origin ∈ kept (project.visible 1) ∧
      "template".toList ∈ origin.declaration.qualifiers ∧
      origin.file.source.import? "template".toList = some i ∧ i.path = "text/template".toList ∧
      (synthesize project (.helper symbol) 1 []).1.source = heading table ++ rest ∧
      Binds (reservedImports ++ table.specs) "template".toList i.path := by
  have facts : ((Project.load templateFiles {} Project.proj).result.toOption.map fun project =>
      ((project.index.lookup? "Plain".toList 1).isSome,
        decide (Uses (project.visible 1) "template".toList "text/template".toList),
        firstPath? (kept (project.visible 1)) "template".toList)) =
      some (true, true, some "text/template".toList) := by decide +kernel
  obtain ⟨project, loads, facts⟩ := Option.map_eq_some_iff.mp facts
  have loads := eq_ok_of_toOption loads
  simp only [Prod.mk.injEq, Option.isSome_iff_exists, decide_eq_true_eq] at facts
  obtain ⟨⟨symbol, found⟩, ⟨origin, isKept, used, i, imported, path⟩, first⟩ := facts
  obtain ⟨table, rest, source, binds⟩ :=
    imports_of_program loads (.helper symbol) 1 [] isKept used imported
  have free : "template".toList ≠ targetAlias := by decide
  have bound := ((binds fun same => absurd same free).2 (by decide) (by decide) i.path).mpr
    (path ▸ first)
  exact ⟨project, origin, i, symbol, table, rest, loads, found, isKept, used, imported, path, source,
    bound⟩

/-- A helper file that imports packages under names that programs use themselves. -/
def reservedFiles : Tree := twoFiles
  ["import __goaheadFmt \"strings\"", "import __goaheadTarget \"bytes\"",
    "import \"crypto/rand\"", "",
    "func Draw(s __goaheadFmt.Builder, b __goaheadTarget.Buffer, r rand.Reader) \x7b\x7d"]
  ["func Other() \x7b\x7d"]

/-- The function that was written against `html/template` is in a program that imports
`text/template`. Of the names that programs use themselves, one is then given to two packages, and
one to the package of the callee only. -/
theorem template_shared :
    (∃ project symbol, (Project.load templateFiles {} Project.proj).result = .ok project ∧
      project.index.lookup? "Safe".toList 1 = some symbol ∧
      Uses (project.visible 1) "template".toList "html/template".toList ∧
      heading [("template".toList, ⟨none, "text/template".toList⟩)] <+:
        (synthesize project (.helper symbol) 1 []).1.source) ∧
    ∃ project, (Project.load reservedFiles {} Project.proj).result = .ok project ∧
      Uses (project.visible 0) "__goaheadFmt".toList "strings".toList ∧
      Uses (project.visible 0) targetAlias "bytes".toList ∧
      heading [("__goaheadFmt".toList, ⟨some "__goaheadFmt".toList, "strings".toList⟩),
          (targetAlias, ⟨some targetAlias, "math/rand".toList⟩),
          ("rand".toList, ⟨none, "crypto/rand".toList⟩)] <+:
        (synthesize project (.package ⟨none, "math/rand".toList⟩ "Int".toList) 0 []).1.source := by
  refine ⟨?_, ?_⟩
  · have facts : ((Project.load templateFiles {} Project.proj).result.toOption.map fun project =>
        ((project.index.lookup? "Safe".toList 1).isSome,
          decide (Uses (project.visible 1) "template".toList "html/template".toList),
          ((kept (project.visible 1)).foldl importsFor ([], [])).1)) =
        some (true, true, [("template".toList, ⟨none, "text/template".toList⟩)]) := by
      decide +kernel
    obtain ⟨project, loads, facts⟩ := Option.map_eq_some_iff.mp facts
    simp only [Prod.mk.injEq, Option.isSome_iff_exists, decide_eq_true_eq] at facts
    obtain ⟨⟨symbol, found⟩, used, table⟩ := facts
    refine ⟨project, symbol, eq_ok_of_toOption loads, found, used, ?_⟩
    rw [← table]
    exact heading_prefix _ _ _
  · have facts : ((Project.load reservedFiles {} Project.proj).result.toOption.map fun project =>
        (decide (Uses (project.visible 0) "__goaheadFmt".toList "strings".toList),
          decide (Uses (project.visible 0) targetAlias "bytes".toList),
          (callee ((kept (project.visible 0)).foldl importsFor ([], [])).1
            (.package ⟨none, "math/rand".toList⟩ "Int".toList)).2)) =
        some (true, true, [("__goaheadFmt".toList, ⟨some "__goaheadFmt".toList, "strings".toList⟩),
          (targetAlias, ⟨some targetAlias, "math/rand".toList⟩),
          ("rand".toList, ⟨none, "crypto/rand".toList⟩)]) := by decide +kernel
    obtain ⟨project, loads, facts⟩ := Option.map_eq_some_iff.mp facts
    simp only [Prod.mk.injEq, decide_eq_true_eq] at facts
    obtain ⟨fmt, target, table⟩ := facts
    refine ⟨project, eq_ok_of_toOption loads, fmt, target, ?_⟩
    rw [← table]
    exact heading_prefix _ _ _

end Program

end Prefill
