import Prefill.Proofs.Callee
import Prefill.Proofs.Loading
import Prefill.Proofs.MemoKey

/-!
Which declarations of helper files a name can reach. A bare name goes through the index, which holds
exported functions only. A name with a point goes through the declarations of the files, and nothing
asks there whether the part before the point is exported.

* `resolve_eq_helper_iff`: a name is the deepest exported function that the call sees under it;
* `resolve_eq_qualified_iff`: or a member of whatever a visible file declares before the point;
* `export_gate_iff`: so only exported declarations are reached exactly where the name before the
  point is exported, or is a label for a package, or is not declared at all;
* `unexported_value_reached`: a variable with a lower-case name is reached.
-/

namespace Prefill

open Text

namespace Project

variable {project : Project} {depth : Nat} {name : Text}

/-- An exported function that a call at a depth sees under a name. -/
structure Offers (project : Project) (depth : Nat) (name : Text) (file : HelperFile)
    (d : Go.Declaration) : Prop where
  inProject : file ∈ project.helpers
  near : file.depth ≤ depth
  declared : d ∈ file.source.declarations
  function : d.kind = .function
  names : d.names = [name]
  exported : Go.isExported name = true

/-- A file that a call at a depth sees declares a name at package scope. -/
def Declares (project : Project) (depth : Nat) (name : Text) : Prop :=
  ∃ file ∈ project.helpers, file.depth ≤ depth ∧
    ∃ d ∈ file.source.declarations, d.declares name = true

/-- A file that a call at a depth sees has a comment that makes a name the label of a package. -/
def Labels (project : Project) (depth : Nat) (name : Text) : Prop :=
  ∃ file ∈ project.helpers, file.depth ≤ depth ∧ ∃ entry ∈ file.aliases, entry.label = name

/-- What a placeholder may reach: an exported function, a member of an exported value, or a package,
which is no declaration of a helper file. -/
def Gated (project : Project) (depth : Nat) : Target → Prop
  | .helper symbol => ∃ file d, project.Offers depth symbol.name file d ∧ file.symbol d = symbol
  | .qualified qualifier _ => Go.isExported qualifier = true ∧ project.Declares depth qualifier
  | .package _ _ => True

/-! ## Bare names -/

theorem Loaded.mem_symbols_iff_offers (loaded : project.Loaded) {s : Symbol} :
    s ∈ project.symbols ∧ s.name = name ∧ s.depth ≤ depth ↔
      ∃ file d, project.Offers depth name file d ∧ file.symbol d = s := by
  rw [mem_symbols]
  constructor
  · rintro ⟨⟨file, inProject, d, declared, function, exported, rfl⟩, named, near⟩
    obtain ⟨only, names, -⟩ := HelperFile.exists_name (loaded.read file inProject) declared function
    have isName : d.name = name := named
    obtain rfl : only = name := by simpa [Go.Declaration.name, names] using isName
    exact ⟨file, d, ⟨inProject, near, declared, function, names, isName ▸ exported⟩, rfl⟩
  · rintro ⟨file, d, offers, rfl⟩
    have isName : d.name = name := by simp [Go.Declaration.name, offers.names]
    have exported : d.isExported = true := by
      rw [Go.Declaration.isExported, isName, offers.exported]
    exact ⟨⟨file, offers.inProject, d, offers.declared, offers.function, exported, rfl⟩, isName,
      offers.near⟩

/-- **A look-up** finds the deepest exported function that the call sees under the name. -/
theorem Loaded.lookup?_iff_offers (loaded : project.Loaded) {s : Symbol} :
    project.index.lookup? name depth = some s ↔
      ∃ file d, project.Offers depth name file d ∧ file.symbol d = s ∧
        ∀ other e, project.Offers depth name other e → other.depth ≤ file.depth := by
  rw [loaded.lookup?_eq_some_iff]
  constructor
  · rintro ⟨member, named, near, greatest⟩
    obtain ⟨file, d, offers, rfl⟩ := loaded.mem_symbols_iff_offers.mp ⟨member, named, near⟩
    refine ⟨file, d, offers, rfl, ?_⟩
    intro other e offers'
    obtain ⟨member', named', near'⟩ := loaded.mem_symbols_iff_offers.mpr ⟨other, e, offers', rfl⟩
    exact greatest _ member' named' near'
  · rintro ⟨file, d, offers, rfl, greatest⟩
    obtain ⟨member, named, near⟩ := loaded.mem_symbols_iff_offers.mpr ⟨file, d, offers, rfl⟩
    refine ⟨member, named, near, ?_⟩
    intro t member' named' near'
    obtain ⟨other, e, offers', rfl⟩ :=
      loaded.mem_symbols_iff_offers.mp ⟨member', named', near'⟩
    exact greatest other e offers'

section

variable {σ : Type} {toolchain : Toolchain σ} {packages : PackageTable} {state : σ}

theorem resolve_eq_helper_iff {symbol : Symbol} :
    (project.resolve toolchain name depth packages state).target = .ok (.helper symbol) ↔
      project.index.lookup? name depth = some symbol := by
  constructor
  · intro found
    obtain ⟨s, indexed, same⟩ | ⟨q, m, -, ⟨path, same⟩ | same⟩ := resolve_cases found
    · obtain rfl := Target.helper.inj same
      exact indexed
    · cases same
    · cases same
  · intro indexed
    rw [resolve, indexed]

/-! ## Names with a point -/

/-- The index has no name with a point. -/
theorem Loaded.lookup?_dotted (loaded : project.Loaded) (qualifier member : Text) :
    project.index.lookup? (qualifier ++ '.' :: member) depth = none := by
  apply Option.eq_none_iff_forall_not_mem.mpr
  intro symbol found
  obtain ⟨-, -, -, -, -, -, identifier, -⟩ := loaded.exists_of_lookup? found
  exact absurd (by simp) (not_mem_identifier identifier (by decide) (by decide) (c := '.'))

theorem member?_eq_qualified_iff {qualifier member other part : Text} :
    project.member? depth qualifier member = some (.qualified other part) ↔
      (other = qualifier ∧ part = member) ∧ ¬ project.Labels depth qualifier ∧
        project.Declares depth qualifier := by
  have labels : (((project.visible depth).flatMap (·.aliases)).find? fun entry =>
      entry.label = qualifier) = none ↔ ¬ project.Labels depth qualifier := by
    simp only [List.find?_eq_none, List.mem_flatMap, Program.mem_visible, decide_eq_true_eq, Labels]
    grind
  have declares : ((project.visible depth).any fun file => (file.source.find? qualifier).isSome) =
      true ↔ project.Declares depth qualifier := by
    simp only [List.any_eq_true, Program.mem_visible, Go.Source.find?, List.find?_isSome, Declares,
      and_assoc]
  unfold member?
  dsimp only
  split
  · rename_i entry labelled
    have isLabel : ¬ ¬ project.Labels depth qualifier := by
      rw [← labels, labelled]
      exact nofun
    exact iff_of_false nofun fun h => isLabel h.2.1
  · rename_i unlabelled
    rw [← labels, ← declares]
    split
    · rename_i declared
      constructor
      · intro same
        obtain ⟨rfl, rfl⟩ := Target.qualified.inj (Option.some.inj same)
        exact ⟨⟨rfl, rfl⟩, unlabelled, declared⟩
      · rintro ⟨⟨rfl, rfl⟩, -, -⟩
        rfl
    · rename_i undeclared
      refine iff_of_false ?_ fun h => undeclared h.2.2
      intro imported
      obtain ⟨i, -, same⟩ := Option.map_eq_some_iff.mp imported
      cases same

/-- **A member of a value:** the name has a point, the part before it is no label of a package, and
a visible file declares that part, whether it is exported or not. -/
theorem Loaded.resolve_eq_qualified_iff (loaded : project.Loaded) {qualifier member : Text} :
    (project.resolve toolchain name depth packages state).target = .ok (.qualified qualifier member) ↔
      name = qualifier ++ '.' :: member ∧ '.' ∉ qualifier ∧ ¬ project.Labels depth qualifier ∧
        project.Declares depth qualifier := by
  rw [← and_assoc, ← cutAt?_eq_some_iff]
  constructor
  · intro found
    obtain ⟨_, -, same⟩ | ⟨q, m, cut, ⟨_, same⟩ | same⟩ := resolve_cases found
    · cases same
    · cases same
    · obtain ⟨rfl, rfl⟩ := Target.qualified.inj same
      refine ⟨cut, ?_⟩
      rw [(cutAt?_eq_some_iff.mp cut).1, resolve, loaded.lookup?_dotted] at found
      rw [(cutAt?_eq_some_iff.mp cut).1] at cut
      simp only [cut] at found
      split at found
      · rename_i target isMember
        obtain rfl := Except.ok.inj found
        exact (member?_eq_qualified_iff.mp isMember).2
      · -- What the toolchain is asked for is a package.
        dsimp only at found
        split at found <;> cases found
  · rintro ⟨cut, unlabelled, declared⟩
    have isMember : project.member? depth qualifier member = some (.qualified qualifier member) :=
      member?_eq_qualified_iff.mpr ⟨⟨rfl, rfl⟩, unlabelled, declared⟩
    have noHelper : project.index.lookup? name depth = none := by
      rw [(cutAt?_eq_some_iff.mp cut).1]
      exact loaded.lookup?_dotted ..
    simp only [resolve, noHelper, cut, isMember]

end

/-- **The export gate.** A bare name reaches the deepest exported function that the call sees under
it, and nothing else of a helper file. A name with a point reaches a member of whatever a visible
file declares under the part before the point, unless that part is the label of a package. So a name
reaches nothing but exported declarations exactly where that part, if it is declared and no label,
is exported. -/
theorem export_gate_iff {top : Tree} {config : Config} {root : Place} {project : Project}
    (loads : (load top config root).result = .ok project) {σ : Type} (toolchain : Toolchain σ)
    (name : Text) (depth : Nat) (packages : PackageTable) (state : σ) :
    let found := (project.resolve toolchain name depth packages state).target
    ((∀ target, found = .ok target → project.Gated depth target) ↔
      ∀ qualifier member, name = qualifier ++ '.' :: member → '.' ∉ qualifier →
        ¬ project.Labels depth qualifier → project.Declares depth qualifier →
        Go.isExported qualifier = true) ∧
    (∀ symbol, found = .ok (.helper symbol) ↔
      ∃ file d, project.Offers depth name file d ∧ file.symbol d = symbol ∧
        ∀ other e, project.Offers depth name other e → other.depth ≤ file.depth) ∧
    ∀ qualifier member, found = .ok (.qualified qualifier member) ↔
      name = qualifier ++ '.' :: member ∧ '.' ∉ qualifier ∧
        ¬ project.Labels depth qualifier ∧ project.Declares depth qualifier := by
  intro found
  have loaded := loaded_of_load loads
  refine ⟨⟨?_, ?_⟩, ?_, fun _ _ => loaded.resolve_eq_qualified_iff⟩
  · intro gated qualifier member isName cut unlabelled declared
    exact (gated (.qualified qualifier member) (loaded.resolve_eq_qualified_iff.mpr
      ⟨isName, cut, unlabelled, declared⟩)).1
  · intro exported target reached
    cases target with
    | helper symbol =>
      obtain ⟨file, d, offers, rfl, -⟩ :=
        loaded.lookup?_iff_offers.mp (resolve_eq_helper_iff.mp reached)
      have isName : (file.symbol d).name = name := by
        simp [HelperFile.symbol, Go.Declaration.name, offers.names]
      exact ⟨file, d, isName ▸ offers, rfl⟩
    | qualified qualifier member =>
      obtain ⟨isName, cut, unlabelled, declared⟩ := loaded.resolve_eq_qualified_iff.mp reached
      exact ⟨exported qualifier member isName cut unlabelled declared, declared⟩
    | package => exact True.intro
  · intro symbol
    rw [resolve_eq_helper_iff, loaded.lookup?_iff_offers]

/-- A member of an exported variable is reached, and nothing that is not exported. -/
theorem exported_value_gated : ∃ project,
    (load (Program.twoFiles ["var Registry = table\x7b\x7d"] ["func Version() int \x7b\x7d"]) {}
      Project.proj).result = .ok project ∧
    let found := (project.resolve Evaluation.echo "Registry.Len".toList 1 [] ()).target
    found = .ok (.qualified "Registry".toList "Len".toList) ∧
      ∀ target, found = .ok target → project.Gated 1 target := by
  have summary : (load (Program.twoFiles ["var Registry = table\x7b\x7d"]
      ["func Version() int \x7b\x7d"]) {} Project.proj).result.toOption.map (fun project =>
        (project.resolve Evaluation.echo "Registry.Len".toList 1 [] ()).target.toOption) =
      some (some (.qualified "Registry".toList "Len".toList)) := by
    decide +kernel
  obtain ⟨project, loads, reached⟩ := Option.map_eq_some_iff.mp summary
  have loads := eq_ok_of_toOption loads
  refine ⟨project, loads, eq_ok_of_toOption reached, ?_⟩
  apply (export_gate_iff loads Evaluation.echo "Registry.Len".toList 1 [] ()).1.mpr
  intro qualifier member isName cut _ _
  have pair : cutAt? ['.'] "Registry.Len".toList = some ("Registry".toList, "Len".toList) := by
    decide
  rw [cutAt?_eq_some_iff.mpr ⟨isName, cut⟩] at pair
  obtain ⟨rfl, -⟩ := Prod.mk.inj (Option.some.inj pair)
  decide

/-- A member of a variable that is not exported is reached all the same. -/
theorem unexported_value_reached : ∃ project,
    (load (Program.twoFiles ["var registry = table\x7b\x7d"] ["func Version() int \x7b\x7d"]) {}
      Project.proj).result = .ok project ∧
    ∃ target, (project.resolve Evaluation.echo "registry.Len".toList 0 [] ()).target = .ok target ∧
      ¬ project.Gated 0 target := by
  have summary : (load (Program.twoFiles ["var registry = table\x7b\x7d"]
      ["func Version() int \x7b\x7d"]) {} Project.proj).result.toOption.map (fun project =>
        (project.resolve Evaluation.echo "registry.Len".toList 0 [] ()).target.toOption) =
      some (some (.qualified "registry".toList "Len".toList)) := by
    decide +kernel
  obtain ⟨project, loads, reached⟩ := Option.map_eq_some_iff.mp summary
  refine ⟨project, eq_ok_of_toOption loads, _, eq_ok_of_toOption reached, ?_⟩
  rintro ⟨exported, -⟩
  exact absurd exported (by decide)

end Project

end Prefill
