import Prefill.Program
import Prefill.Proofs.Loading

/-!
What a call in a program means. The index and the program choose by rules of their own: the index
takes the deepest exported function of a name, the program keeps the first declaration of each name,
whatever kind it is.

* `filter_keptFrom`: of the declarations with the name of a function exactly one is kept;
* `kept_callee`: it is the function that the index finds, or a declaration of another kind that
  stands before that function;
* `variable_hides_function`: a variable of a deeper file hides the function.
-/

namespace Prefill

open Text

namespace Program

/-! ## Which declarations are kept -/

/-- The declarations that are kept when some keys are taken. -/
def keptFrom (seen : List Text) (origins : List Origin) : List Origin :=
  ((judge seen origins).filter fun entry => entry.2 = .kept).map (·.1)

/-- A declaration has a key. -/
def hasKey (key : Text) (origin : Origin) : Bool := origin.declaration.keys.contains key

theorem hasKey_iff {key : Text} {origin : Origin} :
    hasKey key origin = true ↔ key ∈ origin.declaration.keys := by
  simp [hasKey]

/-- A function has one name. -/
def Single (origin : Origin) : Prop :=
  origin.declaration.kind = .function → ∃ name, origin.declaration.names = [name]

theorem keptFrom_cons {seen : List Text} {origin : Origin} {rest : List Origin} :
    keptFrom seen (origin :: rest) =
      if origin.declaration.isFunction "main".toList then keptFrom seen rest
      else if origin.declaration.isFunction "init".toList then origin :: keptFrom seen rest
      else if origin.declaration.keys.any seen.contains then keptFrom seen rest
      else origin :: keptFrom (seen ++ origin.declaration.keys) rest := by
  unfold keptFrom
  rw [judge]
  repeat' split
  all_goals simp

theorem isFunction_iff {d : Go.Declaration} {name : Text} :
    d.isFunction name = true ↔ d.kind = .function ∧ d.name = name := by
  simp [Go.Declaration.isFunction]

/-- The keys of a function with one name. -/
theorem keys_of_function {origin : Origin} {name : Text}
    (function : origin.declaration.kind = .function) (names : origin.declaration.names = [name]) :
    origin.declaration.keys = [name].filter (· ≠ ['_']) := by
  simp [Go.Declaration.keys, function, names]

/-- The functions that a program treats apart do not have the key of an exported function. -/
theorem hasKey_of_special {key special : Text} {origin : Origin} (single : Single origin)
    (isSpecial : origin.declaration.isFunction special = true) (differ : key ≠ special) :
    hasKey key origin = false := by
  obtain ⟨function, named⟩ := isFunction_iff.mp isSpecial
  obtain ⟨name, names⟩ := single function
  obtain rfl : name = special := by simpa [Go.Declaration.name, names] using named
  rw [hasKey, keys_of_function function names]
  simp only [List.contains_eq_mem, decide_eq_false_iff_not, List.mem_filter, List.mem_singleton]
  exact fun member => differ member.1

section Exported

variable {key : Text} (exported : Go.isExported key = true)

include exported

theorem ne_special_of_isExported : key ≠ "main".toList ∧ key ≠ "init".toList ∧ key ≠ ['_'] := by
  refine ⟨?_, ?_, ?_⟩ <;> rintro rfl <;> exact absurd exported (by decide)

/-- A key that is taken is not kept again. -/
theorem filter_keptFrom_of_seen {origins : List Origin} (single : ∀ o ∈ origins, Single o)
    {seen : List Text} (taken : key ∈ seen) : (keptFrom seen origins).filter (hasKey key) = [] := by
  obtain ⟨-, notInit, -⟩ := ne_special_of_isExported exported
  induction origins generalizing seen with
  | nil => rfl
  | cons origin rest ih =>
    have first := single origin (by simp)
    have inner : ∀ o ∈ rest, Single o := fun o member => single o (List.mem_cons_of_mem _ member)
    rw [keptFrom_cons]
    split
    · exact ih inner taken
    · split
      · rename_i isInit
        rw [List.filter_cons_of_neg (by simp [hasKey_of_special first isInit notInit])]
        exact ih inner taken
      · split
        · exact ih inner taken
        · rename_i free
          have without : ¬ hasKey key origin = true := by
            intro has
            exact free (List.any_eq_true.mpr ⟨key, hasKey_iff.mp has, by simpa using taken⟩)
          rw [List.filter_cons_of_neg without]
          exact ih inner (List.mem_append_left _ taken)

/-- **A name is kept once.** The kept declaration is a given function of the name, or it stands
before that function. -/
theorem filter_keptFrom {before after : List Origin} {helper : Origin}
    (single : ∀ o ∈ before ++ helper :: after, Single o)
    (function : helper.declaration.kind = .function) (names : helper.declaration.names = [key])
    {seen : List Text} (free : key ∉ seen) :
    ∃ callee, (keptFrom seen (before ++ helper :: after)).filter (hasKey key) = [callee] ∧
      (callee = helper ∨ callee ∈ before) := by
  obtain ⟨notMain, notInit, notBlank⟩ := ne_special_of_isExported exported
  induction before generalizing seen with
  | nil =>
    have named : helper.declaration.name = key := by simp [Go.Declaration.name, names]
    have keys : helper.declaration.keys = [key] := by
      simp [keys_of_function function names, notBlank]
    have others : ∀ o ∈ after, Single o := fun o member => single o (by simp [member])
    refine ⟨helper, ?_, .inl rfl⟩
    rw [List.nil_append, keptFrom_cons]
    simp only [Go.Declaration.isFunction, named, notMain, notInit, decide_false, Bool.and_false,
      Bool.false_eq_true, if_false, keys, List.any_cons, List.any_nil, Bool.or_false,
      List.contains_eq_mem, free]
    rw [List.filter_cons_of_pos (by simp [hasKey, keys]),
      filter_keptFrom_of_seen exported others (by simp)]
  | cons origin before ih =>
    have first := single origin (by simp)
    have inner : ∀ o ∈ before ++ helper :: after, Single o :=
      fun o member => single o (List.mem_cons_of_mem _ member)
    have later : ∀ {seen : List Text}, key ∉ seen →
        ∃ callee, (keptFrom seen (before ++ helper :: after)).filter (hasKey key) = [callee] ∧
          (callee = helper ∨ callee ∈ origin :: before) := by
      intro seen free
      obtain ⟨callee, found, place⟩ := ih inner free
      exact ⟨callee, found, place.imp_right (List.mem_cons_of_mem _)⟩
    rw [List.cons_append, keptFrom_cons]
    split
    · exact later free
    · split
      · rename_i isInit
        rw [List.filter_cons_of_neg (by simp [hasKey_of_special first isInit notInit])]
        exact later free
      · split
        · exact later free
        · by_cases has : hasKey key origin = true
          · refine ⟨origin, ?_, .inr List.mem_cons_self⟩
            have taken : key ∈ seen ++ origin.declaration.keys :=
              List.mem_append_right _ (hasKey_iff.mp has)
            rw [List.filter_cons_of_pos has, filter_keptFrom_of_seen exported inner taken]
          · rw [List.filter_cons_of_neg has]
            refine later ?_
            rw [List.mem_append, ← hasKey_iff]
            exact not_or.mpr ⟨free, has⟩

end Exported

/-! ## What a call can see -/

theorem mem_origins {files : List HelperFile} {origin : Origin} :
    origin ∈ origins files ↔
      origin.file ∈ files ∧ origin.declaration ∈ origin.file.source.declarations := by
  constructor
  · intro member
    obtain ⟨file, inFiles, mapped⟩ := List.mem_flatMap.mp member
    obtain ⟨d, declared, rfl⟩ := List.mem_map.mp mapped
    exact ⟨inFiles, declared⟩
  · rintro ⟨inFiles, declared⟩
    exact List.mem_flatMap.mpr ⟨origin.file, inFiles, List.mem_map.mpr ⟨_, declared, rfl⟩⟩

theorem mem_visible {project : Project} {depth : Nat} {file : HelperFile} :
    file ∈ project.visible depth ↔ file ∈ project.helpers ∧ file.depth ≤ depth := by
  rw [Project.visible, mem_sortedBy]
  simp

/-- The declarations that a call can see stand with the deepest first. -/
theorem origins_visible_pairwise (project : Project) (depth : Nat) :
    (origins (project.visible depth)).Pairwise fun a b => b.file.depth ≤ a.file.depth := by
  have files := HelperFile.sorts_notBefore.sortedBy_pairwise
    (project.helpers.filter fun h => h.depth ≤ depth)
  rw [origins, List.pairwise_flatMap]
  refine ⟨?_, files.imp ?_⟩
  · intro file _
    rw [List.pairwise_map]
    exact List.pairwise_of_forall fun _ _ => Nat.le_refl _
  · intro a b ordered x inA y inB
    obtain ⟨_, -, rfl⟩ := List.mem_map.mp inA
    obtain ⟨_, -, rfl⟩ := List.mem_map.mp inB
    exact HelperFile.depth_le_of_notBefore ordered

theorem single_of_loaded {project : Project} (loaded : project.Loaded) (depth : Nat) :
    ∀ o ∈ origins (project.visible depth), Single o := by
  intro o member function
  obtain ⟨inFiles, declared⟩ := mem_origins.mp member
  obtain ⟨name, names, -⟩ :=
    HelperFile.exists_name (loaded.read o.file (mem_visible.mp inFiles).1) declared function
  exact ⟨name, names⟩

/-- A key that is an identifier is a name of the declaration: the key of a method has a point. -/
theorem mem_names_of_hasKey {key : Text} {origin : Origin} (identifier : isIdentifier key = true)
    (h : hasKey key origin = true) : key ∈ origin.declaration.names := by
  have member := hasKey_iff.mp h
  unfold Go.Declaration.keys at member
  split at member
  · obtain rfl := List.mem_singleton.mp member
    exact absurd (by simp) (not_mem_identifier identifier (by decide) (by decide) (c := '.'))
  · exact (List.mem_filter.mp member).1

/-- **The callee of a call.** Where the index finds a function for a name, the program declares the
name once. The declaration is that function, or one of another kind which stands before it: in a
deeper file, or earlier in the order of the files and of their text. -/
theorem kept_callee {top : Tree} {config : Config} {root : Place} {project : Project}
    (loaded : (Project.load top config root).result = .ok project) {name : Text} {depth : Nat}
    {symbol : Symbol} (found : project.index.lookup? name depth = some symbol) :
    ∃ callee, (kept (project.visible depth)).filter (hasKey name) = [callee] ∧
      name ∈ callee.declaration.names ∧
      (callee.declaration.kind = .function →
        callee.file.symbol callee.declaration = symbol) ∧
      (callee.declaration.kind ≠ .function → ∃ before helper after,
        origins (project.visible depth) = before ++ helper :: after ∧ callee ∈ before ∧
        helper.declaration.kind = .function ∧
        helper.file.symbol helper.declaration = symbol) := by
  have loaded := Project.loaded_of_load loaded
  obtain ⟨file, inProject, d, declared, function, names, identifier, exported, below, isSymbol⟩ :=
    loaded.exists_of_lookup? found
  have visible : Origin.mk file d ∈ origins (project.visible depth) :=
    mem_origins.mpr ⟨mem_visible.mpr ⟨inProject, below⟩, declared⟩
  obtain ⟨before, after, cut⟩ := List.append_of_mem visible
  have single := single_of_loaded loaded depth
  obtain ⟨callee, keeps, place⟩ :=
    filter_keptFrom exported (cut ▸ single) function names List.not_mem_nil
  have keptEq : kept (project.visible depth) = keptFrom [] (before ++ ⟨file, d⟩ :: after) := by
    rw [← cut]
    rfl
  have chosen : hasKey name callee = true :=
    (List.mem_filter.mp (keeps ▸ List.mem_singleton_self callee)).2
  have declares := mem_names_of_hasKey identifier chosen
  refine ⟨callee, keptEq ▸ keeps, declares, ?_, ?_⟩
  · intro isFunction
    obtain rfl | earlier := place
    · exact isSymbol
    have seen : callee ∈ origins (project.visible depth) := by simp [cut, earlier]
    obtain ⟨inVisible, stands⟩ := mem_origins.mp seen
    obtain ⟨inHelpers, near⟩ := mem_visible.mp inVisible
    obtain ⟨other, calleeNames⟩ := single callee seen isFunction
    obtain rfl : name = other := by simpa [calleeNames] using declares
    -- It stands before the function found, so that it is as deep; and nothing is deeper.
    have deep : symbol.depth ≤ callee.file.depth := by
      have ordered := origins_visible_pairwise project depth
      rw [cut] at ordered
      rw [← isSymbol]
      exact (List.pairwise_append.mp ordered).2.2 callee earlier _ List.mem_cons_self
    exact loaded.symbol_eq_of_lookup? found inHelpers stands isFunction calleeNames near deep
  · intro other
    obtain rfl | earlier := place
    · exact absurd function other
    · exact ⟨before, ⟨file, d⟩, after, cut, earlier, function, isSymbol⟩

/-- A directory with a helper file, and another one in a directory below. -/
def twoFiles (upper lower : List String) : Tree :=
  .directory [("proj".toList, .directory [("a.go".toList, Project.helperTree upper),
    ("sub".toList, .directory [("b.go".toList, Project.helperTree lower)])])]

/-- The function of the deeper file is called. -/
theorem deeper_function_called : ∃ project symbol callee,
    (Project.load (twoFiles ["func Version() string \x7b\x7d"] ["func Version() int \x7b\x7d"])
      {} Project.proj).result = .ok project ∧
    project.index.lookup? "Version".toList 1 = some symbol ∧
    symbol.path.text = "proj/sub/b.go".toList ∧
    (kept (project.visible 1)).filter (hasKey "Version".toList) = [callee] ∧
    callee.file.symbol callee.declaration = symbol := by
  have summary : (Project.load (twoFiles ["func Version() string \x7b\x7d"]
      ["func Version() int \x7b\x7d"]) {} Project.proj).result.toOption.map (fun project =>
        ((project.index.lookup? "Version".toList 1).map (·.path.text),
          ((kept (project.visible 1)).filter (hasKey "Version".toList)).map (·.declaration.kind))) =
      some (some "proj/sub/b.go".toList, [.function]) := by
    decide +kernel
  obtain ⟨project, loads, seen⟩ := Option.map_eq_some_iff.mp summary
  have loads := eq_ok_of_toOption loads
  obtain ⟨looked, kinds⟩ := Prod.mk.inj seen
  obtain ⟨symbol, found, path⟩ := Option.map_eq_some_iff.mp looked
  obtain ⟨callee, keeps, -, isSymbol, -⟩ := kept_callee loads found
  have kind : callee.declaration.kind = .function := by
    rw [keeps] at kinds
    exact List.singleton_inj.mp kinds
  exact ⟨project, symbol, callee, loads, found, path, keeps, isSymbol kind⟩

/-- The index finds the function of the upper file, and the program declares a variable. -/
theorem variable_hides_function :
    (Project.load (twoFiles ["func Version() string \x7b", "\treturn \"f\"", "\x7d"]
      ["var Version = \"v\""]) {} Project.proj).result.toOption.map (fun project =>
        ((project.index.lookup? "Version".toList 1).map fun s => (s.path.text, s.line),
          ((kept (project.visible 1)).filter (hasKey "Version".toList)).map fun o =>
            (o.file.path.text, o.declaration.kind))) =
      some (some ("proj/a.go".toList, 6), [("proj/sub/b.go".toList, .var)]) := by
  decide +kernel

end Program

end Prefill
