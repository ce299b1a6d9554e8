import Prefill.Proofs.Refusal

/-!
What is known of packages, through any names that are resolved one after another. A name that the
helper files explain asks for nothing; any other asks for the package before its point (`sought?`).
Where the toolchain says of a package always the same, the table of packages holds nothing but its
answers (`Sound`), so it changes no result.

* `resolve_explained`, `resolve_sought`: what one name does;
* `resolveAll_answers`: the results;
* `resolveAll_asked`: the packages that the toolchain is asked for;
* `lookups_remembered`: both together.
-/

namespace Prefill

open Text

variable {σ : Type}

/-! ## The table of packages -/

namespace PackageTable

/-- All that a table holds are answers of the toolchain. -/
def Sound (lookup : Text → Except ExecutionError (Option Text)) (table : PackageTable) : Prop :=
  ∀ name known, table.find? name = some known → lookup name = .ok known

theorem sound_nil (lookup : Text → Except ExecutionError (Option Text)) : Sound lookup [] := by
  intro name known found
  cases found

/-- The table after an answer: an error is not kept. -/
def enter (table : PackageTable) (name : Text) :
    Except ExecutionError (Option Text) → PackageTable
  | .ok path => table ++ [(name, path)]
  | .error _ => table

theorem find?_enter (table : PackageTable) (name other : Text)
    (answer : Except ExecutionError (Option Text)) :
    find? (table.enter name answer) other =
      (table.find? other).or (if name = other then answer.toOption else none) := by
  cases answer with
  | error cause =>
    rw [enter, Except.toOption, ite_self, Option.or_none]
  | ok path =>
    simp only [enter, find?, List.find?_append, Option.map_or, List.find?_singleton,
      decide_eq_true_eq]
    split <;> rfl

theorem Sound.enter {lookup : Text → Except ExecutionError (Option Text)} {table : PackageTable}
    (sound : Sound lookup table) (name : Text) : Sound lookup (table.enter name (lookup name)) := by
  intro other known isKnown
  rw [find?_enter, Option.or_eq_some_iff] at isKnown
  obtain before | ⟨-, last⟩ := isKnown
  · exact sound other known before
  · split at last
    · rename_i same
      rw [← same]
      cases said : lookup name with
      | error cause =>
        rw [said] at last
        cases last
      | ok path =>
        rw [said] at last
        rw [Option.some.inj last]
    · cases last

end PackageTable

/-- What the toolchain says of a package depends on its name alone. -/
def Toolchain.Fixed (toolchain : Toolchain σ)
    (lookup : Text → Except ExecutionError (Option Text)) : Prop :=
  ∀ name s, (toolchain.package name s).1 = lookup name

theorem Toolchain.Fixed.recording {toolchain : Toolchain σ}
    {lookup : Text → Except ExecutionError (Option Text)} (fixed : toolchain.Fixed lookup) :
    toolchain.recording.Fixed lookup :=
  fun name s => fixed name s.1

namespace PackageTable

variable {toolchain : Toolchain σ} {lookup : Text → Except ExecutionError (Option Text)}
  {table : PackageTable} {name : Text}

theorem resolve_known {known : Option Text} (found : table.find? name = some known) (s : σ) :
    table.resolve toolchain name s = (.ok known, [], table, s) := by
  rw [resolve, found]

theorem resolve_unknown (fixed : toolchain.Fixed lookup) (fresh : table.find? name = none) (s : σ) :
    let done := table.resolve toolchain name s
    done.1 = lookup name ∧ done.2.2.1 = table.enter name (lookup name) ∧
      done.2.2.2 = (toolchain.package name s).2 := by
  have answer := fixed name s
  rw [resolve, fresh]
  cases asked : toolchain.package name s with
  | mk said t =>
    rw [asked] at answer
    obtain rfl : said = lookup name := answer
    cases lookup name <;> exact ⟨rfl, rfl, rfl⟩

/-- **One package.** A sound table gives the answers of the toolchain, and stays sound. -/
theorem resolve_sound (fixed : toolchain.Fixed lookup) (sound : Sound lookup table) (name : Text)
    (s : σ) :
    (table.resolve toolchain name s).1 = lookup name ∧
      Sound lookup (table.resolve toolchain name s).2.2.1 := by
  cases found : table.find? name with
  | some known =>
    rw [resolve_known found]
    exact ⟨(sound name known found).symm, sound⟩
  | none =>
    obtain ⟨answer, entered, -⟩ := resolve_unknown fixed found s
    rw [entered]
    exact ⟨answer, sound.enter name⟩

end PackageTable

/-! ## One name -/

/-- What a name before a point and a member make, where the toolchain was asked for the name. -/
def Target.ofPackage (qualifier member : Text) :
    Except ExecutionError (Option Text) → Except ResolutionError Target
  | .ok (some path) => .ok (.package (.named qualifier path) member)
  | .ok none => .error (.unknownPackage qualifier)
  | .error cause => .error (.lookup qualifier cause)

/-- A name, and the depth that it is seen from. -/
structure Mention where
  name : Text
  depth : Nat
  deriving DecidableEq, Repr

namespace Project

/-- The package that a name asks the toolchain for: the part before its point, where neither the
index nor a helper file that is visible explains it. -/
def sought? (project : Project) (mention : Mention) : Option Text :=
  if (project.index.lookup? mention.name mention.depth).isSome then none
  else (cutAt? ['.'] mention.name).bind fun cut =>
    if (project.member? mention.depth cut.1 cut.2).isSome then none else some cut.1

variable {project : Project} {mention : Mention}

/-- A name that is explained without the toolchain leaves everything as it is. -/
theorem resolve_explained (explained : project.sought? mention = none) :
    ∃ target, ∀ {τ : Type} (toolchain : Toolchain τ) (packages : PackageTable) (s : τ),
      project.resolve toolchain mention.name mention.depth packages s =
        ⟨target, [], packages, s⟩ := by
  unfold sought? at explained
  unfold resolve
  cases index : project.index.lookup? mention.name mention.depth with
  | some symbol => exact ⟨_, fun _ _ _ => rfl⟩
  | none =>
    cases cut : cutAt? ['.'] mention.name with
    | none => exact ⟨_, fun _ _ _ => rfl⟩
    | some parts =>
      obtain ⟨qualifier, member⟩ := parts
      cases known : project.member? mention.depth qualifier member with
      | some target => exact ⟨.ok target, fun _ _ _ => by simp only [known]⟩
      | none => simp [index, cut, known] at explained

/-- Any other name is what the table and the toolchain say of the package before its point. -/
theorem resolve_sought {qualifier : Text} (sought : project.sought? mention = some qualifier) :
    ∃ member, ∀ {τ : Type} (toolchain : Toolchain τ) (packages : PackageTable) (s : τ),
      let found := project.resolve toolchain mention.name mention.depth packages s
      let looked := packages.resolve toolchain qualifier s
      found.target = Target.ofPackage qualifier member looked.1 ∧ found.packages = looked.2.2.1 ∧
        found.tool = looked.2.2.2 := by
  unfold sought? at sought
  unfold resolve
  cases index : project.index.lookup? mention.name mention.depth with
  | some symbol => simp [index] at sought
  | none =>
    cases cut : cutAt? ['.'] mention.name with
    | none => simp [index, cut] at sought
    | some parts =>
      obtain ⟨first, member⟩ := parts
      cases known : project.member? mention.depth first member with
      | some target => simp [index, cut, known] at sought
      | none =>
        obtain rfl : first = qualifier := by simpa [index, cut, known] using sought
        refine ⟨member, fun toolchain packages s => ?_⟩
        simp only [known, and_true]
        cases (packages.resolve toolchain first s).1 with
        | error cause => rfl
        | ok path => cases path <;> rfl

/-! ## Names one after another -/

section

variable (project : Project) (toolchain : Toolchain σ)

/-- Resolves names one after another, each with what is known of packages by then. -/
def resolveAll : List Mention → PackageTable → σ →
    List (Except ResolutionError Target) × PackageTable × σ
  | [], packages, s => ([], packages, s)
  | mention :: rest, packages, s =>
    let found := project.resolve toolchain mention.name mention.depth packages s
    let (more, packages, s) := resolveAll rest found.packages found.tool
    (found.target :: more, packages, s)

/-- What a name is found to be where nothing is known of packages. -/
def resolveAfresh (s : σ) (mention : Mention) : Except ResolutionError Target :=
  (project.resolve toolchain mention.name mention.depth [] s).target

/-- What the toolchain is asked, in order, when names are resolved from the start. -/
def lookups (s : σ) (mentions : List Mention) : List Query :=
  (resolveAll project toolchain.recording mentions [] (s, [])).2.2.2

end

section

variable {toolchain : Toolchain σ} {lookup : Text → Except ExecutionError (Option Text)}
  (fixed : toolchain.Fixed lookup)

include fixed

/-- A sound table changes no result, and stays sound. -/
theorem resolve_of_sound {packages : PackageTable} (sound : packages.Sound lookup)
    (mention : Mention) (s t : σ) :
    let found := project.resolve toolchain mention.name mention.depth packages s
    found.target = project.resolveAfresh toolchain t mention ∧ found.packages.Sound lookup := by
  cases asks : project.sought? mention with
  | none =>
    obtain ⟨target, explained⟩ := resolve_explained asks
    rw [resolveAfresh, explained, explained]
    exact ⟨rfl, sound⟩
  | some qualifier =>
    obtain ⟨member, resolved⟩ := resolve_sought asks
    obtain ⟨target, table, -⟩ := resolved toolchain packages s
    obtain ⟨afresh, -, -⟩ := resolved toolchain [] t
    obtain ⟨answer, entered⟩ := PackageTable.resolve_sound fixed sound qualifier s
    obtain ⟨again, -⟩ :=
      PackageTable.resolve_sound fixed (PackageTable.sound_nil lookup) qualifier t
    dsimp only at target table afresh ⊢
    rw [resolveAfresh, target, afresh, answer, again, table]
    exact ⟨rfl, entered⟩

/-- **The results** of names resolved one after another are those of each alone. -/
theorem resolveAll_answers {packages : PackageTable} (sound : packages.Sound lookup)
    (mentions : List Mention) (s t : σ) :
    (project.resolveAll toolchain mentions packages s).1 =
      mentions.map (project.resolveAfresh toolchain t) := by
  induction mentions generalizing packages s with
  | nil => rfl
  | cons mention rest ih =>
    obtain ⟨target, later⟩ := resolve_of_sound fixed sound mention s t
    rw [resolveAll, List.map_cons, ← ih later _, target]

/-- How often the toolchain is asked for a package that is sought so many times. -/
def due (lookup : Text → Except ExecutionError (Option Text)) (packages : PackageTable)
    (name : Text) (times : Nat) : Nat :=
  if (packages.find? name).isSome then 0 else if (lookup name).isOk then min 1 times else times

/-- **The packages that are asked for** are among those sought, in their order: one that is known
never, one that the toolchain has an answer for once, and one that it fails at each time. -/
theorem resolveAll_asked (mentions : List Mention) (packages : PackageTable) (s : σ)
    (log : List Query) :
    ∃ asked : List Text,
      (project.resolveAll toolchain.recording mentions packages (s, log)).2.2.2 =
        log ++ asked.map .package ∧
      asked.Sublist (mentions.filterMap project.sought?) ∧
      ∀ name, asked.count name =
        due lookup packages name ((mentions.filterMap project.sought?).count name) := by
  induction mentions generalizing packages s log with
  | nil => exact ⟨[], by simp [resolveAll], .slnil, by simp [due]⟩
  | cons mention rest ih =>
    rw [resolveAll]
    cases asks : project.sought? mention with
    | none =>
      obtain ⟨target, explained⟩ := resolve_explained asks
      rw [explained, List.filterMap_cons_none asks]
      exact ih packages s log
    | some qualifier =>
      obtain ⟨member, resolved⟩ := resolve_sought asks
      obtain ⟨-, table, tool⟩ := resolved toolchain.recording packages (s, log)
      rw [List.filterMap_cons_some asks, table, tool]
      cases known : packages.find? qualifier with
      | some path =>
        rw [PackageTable.resolve_known known]
        obtain ⟨asked, logged, among, counted⟩ := ih packages s log
        refine ⟨asked, logged, among.cons _, ?_⟩
        intro name
        rw [counted, due, due]
        by_cases same : qualifier = name
        · rw [← same, known]
          rfl
        · rw [List.count_cons_of_ne same]
      | none =>
        obtain ⟨-, entered, left⟩ :=
          PackageTable.resolve_unknown fixed.recording known (s, log)
        rw [entered, left]
        obtain ⟨asked, logged, among, counted⟩ := ih (packages.enter qualifier (lookup qualifier))
          (toolchain.package qualifier s).2 (log ++ [.package qualifier])
        refine ⟨qualifier :: asked, ?_, among.cons_cons _, ?_⟩
        · rw [List.map_cons, List.append_cons]
          exact logged
        · intro name
          by_cases same : qualifier = name
          · rw [← same, List.count_cons_self, List.count_cons_self, counted, due, due, known,
              PackageTable.find?_enter, known, if_pos rfl]
            cases lookup qualifier with
            | error cause => rfl
            | ok path => simp [Except.toOption, Except.isOk, Except.toBool]
          · rw [List.count_cons_of_ne same, List.count_cons_of_ne same, counted, due, due,
              PackageTable.find?_enter, if_neg same, Option.or_none]

/-- **Package lookups are remembered.** Names resolved one after another are found to be what each
is alone. The toolchain is asked for packages that the names seek, in their order: for one that it
has an answer for, also that there is none, the first time only, and for one that it fails at each
time. -/
theorem lookups_remembered (project : Project) (mentions : List Mention) (s : σ) :
    (∀ t, (project.resolveAll toolchain mentions [] s).1 =
      mentions.map (project.resolveAfresh toolchain t)) ∧
    ∃ asked : List Text, project.lookups toolchain s mentions = asked.map .package ∧
      asked.Sublist (mentions.filterMap project.sought?) ∧
      ∀ name, asked.count name =
        if (lookup name).isOk then min 1 ((mentions.filterMap project.sought?).count name)
        else (mentions.filterMap project.sought?).count name := by
  constructor
  · intro t
    exact resolveAll_answers fixed (PackageTable.sound_nil lookup) mentions s t
  · exact resolveAll_asked fixed mentions [] s []

end

/-- Of three packages the toolchain knows one, does not know another and fails at the third. Each
is sought twice, and only the third is asked for twice. -/
theorem failed_lookup_repeated :
    let lookup : Text → Except ExecutionError (Option Text) := fun name =>
      if name = "rand".toList then .ok (some "math/rand".toList)
      else if name = "net".toList then .error (.notWritten "disk full")
      else .ok none
    let toolchain : Toolchain Unit :=
      ⟨fun _ s => (.error (.notWritten "disk full"), s), fun name s => (lookup name, s)⟩
    let project : Project := ⟨⟨⟨"proj".toList⟩, ["proj".toList]⟩, [], .empty, [], []⟩
    let mentions : List Mention := ["rand.Int", "nope.A", "net.Dial", "rand.Seed", "nope.B",
      "net.Dial"].map fun name => ⟨name.toList, 0⟩
    toolchain.Fixed lookup ∧
      (project.resolveAll toolchain mentions [] ()).1 =
        mentions.map (project.resolveAfresh toolchain ()) ∧
      ∃ asked : List Text, project.lookups toolchain () mentions = asked.map .package ∧
        asked.count "rand".toList = 1 ∧ asked.count "nope".toList = 1 ∧
        asked.count "net".toList = 2 := by
  intro lookup toolchain project mentions
  have fixed : toolchain.Fixed lookup := fun name s => rfl
  obtain ⟨same, asked, logged, -, counted⟩ := lookups_remembered fixed project mentions ()
  refine ⟨fixed, same (), asked, logged, ?_, ?_, ?_⟩
  all_goals
    rw [counted]
    decide

end Project

end Prefill
