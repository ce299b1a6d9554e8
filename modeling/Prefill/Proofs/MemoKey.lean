import Prefill.Proofs.Cuts
import Prefill.Proofs.Loading
import Prefill.Proofs.Memo

/-!
What a value is remembered under. The key is one text, glued from parts that may hold points of
their own, so it does not always tell callees apart.

* `identity_eq_iff`: two callees have one text exactly when they are one callee or `Collides` holds;
* `remembered_callee`: the same for the keys of a project that has been loaded, and for its runs;
* `package_answers_for_value`: a value gets the answer of a package whose path is its name.
-/

namespace Prefill

open Text

namespace Text

/-- Where the marks of two texts with a mark in them fall. -/
theorem append_cons_eq_append_cons_iff {a b c d : Text} {x y : Char} :
    a ++ x :: b = c ++ y :: d ↔ (a = c ∧ x = y ∧ b = d) ∨
      (∃ part, a = c ++ y :: part ∧ d = part ++ x :: b) ∨
      ∃ part, c = a ++ x :: part ∧ b = part ++ y :: d := by
  constructor
  · intro eq
    obtain ⟨part, rfl, rest⟩ | ⟨part, rfl, rest⟩ := List.append_eq_append_iff.mp eq
    · cases part with
      | nil => simp_all
      | cons z part =>
        obtain ⟨rfl, rfl⟩ := List.cons.inj rest
        exact .inr (.inr ⟨part, rfl, rfl⟩)
    · cases part with
      | nil => simp_all
      | cons z part =>
        obtain ⟨rfl, rfl⟩ := List.cons.inj rest
        exact .inr (.inl ⟨part, rfl, rfl⟩)
  · rintro (⟨rfl, rfl, rfl⟩ | ⟨part, rfl, rfl⟩ | ⟨part, rfl, rfl⟩) <;> simp

end Text

namespace Target

/-- The same function of a helper file, member of a package, or member of a value. -/
def SameCallee : Target → Target → Prop
  | .helper s, .helper t => s.path = t.path ∧ s.name = t.name
  | .package s member, .package t other => s.path = t.path ∧ member = other
  | .qualified s member, .qualified t other => s = t ∧ member = other
  | _, _ => False

/-- The parts around the point of a callee that is no helper. -/
def dotted? : Target → Option (Text × Text)
  | .helper _ => none
  | .package spec member => some (spec.path, member)
  | .qualified qualifier member => some (qualifier, member)

/-- Two callees that are not the same and yet read alike. -/
inductive Collides : Target → Target → Prop where
  /-- The path of a package is the name of a value. -/
  | alike {spec : Go.ImportSpec} {member : Text} :
    Collides (.package spec member) (.qualified spec.path member)
  /-- A part of a path is read as a part of a member. -/
  | shifted {spec : Go.ImportSpec} {base part member : Text} {t : Target} :
    spec.path = base ++ '.' :: part → t.dotted? = some (base, part ++ '.' :: member) →
      Collides (.package spec member) t
  /-- The end of a file name is read as a part of a member. -/
  | file {symbol : Symbol} {base part : Text} {t : Target} :
    symbol.path.text = base ++ '.' :: part → t.dotted? = some (base, part ++ '#' :: symbol.name) →
      Collides (.helper symbol) t

/-- The names that resolution gives: a helper is named by an identifier, and the name of a value
has no point. -/
def WellNamed : Target → Prop
  | .helper symbol => isIdentifier symbol.name = true
  | .package _ _ => True
  | .qualified qualifier _ => '.' ∉ qualifier

theorem exists_helper_of_dotted? {t : Target} (h : t.dotted? = none) :
    ∃ symbol, t = .helper symbol := by
  cases t with
  | helper symbol => exact ⟨symbol, rfl⟩
  | package | qualified => cases h

theorem identity_of_dotted? {t : Target} {base member : Text}
    (h : t.dotted? = some (base, member)) : t.identity = base ++ '.' :: member := by
  cases t with
  | helper symbol => cases h
  | package spec m =>
    obtain ⟨rfl, rfl⟩ := by simpa [dotted?] using h
    rfl
  | qualified q m =>
    obtain ⟨rfl, rfl⟩ := by simpa [dotted?] using h
    rfl

theorem Collides.identity_eq {s t : Target} (h : Collides s t) : s.identity = t.identity := by
  cases h with
  | alike => rfl
  | shifted path dotted =>
    rw [identity_of_dotted? dotted]
    simp [identity, path]
  | file path dotted =>
    rw [identity_of_dotted? dotted]
    simp [identity, path]

theorem Collides.not_sameCallee {s t : Target} (h : Collides s t) : ¬ SameCallee s t := by
  cases h with
  | alike => exact id
  | @shifted spec base part member t path dotted =>
    intro same
    cases t with
    | helper | qualified => exact same
    | package other m =>
      obtain ⟨rfl, -⟩ := by simpa [dotted?] using dotted
      have eq := same.1
      simp [path] at eq
  | @file symbol base part t path dotted =>
    intro same
    cases t with
    | helper => cases dotted
    | package | qualified => exact same

theorem SameCallee.symm {s t : Target} (h : SameCallee s t) : SameCallee t s := by
  cases s <;> cases t <;> first | exact h | exact ⟨h.1.symm, h.2.symm⟩

theorem SameCallee.identity_eq {s t : Target} (h : SameCallee s t) : s.identity = t.identity := by
  cases s <;> cases t <;> first | exact h.elim | simp [identity, h.1, h.2]

theorem not_mem_name {symbol : Symbol} (h : WellNamed (.helper symbol)) :
    '#' ∉ symbol.name ∧ '.' ∉ symbol.name :=
  ⟨not_mem_identifier h (by decide) (by decide), not_mem_identifier h (by decide) (by decide)⟩

theorem helper_of_identity_eq {s t : Symbol} (first : WellNamed (.helper s))
    (second : WellNamed (.helper t)) (h : identity (.helper s) = identity (.helper t)) :
    SameCallee (.helper s) (.helper t) := by
  obtain ⟨path, -, name⟩ | ⟨part, -, name⟩ | ⟨part, -, name⟩ := append_cons_eq_append_cons_iff.mp h
  · exact ⟨congrArg Path.mk path, name⟩
  · exact absurd (by simp [name]) (not_mem_name second).1
  · exact absurd (by simp [name]) (not_mem_name first).1

theorem file_of_identity_eq {symbol : Symbol} {t : Target} {base member : Text}
    (named : WellNamed (.helper symbol)) (dotted : t.dotted? = some (base, member))
    (h : identity (.helper symbol) = t.identity) : Collides (.helper symbol) t := by
  rw [identity_of_dotted? dotted] at h
  obtain ⟨-, mark, -⟩ | ⟨part, path, rfl⟩ | ⟨part, -, name⟩ := append_cons_eq_append_cons_iff.mp h
  · exact absurd mark (by decide)
  · exact .file path dotted
  · exact absurd (by simp [name]) (not_mem_name named).2

/-- A callee whose text before the point has a point of its own is a package. -/
theorem shifted_of_dotted? {s t : Target} {base part member : Text} (named : WellNamed s)
    (first : s.dotted? = some (base ++ '.' :: part, member))
    (second : t.dotted? = some (base, part ++ '.' :: member)) : Collides s t := by
  cases s with
  | helper => cases first
  | package spec m =>
    obtain ⟨path, rfl⟩ := by simpa [dotted?] using first
    exact .shifted path second
  | qualified q m =>
    obtain ⟨rfl, rfl⟩ := by simpa [dotted?] using first
    simp [WellNamed] at named

theorem same_of_dotted? {s t : Target} {base member : Text}
    (first : s.dotted? = some (base, member)) (second : t.dotted? = some (base, member)) :
    SameCallee s t ∨ Collides s t ∨ Collides t s := by
  cases s with
  | helper => cases first
  | package spec m =>
    obtain ⟨rfl, rfl⟩ := by simpa [dotted?] using first
    cases t with
    | helper => cases second
    | package other n =>
      obtain ⟨path, rfl⟩ := by simpa [dotted?] using second
      exact .inl ⟨path.symm, rfl⟩
    | qualified q n =>
      obtain ⟨rfl, rfl⟩ := by simpa [dotted?] using second
      exact .inr (.inl .alike)
  | qualified q m =>
    obtain ⟨rfl, rfl⟩ := by simpa [dotted?] using first
    cases t with
    | helper => cases second
    | package other n =>
      obtain ⟨rfl, rfl⟩ := by simpa [dotted?] using second
      exact .inr (.inr .alike)
    | qualified r n =>
      obtain ⟨rfl, rfl⟩ := by simpa [dotted?] using second
      exact .inl ⟨rfl, rfl⟩

theorem dotted_of_identity_eq {s t : Target} {base member other part : Text} (named : WellNamed s)
    (named' : WellNamed t) (first : s.dotted? = some (base, member))
    (second : t.dotted? = some (other, part)) (h : s.identity = t.identity) :
    SameCallee s t ∨ Collides s t ∨ Collides t s := by
  rw [identity_of_dotted? first, identity_of_dotted? second] at h
  obtain ⟨rfl, -, rfl⟩ | ⟨_, rfl, rfl⟩ | ⟨_, rfl, rfl⟩ := append_cons_eq_append_cons_iff.mp h
  · exact same_of_dotted? first second
  · exact .inr (.inl (shifted_of_dotted? named first second))
  · exact .inr (.inr (shifted_of_dotted? named' second first))

/-- **What the text of a callee tells.** -/
theorem identity_eq_iff {s t : Target} (named : WellNamed s) (named' : WellNamed t) :
    s.identity = t.identity ↔ SameCallee s t ∨ Collides s t ∨ Collides t s := by
  constructor
  · intro h
    cases first : s.dotted? with
    | none =>
      obtain ⟨symbol, rfl⟩ := exists_helper_of_dotted? first
      cases second : t.dotted? with
      | none =>
        obtain ⟨other, rfl⟩ := exists_helper_of_dotted? second
        exact .inl (helper_of_identity_eq named named' h)
      | some parts => exact .inr (.inl (file_of_identity_eq named second h))
    | some parts =>
      cases second : t.dotted? with
      | none =>
        obtain ⟨other, rfl⟩ := exists_helper_of_dotted? second
        exact .inr (.inr (file_of_identity_eq named' first h.symm))
      | some others => exact dotted_of_identity_eq named named' first second h
  · rintro (same | collides | collides)
    · exact same.identity_eq
    · exact collides.identity_eq
    · exact collides.identity_eq.symm

end Target

namespace Project

theorem eq_of_member? {project : Project} {depth : Nat} {qualifier member : Text} {t : Target}
    (h : project.member? depth qualifier member = some t) :
    (∃ path, t = .package (.named qualifier path) member) ∨ t = .qualified qualifier member := by
  unfold member? at h
  dsimp only at h
  split at h
  · exact .inl ⟨_, (Option.some.inj h).symm⟩
  · split at h
    · exact .inr (Option.some.inj h).symm
    · obtain ⟨i, -, rfl⟩ := Option.map_eq_some_iff.mp h
      exact .inl ⟨i.path, rfl⟩

/-- What a name can be: a function of the index, or a member of what stands before its point. -/
theorem resolve_cases {σ : Type} {project : Project} {toolchain : Toolchain σ} {name : Text}
    {depth : Nat} {packages : PackageTable} {state : σ} {t : Target}
    (h : (project.resolve toolchain name depth packages state).target = .ok t) :
    (∃ symbol, project.index.lookup? name depth = some symbol ∧ t = .helper symbol) ∨
      ∃ qualifier member, cutAt? ['.'] name = some (qualifier, member) ∧
        ((∃ path, t = .package (.named qualifier path) member) ∨
          t = .qualified qualifier member) := by
  unfold resolve at h
  split at h
  · rename_i symbol found
    exact .inl ⟨symbol, found, (Except.ok.inj h).symm⟩
  · split at h
    · cases h
    · rename_i qualifier member cut
      refine .inr ⟨qualifier, member, cut, ?_⟩
      split at h
      · rename_i target found
        obtain rfl := Except.ok.inj h
        exact eq_of_member? found
      · dsimp only at h
        split at h
        · exact .inl ⟨_, (Except.ok.inj h).symm⟩
        · cases h
        · cases h

theorem Loaded.wellNamed_of_resolve {σ : Type} {project : Project} (loaded : project.Loaded)
    {toolchain : Toolchain σ} {name : Text} {depth : Nat} {packages : PackageTable} {state : σ}
    {t : Target} (h : (project.resolve toolchain name depth packages state).target = .ok t) :
    t.WellNamed := by
  obtain ⟨symbol, found, rfl⟩ | ⟨qualifier, member, cut, ⟨path, rfl⟩ | rfl⟩ := resolve_cases h
  · obtain ⟨file, -, d, -, -, names, identifier, -, -, rfl⟩ := loaded.exists_of_lookup? found
    have isName : d.name = name := by simp [Go.Declaration.name, names]
    exact (congrArg isIdentifier isName).trans identifier
  · exact True.intro
  · exact not_mem_of_cutAt? cut

end Project

namespace Evaluation

/-- The digits of a depth have no mark in them, so that a key tells where they start. -/
theorem memoKey_eq_memoKey_iff {s t : Target} {depth other : Nat}
    {arguments arguments' : List Text} :
    memoKey s depth arguments = memoKey t other arguments' ↔
      s.identity = t.identity ∧ depth = other ∧ arguments = arguments' := by
  have unmarked (n : Nat) : '@' ∉ (toString n).toList := by
    rw [Nat.toString_eq_repr, Nat.toList_repr]
    intro mark
    exact absurd (Nat.isDigit_of_mem_toDigits (by decide) (by decide) mark) (by decide)
  have digits {m n : Nat} (eq : (toString m).toList = (toString n).toList) : m = n := by
    simp only [Nat.toString_eq_repr, Nat.toList_repr] at eq
    rw [← Nat.ofDigitChars_toDigits (b := 10) (n := m) (by decide) (by decide), eq,
      Nat.ofDigitChars_toDigits (by decide) (by decide)]
  constructor
  · intro eq
    obtain ⟨key, same⟩ := MemoKey.mk.inj eq
    obtain ⟨identity, -, eq⟩ | ⟨part, -, eq⟩ | ⟨part, -, eq⟩ :=
      append_cons_eq_append_cons_iff.mp key
    · exact ⟨identity, digits eq, same⟩
    · exact absurd (eq ▸ List.mem_append_right part List.mem_cons_self) (unmarked other)
    · exact absurd (eq ▸ List.mem_append_right part List.mem_cons_self) (unmarked depth)
  · rintro ⟨identity, rfl, rfl⟩
    simp [memoKey, identity]

/-- **What a remembered value tells of its callee.** Two keys of a project that has been loaded are
one exactly when the depths and the arguments are, and the callees are the same or read alike. So a
value that a run remembers for a placeholder is the answer to an earlier one with the same depth and
arguments, whose callee is the same or reads alike. -/
theorem remembered_callee {top : Tree} {config : Config} {root : Place} {project : Project}
    (loaded : (Project.load top config root).result = .ok project) {σ : Type}
    (toolchain : Toolchain σ) :
    (∀ {name name' : Text} {depth depth' : Nat} {packages packages' : PackageTable}
        {state state' : σ} {s t : Target},
      (project.resolve toolchain name depth packages state).target = .ok s →
      (project.resolve toolchain name' depth' packages' state').target = .ok t →
      (Target.Collides s t ∨ Target.Collides t s → ¬ Target.SameCallee s t) ∧
      ∀ arguments arguments', memoKey s depth arguments = memoKey t depth' arguments' ↔
        (Target.SameCallee s t ∨ Target.Collides s t ∨ Target.Collides t s) ∧
          depth = depth' ∧ arguments = arguments') ∧
    ∀ {tool : σ} {requests : List Request} {request : Request} {t : Target} {output : Text},
      request.Calls project toolchain (sessionAfter project toolchain config tool requests) t →
      (sessionAfter project toolchain config tool requests).executor.memo.find? (request.key t) =
        some output →
      ∃ before earlier s,
        Answered project toolchain config tool requests before earlier s output ∧
        (Target.SameCallee s t ∨ Target.Collides s t ∨ Target.Collides t s) ∧
        earlier.depth = request.depth ∧
        argumentsFor s earlier.placeholder.arguments =
          argumentsFor t request.placeholder.arguments := by
  have loaded := Project.loaded_of_load loaded
  constructor
  · intro name name' depth depth' packages packages' state state' s t first second
    refine ⟨?_, fun arguments arguments' => ?_⟩
    · rintro (collides | collides)
      · exact collides.not_sameCallee
      · exact fun same => collides.not_sameCallee same.symm
    · rw [memoKey_eq_memoKey_iff, Target.identity_eq_iff (loaded.wellNamed_of_resolve first)
        (loaded.wellNamed_of_resolve second)]
  · intro tool requests request t output calls found
    obtain ⟨entry, known, rfl⟩ := Option.map_eq_some_iff.mp found
    have keyed : entry.1 = request.key t := by simpa using List.find?_some known
    obtain ⟨before, earlier, s, answered, key⟩ :=
      exists_answered_of_mem_memo project toolchain config (List.mem_of_find?_eq_some known)
    have same : earlier.key s = request.key t := key.symm.trans keyed
    obtain ⟨identity, depths, arguments⟩ := memoKey_eq_memoKey_iff.mp same
    exact ⟨before, earlier, s, answered, (Target.identity_eq_iff
      (loaded.wellNamed_of_resolve answered.calls) (loaded.wellNamed_of_resolve calls)).mp identity,
      depths, arguments⟩

/-- A project of one helper file, which calls the package `log` by the name `std`. -/
def logging (body : String) : Tree :=
  let marks := "//go:build ignore\n//go:ahead functions\n//go:ahead import std=log\n"
  let text := marks ++ "\npackage main\n\n" ++ body
  .directory [("proj".toList, .directory [("a.go".toList, .file (Utf8.encode text.toList))])]

/-- A placeholder without arguments in a file at the top. -/
def asked (name : String) : Request := ⟨⟨name.toList, [], 1⟩, 0⟩

/-- Every program prints the call that it makes. -/
def echo : Toolchain Unit where
  run program s := (.ok ⟨true, some 0, program.call, []⟩, s)
  package _ s := (.ok none, s)

def logPrefix : Target := .package ⟨some "std".toList, "log".toList⟩ "Prefix".toList

/-- A package and a helper have two keys, and a package asked for again is answered as before. -/
theorem package_recalled : ∃ project session symbol,
    (Project.load (logging "func Prefix() string \x7b\x7d\n") {} Project.proj).result = .ok project ∧
    session = sessionAfter project echo {} () [asked "std.Prefix", asked "Prefix"] ∧
    (asked "std.Prefix").Calls project echo session logPrefix ∧
    (asked "Prefix").Calls project echo session (.helper symbol) ∧
    memoKey logPrefix 0 [] ≠ memoKey (.helper symbol) 0 [] ∧
    ∃ before earlier callee,
      Answered project echo {} () [asked "std.Prefix", asked "Prefix"] before earlier callee
        "std.Prefix()".toList ∧
      (Target.SameCallee callee logPrefix ∨ Target.Collides callee logPrefix ∨
        Target.Collides logPrefix callee) := by
  have summary : (Project.load (logging "func Prefix() string \x7b\x7d\n") {}
      Project.proj).result.toOption.map (fun project =>
        let session := sessionAfter project echo {} () [asked "std.Prefix", asked "Prefix"]
        ((project.resolve echo "std.Prefix".toList 0 session.packages ()).target.toOption,
          (project.index.lookup? "Prefix".toList 0).isSome,
          session.executor.memo.find? ((asked "std.Prefix").key logPrefix))) =
      some (some logPrefix, true, some "std.Prefix()".toList) := by
    decide +kernel
  obtain ⟨project, loads, seen⟩ := Option.map_eq_some_iff.mp summary
  have loads := eq_ok_of_toOption loads
  obtain ⟨package, rest⟩ := Prod.mk.inj seen
  obtain ⟨indexed, recalled⟩ := Prod.mk.inj rest
  obtain ⟨symbol, found⟩ := Option.isSome_iff_exists.mp indexed
  have callsPackage : (asked "std.Prefix").Calls project echo
      (sessionAfter project echo {} () [asked "std.Prefix", asked "Prefix"]) logPrefix :=
    eq_ok_of_toOption package
  have callsHelper : (asked "Prefix").Calls project echo
      (sessionAfter project echo {} () [asked "std.Prefix", asked "Prefix"]) (.helper symbol) := by
    simp only [Request.Calls, Project.resolve, asked, found]
  obtain ⟨keys, values⟩ := remembered_callee loads echo
  refine ⟨project, _, symbol, loads, rfl, callsPackage, callsHelper, fun same => ?_, ?_⟩
  · obtain ⟨same | collides | collides, -, -⟩ := ((keys callsPackage callsHelper).2 [] []).mp same
    · exact same
    · cases collides with
      | shifted path dotted => cases dotted
    · cases collides with
      | @file _ base part _ path dotted =>
        have mark : '#' ∈ "Prefix".toList := by
          have eq : "Prefix".toList = part ++ '#' :: symbol.name :=
            congrArg Prod.snd (Option.some.inj dotted)
          exact eq ▸ List.mem_append_right part List.mem_cons_self
        exact absurd mark (by decide)
  · obtain ⟨before, earlier, callee, answered, same, -, -⟩ := values callsPackage recalled
    exact ⟨before, earlier, callee, answered, same⟩

/-- A value gets the answer of the package whose path is its name. -/
theorem package_answers_for_value :
    (Project.load (logging "var log = logger\x7b\x7d\n") {}
        Project.proj).result.toOption.map (fun project =>
      let first := answer project echo {} (asked "std.Prefix") (.start ())
      let second := answer project echo {} (asked "log.Prefix") first.2
      ((project.resolve echo "log.Prefix".toList 0 [] ()).target.toOption,
        first.1.value.toOption, second.1.value.toOption)) =
      some (some (.qualified "log".toList "Prefix".toList),
        some ⟨"std.Prefix()".toList, .other⟩, some ⟨"std.Prefix()".toList, .other⟩) := by
  decide +kernel

end Evaluation

end Prefill
