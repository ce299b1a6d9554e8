import Prefill.Proofs.Answering
import Prefill.Proofs.Callee
import Mathlib.Data.List.Lattice

/-!
Which declarations injection writes. The markers of a file ask for declarations one after another
(`wanted`), and one is written unless it has a key in common with the file or with one written before
(`emitted_eq_fresh`). So no key is declared twice (`emitted_apart`). A declaration is written or left
out as a whole: where it is left out for one of its names, the file may lack the others
(`dependency_declared_iff`, `dependencies_lost`).
-/

namespace Prefill

open Text

namespace Injection

/-! ## Declarations with free keys -/

section

variable {keys : List Text} {needed : List Go.Declaration} {d : Go.Declaration}

theorem any_contains_eq_false_iff :
    d.keys.any keys.contains = false ↔ List.Disjoint keys d.keys := by
  simp only [List.any_eq_false, List.contains_eq_mem, decide_eq_true_eq]
  exact ⟨fun free key taken has => free key has taken, fun free key has taken => free taken has⟩

theorem fresh_cons_of_free (free : List.Disjoint keys d.keys) (rest : List Go.Declaration) :
    fresh keys (d :: rest) = d :: fresh (keys ++ d.keys) rest := by
  rw [fresh, if_neg (by simp [any_contains_eq_false_iff.mpr free])]

theorem fresh_cons_of_taken (taken : ¬ List.Disjoint keys d.keys) (rest : List Go.Declaration) :
    fresh keys (d :: rest) = fresh keys rest := by
  rw [fresh, if_pos (by simpa [← any_contains_eq_false_iff] using taken)]

theorem fresh_append (keys : List Text) (before after : List Go.Declaration) :
    fresh keys (before ++ after) =
      fresh keys before ++ fresh (keys ++ (fresh keys before).flatMap (·.keys)) after := by
  induction before generalizing keys with
  | nil => simp [fresh]
  | cons d before ih =>
    rw [List.cons_append]
    by_cases free : List.Disjoint keys d.keys
    · rw [fresh_cons_of_free free, fresh_cons_of_free free, ih, List.cons_append,
        List.flatMap_cons, List.append_assoc]
    · rw [fresh_cons_of_taken free, fresh_cons_of_taken free, ih]

/-- **No key twice**: what is copied has no key that was taken, and no two copies share one. -/
theorem fresh_apart (keys : List Text) (needed : List Go.Declaration) :
    (fresh keys needed).Pairwise (fun a b => List.Disjoint a.keys b.keys) ∧
      ∀ d ∈ fresh keys needed, List.Disjoint keys d.keys := by
  induction needed generalizing keys with
  | nil => exact ⟨.nil, nofun⟩
  | cons d rest ih =>
    by_cases free : List.Disjoint keys d.keys
    · rw [fresh_cons_of_free free, List.pairwise_cons, List.forall_mem_cons]
      obtain ⟨apart, later⟩ := ih (keys ++ d.keys)
      refine ⟨⟨?_, apart⟩, free, ?_⟩
      · exact fun e copied => (List.disjoint_append_left.mp (later e copied)).2
      · exact fun e copied => (List.disjoint_append_left.mp (later e copied)).1
    · rw [fresh_cons_of_taken free]
      exact ih keys

/-- A declaration is copied where its keys are free when its turn comes. -/
theorem mem_fresh_iff : d ∈ fresh keys needed ↔ ∃ before after, needed = before ++ d :: after ∧
    List.Disjoint (keys ++ (fresh keys before).flatMap (·.keys)) d.keys := by
  constructor
  · intro copied
    induction needed generalizing keys with
    | nil => cases copied
    | cons e rest ih =>
      by_cases free : List.Disjoint keys e.keys
      · rw [fresh_cons_of_free free] at copied
        obtain rfl | copied := List.mem_cons.mp copied
        · exact ⟨[], rest, rfl, by simpa [fresh] using free⟩
        · obtain ⟨before, after, rfl, clear⟩ := ih copied
          refine ⟨e :: before, after, rfl, ?_⟩
          rwa [fresh_cons_of_free free, List.flatMap_cons, ← List.append_assoc]
      · rw [fresh_cons_of_taken free] at copied
        obtain ⟨before, after, rfl, clear⟩ := ih copied
        refine ⟨e :: before, after, rfl, ?_⟩
        rwa [fresh_cons_of_taken free]
  · rintro ⟨before, after, rfl, clear⟩
    rw [fresh_append, fresh_cons_of_free clear]
    exact List.mem_append_right _ (List.mem_cons_self ..)

/-- A declaration that is not copied has a key that was taken or that a copied one has. -/
theorem mem_fresh_or_overlap (member : d ∈ needed) : d ∈ fresh keys needed ∨
    ¬ List.Disjoint (keys ++ (fresh keys needed).flatMap (·.keys)) d.keys := by
  obtain ⟨before, after, rfl⟩ := List.append_of_mem member
  by_cases clear : List.Disjoint (keys ++ (fresh keys before).flatMap (·.keys)) d.keys
  · exact .inl (mem_fresh_iff.mpr ⟨before, after, rfl, clear⟩)
  · refine .inr fun free => clear ?_
    rw [fresh_append, List.flatMap_append, ← List.append_assoc] at free
    exact (List.disjoint_append_left.mp free).1

end

/-! ## What markers ask for -/

/-- The declarations that a marker asks for: the helper function and all that it needs. -/
def wanted (project : Project) (depth : Nat) (request : Request) : List Go.Declaration :=
  match helperFor? project depth request.method with
  | none => []
  | some (file, root) => (file.source.closure root).filterMap fun i => file.source.declarations[i]?

/-- The declarations in the regions of a file. -/
def emitted (project : Project) (depth : Nat) (stripped : Text) : List Go.Declaration :=
  (copies project depth stripped).flatMap (·.declarations)

theorem copiesFrom_declarations (project : Project) (depth : Nat) (keys : List Text)
    (requests : List Request) :
    (copiesFrom project depth keys requests).flatMap (·.declarations) =
      fresh keys (requests.flatMap (wanted project depth)) := by
  induction requests generalizing keys with
  | nil => rfl
  | cons request rest ih =>
    rw [copiesFrom, copyFor?, List.flatMap_cons, wanted]
    cases helperFor? project depth request.method with
    | none => exact ih keys
    | some found =>
      simp only [Option.map_some, List.flatMap_cons, fresh_append, ih]
      rfl

/-- **What is written**: of all that the markers ask for in turn, the declarations whose keys are
free. -/
theorem emitted_eq_fresh (project : Project) (depth : Nat) (stripped : Text) :
    emitted project depth stripped =
      fresh ((Go.Source.ofText stripped).declarations.flatMap (·.keys))
        ((requests (rawLines stripped)).flatMap (wanted project depth)) :=
  copiesFrom_declarations ..

theorem exists_written_of_inject {project : Project} {site : Fill.Site} {content : Text}
    {injected : Injected} (injects : (inject project site content).result = .ok injected) :
    ∃ stripped, Region.strip content = .ok stripped ∧
      injected = ⟨(written (Go.Source.ofText stripped) (rawLines stripped)
        (copies project site.depth stripped)).flatten, (copies project site.depth stripped).length⟩ := by
  rw [inject_result] at injects
  cases strips : Region.strip content with
  | error e =>
    rw [strips] at injects
    cases injects
  | ok stripped =>
    rw [strips] at injects
    exact ⟨stripped, rfl, (applyMarkers_ok injects).2.1⟩

/-- **Nothing is declared twice.** A file is written with the copies for its markers. The
declarations in all its regions have no key in common with each other, nor with a declaration that
the file has outside of regions. -/
theorem emitted_apart {project : Project} {site : Fill.Site} {content : Text} {injected : Injected}
    (injects : (inject project site content).result = .ok injected) :
    ∃ stripped, Region.strip content = .ok stripped ∧
      injected = ⟨(written (Go.Source.ofText stripped) (rawLines stripped)
        (copies project site.depth stripped)).flatten, (copies project site.depth stripped).length⟩ ∧
      (emitted project site.depth stripped).Pairwise (fun a b => List.Disjoint a.keys b.keys) ∧
      ∀ d ∈ emitted project site.depth stripped,
        ∀ own ∈ (Go.Source.ofText stripped).declarations, List.Disjoint own.keys d.keys := by
  obtain ⟨stripped, strips, made⟩ := exists_written_of_inject injects
  obtain ⟨apart, free⟩ := fresh_apart ((Go.Source.ofText stripped).declarations.flatMap (·.keys))
    ((requests (rawLines stripped)).flatMap (wanted project site.depth))
  rw [← emitted_eq_fresh] at apart free
  refine ⟨stripped, strips, made, apart, ?_⟩
  intro d copied own isOwn key has
  exact free d copied (List.mem_flatMap.mpr ⟨own, isOwn, has⟩)

/-- Two helper files that need a constant of the same name, the deeper one for decoding. -/
def coderFiles : Tree := Program.twoFiles
  ["const shift = 3", "", "func Encode() int \x7b", "\treturn shift", "\x7d"]
  ["const shift = 4", "", "func Decode() int \x7b", "\treturn -shift", "\x7d"]

/-- A file that asks for a function of each. -/
def coder : Text := ofLines
  ["package main", "", "//:inject:Encode", "//:inject:Decode", "type Coder interface \x7b",
    "\tEncode() int", "\tDecode() int", "\x7d"]

theorem coder_bare : Region.strip coder = .ok coder := by decide +kernel

theorem coder_summary : (Project.load coderFiles {} Project.proj).result.toOption.map (fun project =>
    ((inject project ⟨"main.go", 1⟩ coder).result.toOption.map (·.regions),
      (emitted project 1 coder).map (·.text),
      ((Go.Source.ofText coder).declarations ++ emitted project 1 coder).all (·.kind ≠ .method))) =
    some (some 2, ["const shift = 3".toList,
      "func Encode() int \x7b\n\treturn shift\n\x7d".toList,
      "func Decode() int \x7b\n\treturn -shift\n\x7d".toList], true) := by
  decide +kernel

/-- The constant is written once, in the first region. -/
theorem constant_written_once : ∃ project injected,
    (Project.load coderFiles {} Project.proj).result = .ok project ∧
      (inject project ⟨"main.go", 1⟩ coder).result = .ok injected ∧ injected.regions = 2 ∧
      (emitted project 1 coder).map (·.text) = ["const shift = 3".toList,
        "func Encode() int \x7b\n\treturn shift\n\x7d".toList,
        "func Decode() int \x7b\n\treturn -shift\n\x7d".toList] ∧
      (emitted project 1 coder).Pairwise (fun a b => List.Disjoint a.keys b.keys) := by
  obtain ⟨project, loads, seen⟩ := Option.map_eq_some_iff.mp coder_summary
  obtain ⟨done, seen⟩ := Prod.mk.inj seen
  obtain ⟨texts, -⟩ := Prod.mk.inj seen
  obtain ⟨injected, injects, regions⟩ := Option.map_eq_some_iff.mp done
  have injects := eq_ok_of_toOption injects
  obtain ⟨stripped, strips, -, apart, -⟩ := emitted_apart injects
  obtain rfl := Except.ok.inj (coder_bare.symm.trans strips)
  exact ⟨project, injected, eq_ok_of_toOption loads, injects, regions, texts, apart⟩

/-! ## What a file lacks -/

/-- A declaration comes, among those that are asked for, where the file has none of its keys. -/
def ComesFree (own asked : List Go.Declaration) (d : Go.Declaration) : Prop :=
  ∃ before after, asked = before ++ d :: after ∧
    ∀ p ∈ own ++ fresh (own.flatMap (·.keys)) before, List.Disjoint p.keys d.keys

theorem flatMap_keys_disjoint_iff {ds : List Go.Declaration} {keys : List Text} :
    List.Disjoint (ds.flatMap (·.keys)) keys ↔ ∀ d ∈ ds, List.Disjoint d.keys keys := by
  constructor
  · exact fun free d member key has => free (List.mem_flatMap.mpr ⟨d, member, has⟩)
  · intro free key has
    obtain ⟨d, member, has⟩ := List.mem_flatMap.mp has
    exact free d member has

theorem mem_emitted_iff {project : Project} {depth : Nat} {stripped : Text} {d : Go.Declaration} :
    d ∈ emitted project depth stripped ↔ ComesFree (Go.Source.ofText stripped).declarations
      ((requests (rawLines stripped)).flatMap (wanted project depth)) d := by
  rw [emitted_eq_fresh, mem_fresh_iff]
  simp only [ComesFree, ← flatMap_keys_disjoint_iff, List.flatMap_append]

theorem declares_of_mem_keys {d : Go.Declaration} {key : Text} (has : key ∈ d.keys)
    (scope : d.kind ≠ .method) : d.declares key = true := by
  unfold Go.Declaration.keys at has
  split at has
  · rename_i method _
    exact absurd method scope
  · simp [Go.Declaration.declares, scope, (List.mem_filter.mp has).1]

/-- **Which dependencies a file declares.** Let a helper function that a marker asks for need a
declaration of some name. The written file declares the name exactly if it did so before, or if one
of the declarations of the name that are asked for comes where none of its keys is taken. Where it
does not, the declaration has a key in common with one that the file has: another key than the name,
or that of a method without a type to belong to. -/
theorem dependency_declared_iff {project : Project} {site : Fill.Site} {content : Text}
    {injected : Injected} (injects : (inject project site content).result = .ok injected) :
    ∃ stripped, Region.strip content = .ok stripped ∧
      injected = ⟨(written (Go.Source.ofText stripped) (rawLines stripped)
        (copies project site.depth stripped)).flatten, (copies project site.depth stripped).length⟩ ∧
      let own := (Go.Source.ofText stripped).declarations
      let asked := (requests (rawLines stripped)).flatMap (wanted project site.depth)
      let all := own ++ emitted project site.depth stripped
      ∀ request ∈ requests (rawLines stripped), ∀ file root,
        helperFor? project site.depth request.method = some (file, root) →
        ∀ i ∈ file.source.closure root, ∀ d, file.source.declarations[i]? = some d →
        ∀ name, d.declares name = true →
          ((∃ p ∈ all, p.declares name = true) ↔ (∃ p ∈ own, p.declares name = true) ∨
            ∃ e, ComesFree own asked e ∧ e.declares name = true) ∧
          ((∀ p ∈ all, p.declares name = false) → ∃ p ∈ all, ∃ key ∈ p.keys, key ∈ d.keys ∧
            (key ≠ name ∨ p.kind = .method)) := by
  obtain ⟨stripped, strips, made⟩ := exists_written_of_inject injects
  refine ⟨stripped, strips, made, ?_⟩
  intro own asked all request asks file root found i reached d here name declares
  have isAsked : d ∈ asked := by
    refine List.mem_flatMap.mpr ⟨request, asks, ?_⟩
    rw [wanted, found]
    exact List.mem_filterMap.mpr ⟨i, reached, here⟩
  refine ⟨?_, fun missing => ?_⟩
  · simp only [all, List.mem_append, or_and_right, exists_or]
    exact or_congr_right (exists_congr fun e => and_congr_left fun _ => mem_emitted_iff)
  · have overlap : ¬ List.Disjoint (all.flatMap (·.keys)) d.keys := by
      have copied : all = own ++ fresh (own.flatMap (·.keys)) asked :=
        congrArg (own ++ ·) (emitted_eq_fresh ..)
      rw [copied, List.flatMap_append]
      refine (mem_fresh_or_overlap isAsked).resolve_left fun fresh => ?_
      have present : d ∈ all := copied ▸ List.mem_append_right _ fresh
      rw [missing d present] at declares
      cases declares
    rw [flatMap_keys_disjoint_iff] at overlap
    simp only [List.Disjoint, not_forall] at overlap
    obtain ⟨p, present, key, has, shared, -⟩ := overlap
    refine ⟨p, present, key, has, shared, ?_⟩
    by_contra both
    push Not at both
    obtain ⟨rfl, scope⟩ := both
    have declared := declares_of_mem_keys has scope
    rw [missing p present] at declared
    cases declared

/-- The function for decoding needs a constant, and the file has one of the name. -/
theorem constant_declared : ∃ project injected file root d,
    (Project.load coderFiles {} Project.proj).result = .ok project ∧
      (inject project ⟨"main.go", 1⟩ coder).result = .ok injected ∧
      helperFor? project 1 "Decode".toList = some (file, root) ∧ 0 ∈ file.source.closure root ∧
      file.source.declarations[0]? = some d ∧ d.text = "const shift = 4".toList ∧
      ∃ p ∈ (Go.Source.ofText coder).declarations ++ emitted project 1 coder,
        p.declares "shift".toList = true := by
  have seen : ((Project.load coderFiles {} Project.proj).result.toOption.bind fun project =>
      helperFor? project 1 "Decode".toList).map (fun found => (found.1.source.closure found.2,
        found.1.source.declarations[0]?.any fun d => d.text = "const shift = 4".toList &&
          d.keys = ["shift".toList] && d.declares "shift".toList)) = some ([0, 1], true) := by
    decide +kernel
  have asks : (⟨3, "Decode".toList, "//:inject:Decode\n".toList⟩ : Request) ∈
      requests (rawLines coder) := by decide +kernel
  obtain ⟨project, loads, done⟩ := Option.map_eq_some_iff.mp coder_summary
  simp only [Prod.mk.injEq, Option.map_eq_some_iff, List.all_eq_true, decide_eq_true_eq] at done
  obtain ⟨⟨injected, injects, -⟩, -, noMethod⟩ := done
  rw [loads, Option.bind_some] at seen
  obtain ⟨⟨file, root⟩, found, seen⟩ := Option.map_eq_some_iff.mp seen
  obtain ⟨reached, seen⟩ := Prod.mk.inj seen
  obtain ⟨d, here, isShift⟩ := (Option.any_eq_true _ _).mp seen
  simp only [Bool.and_eq_true, decide_eq_true_eq] at isShift
  obtain ⟨⟨text, keys⟩, declares⟩ := isShift
  have injects := eq_ok_of_toOption injects
  have first : 0 ∈ file.source.closure root := by simp [reached]
  obtain ⟨stripped, strips, -, settled⟩ := dependency_declared_iff injects
  obtain rfl := Except.ok.inj (coder_bare.symm.trans strips)
  obtain ⟨-, lost⟩ := settled _ asks file root found 0 first d here _ declares
  refine ⟨project, injected, file, root, d, eq_ok_of_toOption loads, injects, found, first, here,
    text, ?_⟩
  by_contra missing
  simp only [not_exists, not_and, Bool.not_eq_true] at missing
  obtain ⟨p, present, key, -, shared, other⟩ := lost missing
  rw [keys, List.mem_singleton] at shared
  exact noMethod p present (other.resolve_left fun differs => differs shared)

/-- Helper functions that need names from declarations of several names. -/
def rateFiles : Tree := Program.twoFiles
  ["const A, B = 1, 2", "", "const C, D = 3, 4", "", "func Sum() int \x7b", "\treturn A + D", "\x7d"]
  ["var limit, burst = 2, 3", "", "func Rate() int \x7b", "\treturn burst", "\x7d"]

/-- A file with a variable of its own that asks for the functions. -/
def rates : Text := ofLines
  ["package main", "", "//:inject:Sum", "//:inject:Rate", "type Rates interface \x7b",
    "\tSum() int", "\tRate() int", "\x7d", "", "var limit = 1"]

/-- Constants of one spec have a comma among their names, which clashes with the comma of any other
such spec, so that `Sum` is written without `C` and `D`. And `Rate` is written without `burst`, which
is declared together with a name that the file has. -/
theorem dependencies_lost : ∃ project injected,
    (Project.load rateFiles {} Project.proj).result = .ok project ∧
      (inject project ⟨"main.go", 1⟩ rates).result = .ok injected ∧ injected.regions = 2 ∧
      Region.strip rates = .ok rates ∧
      ∀ name ∈ ["C".toList, "D".toList, "burst".toList],
        (∃ request ∈ requests (rawLines rates), ∃ d ∈ wanted project 1 request,
          d.declares name = true) ∧
        ∀ p ∈ (Go.Source.ofText rates).declarations ++ emitted project 1 rates,
          p.declares name = false := by
  have summary : (Project.load rateFiles {} Project.proj).result.toOption.map (fun project =>
      ((inject project ⟨"main.go", 1⟩ rates).result.toOption.map (·.regions),
        decide (∀ name ∈ ["C".toList, "D".toList, "burst".toList],
          (∃ request ∈ requests (rawLines rates), ∃ d ∈ wanted project 1 request,
            d.declares name = true) ∧
          ∀ p ∈ (Go.Source.ofText rates).declarations ++ emitted project 1 rates,
            p.declares name = false))) = some (some 2, true) := by
    decide +kernel
  have bare : Region.strip rates = .ok rates := by decide +kernel
  obtain ⟨project, loads, seen⟩ := Option.map_eq_some_iff.mp summary
  obtain ⟨done, lost⟩ := Prod.mk.inj seen
  obtain ⟨injected, injects, regions⟩ := Option.map_eq_some_iff.mp done
  exact ⟨project, injected, eq_ok_of_toOption loads, eq_ok_of_toOption injects, regions, bare,
    of_decide_eq_true lost⟩

end Injection

end Prefill
