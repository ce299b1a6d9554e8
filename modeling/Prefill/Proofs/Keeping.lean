import Prefill.Proofs.Callee
import Mathlib.Data.List.Induction
import Mathlib.Data.List.Lattice

/-!
Which declarations go into a program. Declarations are judged in order, and what becomes of one
depends on the keys that the kept ones before it have taken. So the kept declarations have no key in
common, and one that is dropped has a key in common with a kept one before it. A declaration stays
or goes as a whole: where it is dropped for one of its names, its other names go with it.

* `judge_cut`: the verdict on a declaration at its place among the others;
* `kept_apart`: what is kept, and why the rest is not;
* `first_kept_iff`: when the first declaration of a name is kept;
* `names_lost`: names that go with a declaration dropped for another key.
-/

namespace Prefill

open Text

namespace Program

/-! ## One verdict after another -/

/-- A function with the name of the program's own one. -/
def isMain (origin : Origin) : Bool := origin.declaration.isFunction "main".toList

/-- A function of which a program may have several. -/
def isInit (origin : Origin) : Bool := origin.declaration.isFunction "init".toList

/-- The keys that kept declarations take from those after them. -/
def claimed (kept : List Origin) : List Text :=
  (kept.filter fun o => !isInit o).flatMap (·.declaration.keys)

theorem mem_claimed {kept : List Origin} {key : Text} :
    key ∈ claimed kept ↔ ∃ o ∈ kept, isInit o = false ∧ key ∈ o.declaration.keys := by
  simp [claimed, and_assoc]

theorem claimed_disjoint_iff {kept : List Origin} {keys : List Text} :
    List.Disjoint (claimed kept) keys ↔
      ∀ o ∈ kept, isInit o = false → List.Disjoint o.declaration.keys keys := by
  constructor
  · intro free o member notInit key has clash
    exact free (mem_claimed.mpr ⟨o, member, notInit, has⟩) clash
  · intro free key taken clash
    obtain ⟨o, member, notInit, has⟩ := mem_claimed.mp taken
    exact free o member notInit has clash

/-- What becomes of a declaration when some keys are taken. -/
def verdict (taken : List Text) (origin : Origin) : Verdict :=
  if isMain origin then .replaced
  else if isInit origin then .kept
  else if origin.declaration.keys.any taken.contains then .shadowed
  else .kept

theorem claimed_cons (o : Origin) (kept : List Origin) :
    claimed (o :: kept) =
      if isInit o then claimed kept else o.declaration.keys ++ claimed kept := by
  cases init : isInit o <;> simp [claimed, init]

theorem judge_append (seen : List Text) (before after : List Origin) :
    judge seen (before ++ after) =
      judge seen before ++ judge (seen ++ claimed (keptFrom seen before)) after := by
  induction before generalizing seen with
  | nil => simp [judge, keptFrom, claimed]
  | cons o before ih =>
    rw [List.cons_append, judge, judge, keptFrom_cons]
    split
    · rw [ih, List.cons_append]
    · split
      · rename_i init
        have init : isInit o = true := init
        rw [ih, List.cons_append, claimed_cons, if_pos init]
      · split
        · rw [ih, List.cons_append]
        · rename_i notInit _
          have notInit : ¬ isInit o = true := notInit
          rw [ih, List.cons_append, claimed_cons, if_neg notInit, List.append_assoc]

theorem keptFrom_append (seen : List Text) (before after : List Origin) :
    keptFrom seen (before ++ after) =
      keptFrom seen before ++ keptFrom (seen ++ claimed (keptFrom seen before)) after := by
  rw [keptFrom, judge_append, List.filter_append, List.map_append]
  rfl

theorem judge_cons (seen : List Text) (o : Origin) (rest : List Origin) :
    judge seen (o :: rest) =
      (o, verdict seen o) :: judge (seen ++ claimed (keptFrom seen [o])) rest := by
  have one : judge seen [o] = [(o, verdict seen o)] := by
    rw [judge, verdict, isMain, isInit]
    repeat' split
    all_goals simp_all only [judge]
  rw [← List.singleton_append, judge_append, one]
  rfl

theorem map_fst_judge (seen : List Text) (origins : List Origin) :
    (judge seen origins).map (·.1) = origins := by
  induction origins generalizing seen with
  | nil => rfl
  | cons o rest ih => rw [judge_cons, List.map_cons, ih]

theorem length_judge (seen : List Text) (origins : List Origin) :
    (judge seen origins).length = origins.length := by
  rw [← List.length_map, map_fst_judge]

/-- The kept ones among declarations that have been judged. -/
def keptOf (entries : List (Origin × Verdict)) : List Origin :=
  (entries.filter fun entry => entry.2 = .kept).map (·.1)

/-- **The verdict on a declaration** is decided by the keys that the kept ones before it take. -/
theorem judge_cut {seen : List Text} {origins : List Origin}
    {before after : List (Origin × Verdict)} {o : Origin} {v : Verdict}
    (cut : judge seen origins = before ++ (o, v) :: after) :
    v = verdict (seen ++ claimed (keptOf before)) o := by
  have places : before.map (·.1) ++ o :: after.map (·.1) = origins := by
    rw [← map_fst_judge seen origins, cut, List.map_append, List.map_cons]
  rw [← places, judge_append, judge_cons] at cut
  obtain ⟨front, back⟩ := List.append_inj cut (by rw [length_judge, List.length_map])
  have keptFront : keptFrom seen (before.map (·.1)) = keptOf before := by
    rw [keptFrom, front, keptOf]
  rw [keptFront] at back
  exact (Prod.mk.inj (List.cons.inj back).1).2.symm

theorem exists_cut_of_keptFrom {seen : List Text} {origins : List Origin} {o : Origin}
    (h : o ∈ keptFrom seen origins) :
    ∃ before after, judge seen origins = before ++ (o, .kept) :: after := by
  obtain ⟨⟨o, v⟩, isKept, rfl⟩ := List.mem_map.mp h
  obtain ⟨inEntries, isKept⟩ := List.mem_filter.mp isKept
  obtain rfl : v = .kept := by simpa using isKept
  exact List.append_of_mem inEntries

/-! ## What is kept -/

theorem verdict_of_isMain {taken : List Text} {o : Origin} (main : isMain o = true) :
    verdict taken o = .replaced := by
  rw [verdict, if_pos main]

theorem isMain_of_isInit {o : Origin} (init : isInit o = true) : isMain o = false := by
  obtain ⟨-, named⟩ := isFunction_iff.mp init
  simp [isMain, Go.Declaration.isFunction, named]

theorem verdict_of_isInit {taken : List Text} {o : Origin} (init : isInit o = true) :
    verdict taken o = .kept := by
  rw [verdict, if_neg (by simp [isMain_of_isInit init]), if_pos init]

/-- A declaration without a name that programs treat apart stays if its keys are free. -/
theorem verdict_eq_kept_iff {taken : List Text} {o : Origin} (notMain : isMain o = false)
    (notInit : isInit o = false) :
    verdict taken o = .kept ↔ List.Disjoint taken o.declaration.keys := by
  have overlap : o.declaration.keys.any taken.contains = true ↔
      ¬ List.Disjoint taken o.declaration.keys := by
    simp [List.Disjoint, and_comm]
  rw [verdict, if_neg (by simp [notMain]), if_neg (by simp [notInit])]
  by_cases free : List.Disjoint taken o.declaration.keys
  · simp [free, overlap]
  · simp [free, overlap]

theorem keptFrom_singleton (seen : List Text) (o : Origin) :
    keptFrom seen [o] = if verdict seen o = .kept then [o] else [] := by
  rw [keptFrom, judge_cons]
  split <;> simp_all [judge]

theorem isMain_of_verdict {taken : List Text} {o : Origin} (kept : verdict taken o = .kept) :
    isMain o = false := by
  by_contra main
  rw [verdict_of_isMain (by simpa using main)] at kept
  cases kept

/-- The declarations that are kept have no key in common. -/
theorem keptFrom_pairwise (origins : List Origin) :
    ((keptFrom [] origins).filter fun o => !isInit o).Pairwise fun a b =>
      List.Disjoint a.declaration.keys b.declaration.keys := by
  induction origins using List.reverseRecOn with
  | nil => exact .nil
  | append_singleton origins o ih =>
    rw [keptFrom_append, keptFrom_singleton, List.nil_append, List.filter_append]
    split
    · rename_i kept
      cases init : isInit o with
      | true => simpa [init] using ih
      | false =>
        have free := (verdict_eq_kept_iff (isMain_of_verdict kept) init).mp kept
        rw [List.filter_cons_of_pos (by simp [init]), List.filter_nil, List.pairwise_append]
        refine ⟨ih, List.pairwise_singleton .., ?_⟩
        intro p earlier b last
        obtain rfl := List.mem_singleton.mp last
        obtain ⟨inKept, notInit⟩ := List.mem_filter.mp earlier
        exact claimed_disjoint_iff.mp free p inKept (by simpa using notInit)
    · simpa using ih

/-- **Nothing is declared twice.** All declarations are judged in order. The kept ones have no key
in common, functions named `init` apart, which are all kept; no function named `main` is kept; and
any other one that is dropped has a key in common with a kept one before it. -/
theorem kept_apart (files : List HelperFile) :
    let entries := judge [] (origins files)
    entries.map (·.1) = origins files ∧
    kept files = keptOf entries ∧
    ((kept files).filter fun o => !isInit o).Pairwise (fun a b =>
      List.Disjoint a.declaration.keys b.declaration.keys) ∧
    (∀ o ∈ kept files, isMain o = false) ∧
    ∀ before o v after, entries = before ++ (o, v) :: after →
      (isInit o = true → v = .kept) ∧
      (v ≠ .kept → isMain o = false → ∃ p ∈ keptOf before, isInit p = false ∧
        ∃ key ∈ p.declaration.keys, key ∈ o.declaration.keys) := by
  intro entries
  refine ⟨map_fst_judge .., rfl, keptFrom_pairwise _, ?_, ?_⟩
  · intro o member
    obtain ⟨before, after, cut⟩ := exists_cut_of_keptFrom member
    exact isMain_of_verdict (judge_cut cut).symm
  · intro before o v after cut
    have decided := judge_cut cut
    refine ⟨fun init => decided.trans (verdict_of_isInit init), fun dropped notMain => ?_⟩
    have notInit : isInit o = false := by
      by_contra init
      exact dropped (decided.trans (verdict_of_isInit (by simpa using init)))
    have overlap : ¬ List.Disjoint (claimed (keptOf before)) o.declaration.keys := fun free =>
      dropped (decided.trans ((verdict_eq_kept_iff notMain notInit).mpr free))
    simp only [List.Disjoint, not_forall] at overlap
    obtain ⟨key, taken, has, -⟩ := overlap
    obtain ⟨p, inKept, pNotInit, pHas⟩ := mem_claimed.mp taken
    exact ⟨p, inKept, pNotInit, key, pHas, has⟩

/-! ## The first declaration of a name -/

/-- A declaration brings a name into the package; the functions that programs treat apart do not. -/
def introduces (name : Text) (o : Origin) : Bool :=
  o.declaration.declares name && !isMain o && !isInit o

theorem introduces_iff {name : Text} {o : Origin} :
    introduces name o = true ↔
      o.declaration.declares name = true ∧ isMain o = false ∧ isInit o = false := by
  simp [introduces, and_assoc]

/-- A name at package scope is a key, unless it is blank. -/
theorem mem_keys_of_introduces {name : Text} {o : Origin} (notBlank : name ≠ ['_'])
    (h : introduces name o = true) : name ∈ o.declaration.keys := by
  obtain ⟨declares, -⟩ := introduces_iff.mp h
  simp only [Go.Declaration.declares, decide_not, Bool.and_eq_true, Bool.not_eq_true',
    decide_eq_false_iff_not, List.contains_eq_mem, decide_eq_true_eq] at declares
  unfold Go.Declaration.keys
  split
  · rename_i method _
    exact absurd method declares.1
  · exact List.mem_filter.mpr ⟨declares.2, by simpa using notBlank⟩

theorem mem_of_keptFrom {seen : List Text} {origins : List Origin} {o : Origin}
    (h : o ∈ keptFrom seen origins) : o ∈ origins := by
  obtain ⟨before, after, cut⟩ := exists_cut_of_keptFrom h
  rw [← map_fst_judge seen origins, cut]
  simp

/-- What is kept has no key that was taken before, functions named `init` apart. -/
theorem disjoint_of_keptFrom {seen : List Text} {origins : List Origin} {o : Origin}
    (h : o ∈ keptFrom seen origins) (notInit : isInit o = false) :
    List.Disjoint seen o.declaration.keys := by
  obtain ⟨before, after, cut⟩ := exists_cut_of_keptFrom h
  have kept := (judge_cut cut).symm
  have free := (verdict_eq_kept_iff (isMain_of_verdict kept) notInit).mp kept
  exact fun key taken has => free (List.mem_append_left _ taken) has

/-- A name that is taken is not introduced again. -/
theorem filter_introduces_keptFrom {name : Text} (notBlank : name ≠ ['_']) {seen : List Text}
    (taken : name ∈ seen) (origins : List Origin) :
    (keptFrom seen origins).filter (introduces name) = [] := by
  refine List.filter_eq_nil_iff.mpr fun p isKept introduced => ?_
  obtain ⟨-, -, notInit⟩ := introduces_iff.mp introduced
  exact disjoint_of_keptFrom isKept notInit taken (mem_keys_of_introduces notBlank introduced)

/-- A declaration whose keys are free is kept, and takes its names from those after it. -/
theorem filter_introduces_of_free {name : Text} (notBlank : name ≠ ['_']) {taken : List Text}
    {o : Origin} (introduced : introduces name o = true)
    (free : List.Disjoint taken o.declaration.keys) (after : List Origin) :
    (keptFrom taken (o :: after)).filter (introduces name) = [o] := by
  obtain ⟨-, notMain, notInit⟩ := introduces_iff.mp introduced
  have here : keptFrom taken [o] = [o] := by
    rw [keptFrom_singleton, if_pos ((verdict_eq_kept_iff notMain notInit).mpr free)]
  have claims : name ∈ taken ++ claimed [o] := by
    refine List.mem_append_right _ (mem_claimed.mpr ⟨o, List.mem_singleton_self o, notInit, ?_⟩)
    exact mem_keys_of_introduces notBlank introduced
  rw [← List.singleton_append, keptFrom_append, here, List.filter_append,
    filter_introduces_keptFrom notBlank claims, List.append_nil, List.filter_singleton, introduced]
  rfl

/-- **When the first declaration of a name is kept**: exactly if it has no key in common with a
kept declaration before it. Then it is the only kept declaration of the name. Otherwise it is
dropped with all its names, also those that nothing before it declares. -/
theorem first_kept_iff (files : List HelperFile) {name : Text} (notBlank : name ≠ ['_'])
    {o : Origin} (first : (origins files).find? (introduces name) = some o) :
    let before := (origins files).takeWhile fun p => !introduces name p
    let clear := ∀ p ∈ keptFrom [] before, isInit p = false →
      List.Disjoint p.declaration.keys o.declaration.keys
    ((kept files).filter (introduces name) = [o] ↔ clear) ∧ (o ∈ kept files ↔ clear) := by
  intro before clear
  obtain ⟨introduced, front, after, cut, silent⟩ := List.find?_eq_some_iff_append.mp first
  have silent : ∀ p ∈ front, ¬ introduces name p = true := fun p member => by
    simpa using silent p member
  obtain ⟨-, -, notInit⟩ := introduces_iff.mp introduced
  have frontEq : before = front := by
    simp only [before, cut]
    rw [List.takeWhile_append_of_pos (by simpa using silent),
      List.takeWhile_cons_of_neg (by simp [introduced]), List.append_nil]
  have clearIff : List.Disjoint (claimed (keptFrom [] front)) o.declaration.keys ↔ clear := by
    simp only [clear, frontEq, claimed_disjoint_iff]
  have parts : kept files =
      keptFrom [] front ++ keptFrom (claimed (keptFrom [] front)) (o :: after) := by
    show keptFrom [] (origins files) = _
    rw [cut, keptFrom_append, List.nil_append]
  have clearOfMem (isKept : o ∈ kept files) : clear := by
    rw [parts, List.mem_append] at isKept
    obtain early | here := isKept
    · exact absurd introduced (silent o (mem_of_keptFrom early))
    · exact clearIff.mp (disjoint_of_keptFrom here notInit)
  have alone (free : clear) : (kept files).filter (introduces name) = [o] := by
    have noneEarly : (keptFrom [] front).filter (introduces name) = [] :=
      List.filter_eq_nil_iff.mpr fun p early => silent p (mem_of_keptFrom early)
    rw [parts, List.filter_append, noneEarly, List.nil_append,
      filter_introduces_of_free notBlank introduced (clearIff.mpr free)]
  have memOfAlone (only : (kept files).filter (introduces name) = [o]) : o ∈ kept files :=
    (List.mem_filter.mp (only ▸ List.mem_singleton_self o)).1
  exact ⟨⟨fun only => clearOfMem (memOfAlone only), alone⟩,
    clearOfMem, fun free => memOfAlone (alone free)⟩

/-- A helper file of the directory `proj`. -/
def helperAt (path : String) (body : List String) : HelperFile :=
  .ofText ⟨"proj".toList⟩ ⟨path.toList⟩ (Project.helperText body)

/-- A deeper file takes one of two variables away; the other one stays. -/
theorem other_variable_kept :
    let files := [helperAt "proj/sub/b.go" ["var Size = 1"],
      helperAt "proj/a.go" ["var Size = 2", "", "var Other = Size"]]
    ∃ o, (origins files).find? (introduces "Other".toList) = some o ∧
      o.declaration.text = "var Other = Size".toList ∧
      (kept files).filter (introduces "Other".toList) = [o] := by
  intro files
  have summary : ((origins files).find? (introduces "Other".toList)).map (fun o =>
      (o.declaration.text, o.declaration.keys)) =
        some ("var Other = Size".toList, ["Other".toList]) := by decide +kernel
  have before : (keptFrom [] ((origins files).takeWhile fun p =>
      !introduces "Other".toList p)).map (·.declaration.keys) = [["Size".toList]] := by
    decide +kernel
  obtain ⟨o, first, seen⟩ := Option.map_eq_some_iff.mp summary
  obtain ⟨text, keys⟩ := Prod.mk.inj seen
  refine ⟨o, first, text, (first_kept_iff files (by decide) first).1.mpr ?_⟩
  intro p early _
  have size := before ▸ List.mem_map_of_mem (f := fun o : Origin => o.declaration.keys) early
  rw [List.mem_singleton.mp size, keys]
  simp

/-- Constants of one spec have a comma among their names, which clashes with the comma of any other
such spec: no declaration of `C` is left. And a group goes as a whole where a deeper file has one of
its names: the group is the first to declare `Burst`, and a file above it is the one that counts. -/
theorem names_lost :
    let pairs := [helperAt "proj/a.go" ["const A, B = 1, 2", "", "const C, D = 3, 4"]]
    let levels := [helperAt "proj/sub/deep/c.go" ["const Limit = 7"],
      helperAt "proj/sub/b.go" ["const (", "\tLimit = iota", "\tBurst", ")"],
      helperAt "proj/a.go" ["const Burst = 9"]]
    let places (origins : List Origin) (name : String) : List Text :=
      (origins.filter (introduces name.toList)).map (·.file.path.text)
    places (origins pairs) "C" = ["proj/a.go".toList] ∧ places (kept pairs) "C" = [] ∧
      places (origins levels) "Burst" = ["proj/sub/b.go".toList, "proj/a.go".toList] ∧
      places (kept levels) "Burst" = ["proj/a.go".toList] := by
  decide +kernel

end Program

end Prefill
