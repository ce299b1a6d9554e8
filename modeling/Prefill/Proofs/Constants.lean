import Prefill.Go.Source
import Mathlib.Data.List.Basic

/-!
Constants in groups. The value of a constant may depend on its place in the group: `iota` counts the
specs, and a spec without values repeats the one before it. A group is taken apart only when all its
specs have values, so nothing is lost of the repetition; but a spec that stands alone is the first
of its group, whatever its place was.

* `Valuation.constants`: the values of the constants of a group;
* `constants_alone_iff`: when specs have the same values alone as in their group;
* `split_constants`: what becomes of the groups of a file;
* `second_iota_restarts`: a group that changes its values.
-/

namespace Prefill.Go

/-! ## Values -/

mutual

/-- Whether `iota` stands in a tree. -/
def Term.hasIota : Term → Bool
  | .name _ => false
  | .typeName _ => false
  | .qualified _ _ => false
  | .constant word => word = "iota".toList
  | .literal _ => false
  | .selector operand _ => operand.hasIota
  | .node _ parts => Term.anyIota parts

def Term.anyIota : List Term → Bool
  | [] => false
  | part :: rest => part.hasIota || Term.anyIota rest

end

theorem Term.anyIota_eq_any (terms : List Term) : anyIota terms = terms.any hasIota := by
  induction terms with
  | nil => rfl
  | cons t rest ih => rw [anyIota, ih, List.any_cons]

/-- Whether `iota` stands in the type or the values of a spec. -/
def ValueSpec.hasIota (s : ValueSpec) : Bool := Term.anyIota (s.type.toList ++ s.values)

theorem ValueSpec.hasIota_eq_false_iff {s : ValueSpec} (complete : s.values ≠ []) :
    s.hasIota = false ↔ ∀ e ∈ s.values, Term.anyIota (s.type.toList ++ [e]) = false := by
  obtain ⟨first, given⟩ := List.exists_mem_of_ne_nil _ complete
  simp only [hasIota, Term.anyIota_eq_any, List.any_append, Bool.or_eq_false_iff, List.any_cons,
    List.any_nil, Bool.or_false, List.any_eq_false (l := s.values), Bool.not_eq_true]
  exact ⟨fun without e member => ⟨without.1, without.2 e member⟩,
    fun without => ⟨(without first given).1, fun e member => (without e member).2⟩⟩

/-- A way to give values to expressions, where `iota` stands for a number. Where it does not stand
in an expression or its type, the number does not matter. -/
structure Valuation (V : Type) where
  value : (iota : Nat) → (type : Option Term) → Term → V
  steady : ∀ (i j : Nat) (type : Option Term) (e : Term),
    Term.anyIota (type.toList ++ [e]) = false → value i type e = value j type e

namespace Valuation

variable {V : Type} (v : Valuation V)

/-- The names and the values of specs from a place on; a spec without values has those of the spec
above it. -/
def constantsFrom (place : Nat) (above : Option Term × List Term) :
    List ValueSpec → List (List Text × List V)
  | [] => []
  | s :: rest =>
    let given := if s.values.isEmpty then above else (s.type, s.values)
    (s.names, given.2.map (v.value place given.1)) :: constantsFrom (place + 1) given rest

/-- The names and the values of the specs of a declaration. -/
def constants (specs : List ValueSpec) : List (List Text × List V) :=
  v.constantsFrom 0 (none, []) specs

/-- The names and the values of a spec that has values, at a place. -/
def atPlace (place : Nat) (s : ValueSpec) : List Text × List V :=
  (s.names, s.values.map (v.value place s.type))

/-- Without repetition every spec counts for itself. -/
theorem constantsFrom_eq_mapIdx {specs : List ValueSpec} (complete : ∀ s ∈ specs, s.values ≠ [])
    (place : Nat) (above : Option Term × List Term) :
    v.constantsFrom place above specs = specs.mapIdx fun i s => v.atPlace (place + i) s := by
  induction specs generalizing place above with
  | nil => rfl
  | cons s rest ih =>
    rw [List.forall_mem_cons] at complete
    have given : s.values.isEmpty = false := by simpa using complete.1
    rw [constantsFrom, List.mapIdx_cons, ih complete.2]
    simp [given, atPlace, Nat.add_comm, Nat.add_left_comm]

theorem constants_singleton (s : ValueSpec) : v.constants [s] = [v.atPlace 0 s] := by
  cases values : s.values <;> simp [constants, constantsFrom, atPlace, values]

/-- Knows of an expression no more than whether `iota` stands in it; then it is the place. -/
def byPlace : Valuation Nat where
  value i type e := if Term.anyIota (type.toList ++ [e]) then i else 0
  steady i j type e without := by simp [without]

end Valuation

/-- A spec with values has the same ones at the first place in all valuations, if it stands there or
`iota` does not stand in it. -/
theorem atPlace_eq_iff {s : ValueSpec} (complete : s.values ≠ []) (place : Nat) :
    (∀ (V : Type) (v : Valuation V), v.atPlace 0 s = v.atPlace place s) ↔
      place = 0 ∨ s.hasIota = false := by
  rw [s.hasIota_eq_false_iff complete]
  constructor
  · intro same
    refine or_iff_not_imp_left.mpr fun later e given => ?_
    have same := List.map_inj_left.mp (Prod.mk.inj (same Nat .byPlace)).2 e given
    by_contra mentions
    rw [Bool.not_eq_false] at mentions
    simp only [Valuation.byPlace, mentions, if_true] at same
    exact later same.symm
  · rintro (rfl | without) V v
    · rfl
    · refine Prod.ext rfl (List.map_congr_left fun e given => ?_)
      exact v.steady 0 place s.type e (without e given)

/-- **Specs that stand alone.** Specs with values give their names the values that they have in a
group, whatever expressions mean, exactly if `iota` stands in no spec after the first. -/
theorem constants_alone_iff {specs : List ValueSpec} (complete : ∀ s ∈ specs, s.values ≠ []) :
    (∀ (V : Type) (v : Valuation V), specs.flatMap (fun s => v.constants [s]) = v.constants specs) ↔
      ∀ s ∈ specs.tail, s.hasIota = false := by
  have each (V : Type) (v : Valuation V) :
      specs.flatMap (fun s => v.constants [s]) = v.constants specs ↔
        ∀ (i : Nat) (h : i < specs.length), v.atPlace 0 specs[i] = v.atPlace i specs[i] := by
    rw [Valuation.constants, v.constantsFrom_eq_mapIdx complete]
    simp only [v.constants_singleton, ← List.map_eq_flatMap, Nat.zero_add]
    simp [List.ext_getElem_iff]
  have places : (∀ (V : Type) (v : Valuation V),
      specs.flatMap (fun s => v.constants [s]) = v.constants specs) ↔
        ∀ (i : Nat) (h : i < specs.length), i = 0 ∨ specs[i].hasIota = false := by
    simp only [each]
    have complete (i : Nat) (h : i < specs.length) := complete _ (List.getElem_mem h)
    exact ⟨fun same i h => (atPlace_eq_iff (complete i h) i).mp fun V v => same V v i h,
      fun without V v i h => (atPlace_eq_iff (complete i h) i).mpr (without i h) V v⟩
  rw [places, List.forall_mem_iff_getElem]
  constructor
  · intro without i h
    rw [List.getElem_tail]
    exact (without (i + 1) _).resolve_left (by omega)
  · intro without i h
    cases i with
    | zero => exact .inl rfl
    | succ i =>
      have tail := without i (by rw [List.length_tail]; omega)
      rw [List.getElem_tail] at tail
      exact .inr tail

/-! ## Groups of a file -/

theorem exists_declarationsFrom (source : Text) (comments : List Comment) (start : Nat)
    (before : List Located) (group : Located) (after : List Located) :
    ∃ front doc back, declarationsFrom source comments start (before ++ group :: after) =
      front ++ group.item.declarations source group.span doc ++ back := by
  induction before generalizing start with
  | nil => exact ⟨[], _, _, rfl⟩
  | cons located before ih =>
    obtain ⟨front, doc, back, eq⟩ := ih located.span.stop.byte
    refine ⟨located.item.declarations source located.span (docComment comments start located) ++
      front, doc, back, ?_⟩
    rw [List.cons_append, declarationsFrom, eq]
    simp only [List.append_assoc]

/-- The specs of a group of constants. -/
def Item.constants? : Item → Option (List ValueSpec)
  | .declaration (.const true specs) => some specs
  | _ => none

theorem Item.eq_of_constants? {item : Item} {specs : List ValueSpec}
    (isGroup : item.constants? = some specs) : item = .declaration (.const true specs) := by
  unfold constants? at isGroup
  split at isGroup
  · rw [Option.some.inj isGroup]
  · cases isGroup

/-- Whether a group is taken apart: its parenthesis follows the keyword, and all specs have
values. -/
def comesApart (text : Text) (group : Located) (specs : List ValueSpec) : Bool :=
  opensGroup "const" (group.span.textIn text) && specs.all fun s => !s.values.isEmpty

/-- A group that stays one declaration. -/
def StaysWhole (text : Text) (group : Located) (specs : List ValueSpec) (ds : List Declaration) :
    Prop :=
  ds.map (fun d => (d.names, d.text)) =
    [(specs.flatMap fun s => constSpecNames s.names, group.span.textIn text)]

/-- A group with a declaration for each of its specs. -/
def TakenApart (text : Text) (specs : List ValueSpec) (ds : List Declaration) : Prop :=
  ds.map (fun d => (d.names, d.text)) =
    specs.map fun s => (constSpecNames s.names, "const ".toList ++ s.span.textIn text)

theorem declarations_const (text : Text) (group : Located) (doc : Option Text)
    {specs : List ValueSpec} (isGroup : group.item.constants? = some specs) :
    let ds := group.item.declarations text group.span doc
    (StaysWhole text group specs ds ∧ comesApart text group specs = false) ∨
      (TakenApart text specs ds ∧ ∀ s ∈ specs, s.values ≠ []) := by
  rw [Item.eq_of_constants? isGroup]
  simp only [Item.declarations, Decl.declarations, Decl.specs]
  cases specs with
  | nil => exact .inr ⟨rfl, nofun⟩
  | cons first rest =>
    simp only [List.map_cons]
    split
    · rename_i apart
      refine .inr ⟨?_, ?_⟩
      · simp [TakenApart, specDeclaration]
      · rw [Bool.and_eq_true] at apart
        simpa using apart.2
    · rename_i whole
      refine .inl ⟨?_, ?_⟩
      · simp [StaysWhole, specDeclaration, List.flatMap_map]
      · rw [Bool.not_eq_true] at whole
        simpa [comesApart] using whole

/-- **What becomes of a group of constants.** It stays one declaration with its text, or there is a
declaration for each spec with the text of the spec. In the second case the specs give their names
the same values as in the group, whatever expressions mean, exactly if `iota` stands in no spec
after the first. -/
theorem split_constants (text : Text) {before after : List Located} {group : Located}
    (items : (File.parse text).items = before ++ group :: after) {specs : List ValueSpec}
    (isGroup : group.item.constants? = some specs) :
    ∃ front ds back, (Source.ofText text).declarations = front ++ ds ++ back ∧
      ((StaysWhole text group specs ds ∧ comesApart text group specs = false) ∨
        TakenApart text specs ds ∧
          ((∀ (V : Type) (v : Valuation V),
              specs.flatMap (fun s => v.constants [s]) = v.constants specs) ↔
            ∀ s ∈ specs.tail, s.hasIota = false)) := by
  obtain ⟨front, doc, back, eq⟩ :=
    exists_declarationsFrom text (File.parse text).comments 0 before group after
  refine ⟨front, group.item.declarations text group.span doc, back, ?_, ?_⟩
  · rw [← eq, ← items]
    rfl
  · exact (declarations_const text group doc isGroup).imp_right fun apart =>
      ⟨apart.1, constants_alone_iff apart.2⟩

/-- Two constants with values of their own, of which only the first counts. -/
def counted : Text := "package main\n\nconst (\n\tNone = iota\n\tLimit = 8\n)\n".toList

theorem counted_apart :
    ∃ group ∈ (File.parse counted).items, ∃ specs, group.item.constants? = some specs ∧
      ∃ front ds back, (Source.ofText counted).declarations = front ++ ds ++ back ∧
        TakenApart counted specs ds ∧
        ∀ (V : Type) (v : Valuation V),
          specs.flatMap (fun s => v.constants [s]) = v.constants specs := by
  have summary : (File.parse counted).items.filterMap (fun group =>
      group.item.constants?.map fun specs =>
        (comesApart counted group specs, specs.tail.map ValueSpec.hasIota)) =
          [(true, [false])] := by
    decide +kernel
  obtain ⟨group, inFile, seen⟩ := List.mem_filterMap.mp (summary ▸ List.mem_singleton_self _)
  obtain ⟨specs, isGroup, facts⟩ := Option.map_eq_some_iff.mp seen
  obtain ⟨apart, without⟩ := Prod.mk.inj facts
  obtain ⟨before, after, items⟩ := List.append_of_mem inFile
  obtain ⟨front, ds, back, declared, ⟨-, whole⟩ | ⟨each, same⟩⟩ :=
    split_constants counted items isGroup
  · cases apart.symm.trans whole
  · refine ⟨group, inFile, specs, isGroup, front, ds, back, declared, each, same.mpr ?_⟩
    intro s later
    simpa [without] using List.mem_map_of_mem (f := ValueSpec.hasIota) later

/-- In the group the second constant is the number of its place; alone it is zero. -/
theorem second_iota_restarts :
    let text := "package main\n\nconst (\n\tLow = iota\n\tHigh = iota\n)\n".toList
    (File.parse text).hasErrors = false ∧
      (Source.ofText text).declarations.map (·.text) =
        ["const Low = iota".toList, "const High = iota".toList] ∧
      ((File.parse text).items.filterMap (·.item.constants?)).map (fun specs =>
          (Valuation.byPlace.constants specs,
            specs.flatMap fun s => Valuation.byPlace.constants [s])) =
        [([(["Low".toList], [0]), (["High".toList], [1])],
          [(["Low".toList], [0]), (["High".toList], [0])])] := by
  decide +kernel

end Prefill.Go
