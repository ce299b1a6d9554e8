import Prefill.Proofs.ProgramImports

/-!
The package that a program calls. A placeholder that names a member of a package brings an import into
the program, beside those that its declarations need. The package gets the name that the placeholder
has for it, unless that stands for another one already; then it gets a name of its own. So the call
reaches the package that was meant (`callee_bound`). Imports that are there for their effect only are
all named alike, and a call through that name reaches none of them (`blank_callee_shared`).
-/

namespace Prefill

open Text

namespace Go.ImportTable

variable {table : ImportTable} {name : Text} {spec : ImportSpec}

theorem mem_put_self : (name, spec) ∈ table.put name spec :=
  mem_of_find? (by rw [find?_put, if_pos rfl])

/-- Where a table fits, an import that has a name stands under it. -/
theorem Fits.key_eq {entry : Text × ImportSpec} (fits : Fits entry)
    (named : entry.2.localName ≠ ['_']) : entry.2.localName = entry.1 :=
  fits.resolve_right fun blank => named blank.1

/-- **Names are given once**: the imports of a table that have a name have different ones. -/
theorem Formed.nodup_names (h : table.Formed) :
    ((table.specs.filter fun spec => spec.localName ≠ ['_']).map (·.localName)).Nodup := by
  rw [specs, List.filter_map, List.map_map, List.Nodup, List.pairwise_map]
  refine (h.ordered.sublist List.filter_sublist).imp_of_mem ?_
  intro a b inA inB less same
  obtain ⟨inA, namedA⟩ := List.mem_filter.mp inA
  obtain ⟨inB, namedB⟩ := List.mem_filter.mp inB
  have keyA := (h.fits a inA).key_eq (by simpa using namedA)
  have keyB := (h.fits b inB).key_eq (by simpa using namedB)
  simp only [Function.comp_apply, keyA, keyB] at same
  exact List.lt_irrefl b.1 (same ▸ less)

/-- An import that stands under its name is the only one with it. -/
theorem Formed.filter_of_mem (h : table.Formed) (member : (name, spec) ∈ table)
    (named : spec.localName = name) (someName : name ≠ ['_']) :
    table.specs.filter (fun spec => spec.localName = name) = [spec] := by
  obtain ⟨front, back, rfl⟩ := List.append_of_mem member
  have ordered := List.pairwise_append.mp h.ordered
  -- Another import of the name would stand under the same key.
  have noneIn (part : ImportTable) (sub : ∀ entry ∈ part, entry ∈ front ++ (name, spec) :: back)
      (apart : ∀ entry ∈ part, entry.1 ≠ name) :
      part.specs.filter (fun spec => spec.localName = name) = [] := by
    refine List.filter_eq_nil_iff.mpr ?_
    intro other isOther same
    obtain ⟨entry, inPart, rfl⟩ := List.mem_map.mp isOther
    have same : entry.2.localName = name := by simpa using same
    refine apart entry inPart ?_
    rw [← (h.fits entry (sub entry inPart)).key_eq (same ▸ someName), same]
  have inFront := noneIn front (fun entry member => List.mem_append_left _ member)
    fun entry member same => List.lt_irrefl name
      (same ▸ ordered.2.2 entry member (name, spec) (List.mem_cons_self ..))
  have inBack := noneIn back
    (fun entry member => List.mem_append_right _ (List.mem_cons_of_mem _ member))
    fun entry member same => List.lt_irrefl name
      (same ▸ (List.pairwise_cons.mp ordered.2.1).1 entry member)
  simp only [specs] at inFront inBack
  rw [specs, List.map_append, List.map_cons, List.filter_append, inFront, List.nil_append,
    List.filter_cons_of_pos (by simpa using named), inBack]

end Go.ImportTable

namespace Program

/-- The imports of a program that its own code does not use: what its declarations need, and what the
callee takes. -/
def helperImports (project : Project) (target : Target) (depth : Nat) : Go.ImportTable :=
  (callee ((kept (project.visible depth)).foldl importsFor ([], [])).1 target).2

theorem formed_helperImports (project : Project) (target : Target) (depth : Nat) :
    (helperImports project target depth).Formed :=
  formed_callee (formed_foldl_importsFor _) target

/-- A package that is called stands in the imports under the name that the call has for it: its own,
or the one for callees whose name is taken. -/
theorem callee_package (table : Go.ImportTable) (spec : Go.ImportSpec) (member : Text) :
    ∃ name bound, callee table (.package spec member) = (name ++ '.' :: member, table.put name bound) ∧
      bound.localName = name ∧ bound.path = spec.path ∧
      (name = spec.localName ∨ name = targetAlias) := by
  dsimp only [callee]
  split
  · exact ⟨targetAlias, ⟨some targetAlias, spec.path⟩, rfl, rfl, rfl, .inr rfl⟩
  · exact ⟨spec.localName, spec, rfl, rfl, rfl, .inl rfl⟩

/-- **The package that a program calls.** The call goes through a name under which the program imports
the package that was meant, its own name or the one for callees. It is the only import of that name
among those that helpers need, unless the name is blank. And no two of these have the same name, those
for effect only apart. -/
theorem callee_bound (project : Project) (depth : Nat) (arguments : List Text)
    (spec : Go.ImportSpec) (member : Text) :
    let program := (synthesize project (.package spec member) depth arguments).1
    let table := helperImports project (.package spec member) depth
    ∃ name, program.call = name ++ '.' :: member ++ '(' :: joinWith ", " arguments ++ [')'] ∧
      program.source = assemble table (kept (project.visible depth)) program.call ∧
      (name = spec.localName ∨ name = targetAlias) ∧
      (∃ bound ∈ table.specs, bound.localName = name ∧ bound.path = spec.path) ∧
      (name ≠ ['_'] → Binds table.specs name spec.path) ∧
      ((table.specs.filter fun spec => spec.localName ≠ ['_']).map (·.localName)).Nodup := by
  intro program table
  let collected := ((kept (project.visible depth)).foldl importsFor ([], [])).1
  obtain ⟨name, bound, calls, named, path, own⟩ := callee_package collected spec member
  have formed : table.Formed := formed_helperImports project (.package spec member) depth
  have entered : (name, bound) ∈ table := by
    show (name, bound) ∈ (callee collected (.package spec member)).2
    rw [calls]
    exact Go.ImportTable.mem_put_self
  have called : program.call =
      name ++ '.' :: member ++ '(' :: joinWith ", " arguments ++ [')'] := by
    show (callee collected (.package spec member)).1 ++ '(' :: joinWith ", " arguments ++ [')'] = _
    rw [calls]
  refine ⟨name, called, rfl, own, ?_, ?_, formed.nodup_names⟩
  · exact ⟨bound, List.mem_map_of_mem entered, named, path⟩
  · exact fun someName => ⟨bound, formed.filter_of_mem entered named someName, path⟩

/-- A helper file that imports a package for its effect. -/
def effectFiles : Tree := twoFiles ["import _ \"embed\"", "", "func Name() \x7b\x7d"] []

/-- The package that a blank name stands for, as the helper files have it. -/
def blankCallee : Target := .package ⟨some ['_'], "embed".toList⟩ "Files".toList

/-- A name before a point may be blank, and it is found among the imports for effect. The program then
imports the package twice under the blank name, and there is no name that is bound to it. -/
theorem blank_callee_shared : ∃ project,
    (Project.load effectFiles {} Project.proj).result = .ok project ∧
      (∀ file ∈ project.helpers, ∀ i ∈ file.source.imports, i.localName ≠ targetAlias) ∧
      project.member? 0 ['_'] "Files".toList = some blankCallee ∧
      ¬ ∃ name, (synthesize project blankCallee 0 []).1.call = name ++ ".Files()".toList ∧
        Binds (helperImports project blankCallee 0).specs name "embed".toList := by
  have summary : (Project.load effectFiles {} Project.proj).result.toOption.map (fun project =>
      (decide (∀ file ∈ project.helpers, ∀ i ∈ file.source.imports, i.localName ≠ targetAlias),
        decide (project.member? 0 ['_'] "Files".toList = some blankCallee),
        (synthesize project blankCallee 0 []).1.call,
        (helperImports project blankCallee 0).specs.countP fun spec => spec.localName = ['_'])) =
      some (true, true, "_.Files()".toList, 2) := by
    decide +kernel
  obtain ⟨project, loads, seen⟩ := Option.map_eq_some_iff.mp summary
  simp only [Prod.mk.injEq, decide_eq_true_eq] at seen
  obtain ⟨unreserved, found, call, twice⟩ := seen
  refine ⟨project, eq_ok_of_toOption loads, unreserved, found, ?_⟩
  rintro ⟨name, called, spec, only, -⟩
  have blank : ['_'] = name := List.append_cancel_right (call.symm.trans called)
  rw [List.countP_eq_length_filter, blank, only] at twice
  cases twice

end Program

end Prefill
