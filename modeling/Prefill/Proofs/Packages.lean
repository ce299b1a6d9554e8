import Prefill.Proofs.Answering
import Prefill.Proofs.Callee
import Prefill.Proofs.Opening
import Prefill.Proofs.Splicing

/-!
The packages of copied code. A declaration that is copied from a helper file refers to packages by
the names they have there. The file that it is copied into imports some package under each of these
names when it is written (`exists_import`): the one it imported before, or else the first that any
copied declaration needs under the name. Where that is another one than the declaration was written
against, there is a warning in the first case (`packages_kept`), but none in the second
(`template_taken`). All these imports stand in lines at the start of the file that are read without
an error (`importsFirst_written`).
-/

namespace Prefill

open Text

namespace Region

theorem terminateLast_of_ended {lines : List Text} (ended : ∀ line ∈ lines, Ended line) :
    terminateLast lines = lines := by
  fun_induction terminateLast lines with
  | case1 => rfl
  | case2 line => rw [terminated_of_ended (ended line (List.mem_singleton_self _))]
  | case3 line rest notSingle ih =>
    rw [List.forall_mem_cons] at ended
    rw [ih ended.2]

end Region

namespace Go

/-! ### Imports by name -/

theorem ImportSpec.localName_named (name path : Text) : (ImportSpec.named name path).localName = name := by
  unfold ImportSpec.named ImportSpec.localName
  split
  · assumption
  · rfl

theorem ImportTable.find?_specs {table : ImportTable}
    (named : ∀ entry ∈ table, entry.2.localName = entry.1) (name : Text) :
    table.specs.find? (fun spec => spec.localName = name) = table.find? name := by
  induction table with
  | nil => rfl
  | cons entry rest ih =>
    rw [List.forall_mem_cons] at named
    have later := ih named.2
    simp only [specs, ImportTable.find?, List.map_cons, List.find?_cons, named.1] at later ⊢
    split
    · rfl
    · exact later

theorem span_of_mem_interfaces {located : Located} {interface : Interface}
    (member : interface ∈ located.interfaces) : interface.span = located.span := by
  unfold Located.interfaces at member
  split at member
  · obtain ⟨spec, -, found⟩ := List.mem_filterMap.mp member
    unfold TypeSpec.interface? at found
    split at found
    · split at found
      · cases found
      · exact (congrArg Interface.span (Option.some.inj found)).symm
    · cases found
  · cases member

/-- An interface of a file is declared by an item outside the head. -/
theorem exists_item_of_interface {text : Text} {interface : Interface}
    (member : interface ∈ (Source.ofText text).interfaces) :
    ∃ located ∈ (File.parse text).items, located.item.isPreamble = false ∧
      interface.span = located.span := by
  obtain ⟨located, inFile, member⟩ := List.mem_flatMap.mp member
  refine ⟨located, inFile, ?_, span_of_mem_interfaces member⟩
  unfold Located.interfaces at member
  split at member
  · rename_i isType
    rw [isType]
    rfl
  · cases member

end Go

namespace Injection

/-! ### What is copied from where -/

theorem interfaceFor_eq_ok {target : Go.Source} {lines : List Text} {request : Request}
    {interface : Go.Interface} (h : interfaceFor target lines request = .ok interface) :
    ∃ index, nextCode? lines request.index = some index ∧
      target.interfaceAt? (index + 1) = some interface ∧
      interface.methods.contains request.method = true := by
  unfold interfaceFor at h
  split at h
  · cases h
  · rename_i found here
    split at h
    · rename_i hasMethod
      obtain rfl := Except.ok.inj h
      obtain ⟨index, next, here⟩ := Option.bind_eq_some_iff.mp here
      exact ⟨index, next, here, hasMethod⟩
    · cases h

theorem exists_of_mem_copiesFrom {project : Project} {depth : Nat} {keys : List Text}
    {requests : List Request} {copy : Copy} (member : copy ∈ copiesFrom project depth keys requests) :
    copy.request ∈ requests ∧ ∃ keys, copyFor? project depth keys copy.request = some copy := by
  induction requests generalizing keys with
  | nil => cases member
  | cons request rest ih =>
    unfold copiesFrom at member
    split at member
    · obtain ⟨inRest, found⟩ := ih member
      exact ⟨List.mem_cons_of_mem _ inRest, found⟩
    · rename_i first found
      obtain rfl | member := List.mem_cons.mp member
      · have asked : copy.request = request := by
          obtain ⟨_, -, rfl⟩ := Option.map_eq_some_iff.mp found
          rfl
        rw [asked]
        exact ⟨List.mem_cons_self .., keys, found⟩
      · obtain ⟨inRest, found⟩ := ih member
        exact ⟨List.mem_cons_of_mem _ inRest, found⟩

theorem insertion_of_ok {target : Go.Source} {lines : List Text} {copy : Copy}
    {interface : Go.Interface} (h : interfaceFor target lines copy.request = .ok interface) :
    copy.insertion target lines = ⟨interface.span.stop.line - 1, copy.lines⟩ := by
  rw [Copy.insertion, h]

variable {project : Project} {depth : Nat} {stripped : Text} {copy : Copy}

theorem request_of_mem_copies (member : copy ∈ copies project depth stripped) :
    copy.request ∈ requests (rawLines stripped) :=
  (exists_of_mem_copiesFrom member).1

theorem helper_of_mem_copies (member : copy ∈ copies project depth stripped) :
    copy.helper ∈ project.helpers := by
  obtain ⟨-, keys, found⟩ := exists_of_mem_copiesFrom member
  obtain ⟨⟨file, root⟩, helper, made⟩ := Option.map_eq_some_iff.mp found
  have isHelper : file = copy.helper := congrArg Copy.helper made
  rw [← isHelper]
  unfold helperFor? at helper
  simp only [Option.bind_eq_bind, Option.bind_eq_some_iff, Option.pure_def] at helper
  obtain ⟨symbol, -, found, inProject, _, -, pair⟩ := helper
  obtain ⟨rfl, -⟩ := Prod.mk.inj (Option.some.inj pair)
  exact List.mem_of_find?_eq_some inProject

/-! ### Imports that are written -/

theorem exists_import_of_need? {helper : Go.Source} {name : Text} {need : Need}
    (h : need? helper name = some need) : ∃ i, helper.import? name = some i ∧
      i.label ≠ some ['_'] ∧ i.label ≠ some ['.'] ∧ need = ⟨name, i.path⟩ := by
  obtain ⟨i, found, eq⟩ := Option.bind_eq_some_iff.mp h
  split at eq
  · cases eq
  · rename_i allowed
    simp only [Bool.or_eq_true, decide_eq_true_eq, not_or] at allowed
    exact ⟨i, found, allowed.1, allowed.2, (Option.some.inj eq).symm⟩

/-- What a helper file imports can be imported under the same name. -/
theorem writable_of_need? {content name : Text} {need : Need}
    (h : need? (Go.Source.ofText content) name = some need)
    (plain : ∀ c ∈ need.path, shown c = [c]) :
    (Go.ImportSpec.named need.name need.path).Writable := by
  obtain ⟨i, found, -, notPoint, rfl⟩ := exists_import_of_need? h
  obtain ⟨named, unquoted⟩ := Go.written_of_import (List.mem_of_find?_eq_some found)
  obtain rfl : i.localName = name := by simpa using List.find?_some found
  refine ⟨?_, plain, unquoted⟩
  intro label isLabel
  unfold Go.ImportSpec.named at isLabel
  split at isLabel
  · cases isLabel
  · rename_i differs
    obtain rfl := Option.some.inj isLabel
    -- A name that the path does not imply is one that the helper file has written.
    cases written : i.label with
    | none => exact absurd (by simp [Go.ImportSpec.localName, written]) differs
    | some label =>
      have same : i.localName = label := by simp [Go.ImportSpec.localName, written]
      rw [same]
      exact (named label written).resolve_right fun point => notPoint (by rw [written, point])

theorem writable_of_mem_entered {target : Go.Source} (loaded : project.Loaded)
    (plain : ∀ copy ∈ copies project depth stripped, ∀ need ∈ copy.needs,
      ∀ c ∈ need.path, shown c = [c]) {spec : Go.ImportSpec}
    (member : spec ∈ (entered target ((copies project depth stripped).flatMap Copy.needs)).specs) :
    spec.Writable := by
  obtain ⟨entry, inTable, rfl⟩ := List.mem_map.mp member
  obtain ⟨need, needed, rfl, -⟩ := exists_of_mem_entered inTable
  obtain ⟨copy, inCopies, needed⟩ := List.mem_flatMap.mp needed
  obtain ⟨path, content, read⟩ := loaded.read copy.helper (helper_of_mem_copies inCopies)
  have plain := plain copy inCopies need needed
  obtain ⟨d, -, needed⟩ := List.mem_flatMap.mp needed
  obtain ⟨name, -, found⟩ := List.mem_filterMap.mp needed
  rw [read] at found
  exact writable_of_need? found plain

/-! ### The text that is written -/

theorem addImports_below {target : Go.Source} {imports : Go.ImportTable} {head : List Text}
    (size : head.length = target.preambleEnd) (ended : ∀ line ∈ head, Ended line)
    (rest : List Text) : addImports target imports (head ++ rest) =
      head ++ ((if imports.isEmpty then [] else (if target.imports.isEmpty then [['\n']] else []) ++
        imports.specs.map Go.ImportSpec.line) ++ rest) := by
  have count : min target.preambleEnd (head ++ rest).length = head.length := by
    rw [List.length_append, size]
    omega
  rw [addImports]
  split
  · rfl
  · dsimp only
    rw [count, List.take_left, List.drop_left, Region.terminateLast_of_ended ended]
    simp only [List.append_assoc]
    rfl

/-- A text starts with lines that are read without an error, which import what a file imports and
then some packages more. -/
def ImportsFirst (target : Go.Source) (specs : List Go.ImportSpec) (text : Text) : Prop :=
  ∃ front added more, front <+: text ∧ (Go.Source.ofText front).hasErrors = false ∧
    (Go.Source.ofText front).imports = target.imports ++ added ∧
    (Go.Source.ofText text).imports = target.imports ++ added ++ more ∧
    added.map (·.toImportSpec) = specs

section

variable (answered : Answered stripped) (apart : Go.HeadApart stripped)
include answered apart

/-- Regions go below the head, after an item that stands there. -/
theorem insertion_below (member : copy ∈ copies project depth stripped) :
    (Go.Source.ofText stripped).preambleEnd ≤
        (copy.insertion (Go.Source.ofText stripped) (rawLines stripped)).after ∧
      ∃ located ∈ (Go.File.parse stripped).items,
        (Go.Source.ofText stripped).preambleEnd < located.span.start.line := by
  obtain ⟨interface, found⟩ := answered copy.request (request_of_mem_copies member)
  obtain ⟨index, -, here, -⟩ := interfaceFor_eq_ok found
  obtain ⟨located, inFile, notHead, span⟩ :=
    Go.exists_item_of_interface (List.mem_of_find?_eq_some here)
  obtain ⟨_, -, -, ordered⟩ := Go.exists_line_of_item inFile
  have below := apart.others located inFile notHead
  refine ⟨?_, located, inFile, below⟩
  rw [insertion_of_ok found, span]
  show _ ≤ located.span.stop.line - 1
  omega

/-- The lines of the head stand first, then the imports that are added. -/
theorem exists_written (someCopy : copies project depth stripped ≠ []) :
    let target := Go.Source.ofText stripped
    let imports := entered target ((copies project depth stripped).flatMap Copy.needs)
    ∃ rest, (written target (rawLines stripped) (copies project depth stripped)).flatten =
      (Go.headLines stripped).flatten ++ (if imports.isEmpty then []
        else (if target.imports.isEmpty then ['\n'] else []) ++
          imports.specs.flatMap Go.ImportSpec.line) ++ rest := by
  intro target imports
  obtain ⟨first, isFirst⟩ := List.exists_mem_of_ne_nil _ someCopy
  have later := (insertion_below answered apart isFirst).2
  obtain ⟨size, ended⟩ := Go.headLines_ended later
  have below : ∀ insertion ∈ (copies project depth stripped).map
      (Copy.insertion target (rawLines stripped)), target.preambleEnd ≤ insertion.after := by
    intro insertion member
    obtain ⟨copy, inCopies, rfl⟩ := List.mem_map.mp member
    exact (insertion_below answered apart inCopies).1
  have lines := Go.rawLines_eq_headLines_append stripped
  have someLine : (rawLines stripped).drop target.preambleEnd ≠ [] := by
    apply List.ne_nil_of_length_pos
    have fewer : target.preambleEnd < (rawLines stripped).length := Go.preambleEnd_lt_length later
    rw [List.length_drop]
    omega
  obtain ⟨rest, spliced⟩ : ∃ rest, Region.spliceAll (rawLines stripped)
      ((copies project depth stripped).map (Copy.insertion target (rawLines stripped))) =
        Go.headLines stripped ++ rest := by
    generalize (copies project depth stripped).map _ = insertions at below ⊢
    rw [lines, Region.spliceAll_below (fun _ => someLine) (by rwa [size])]
    exact ⟨_, rfl⟩
  refine ⟨rest.flatten, ?_⟩
  rw [written, spliced, addImports_below size ended]
  simp only [List.flatten_append, List.append_assoc]
  congr 2
  split
  · rfl
  · rw [List.flatten_append, List.flatMap_def]
    congr 1
    split <;> rfl

omit answered apart in
theorem importsFirst_of_opensWith {target : Go.Source} {front : Text} {heads new : List Go.Located}
    (opens : Go.OpensWith front (heads ++ new))
    (imported : target.imports = heads.flatMap (·.item.importsOf)) (rest : Text) :
    ImportsFirst target ((new.flatMap (·.item.importsOf)).map (·.toImportSpec)) (front ++ rest) := by
  have whole := opens.imports_append rest
  rw [List.flatMap_append, ← imported] at whole
  refine ⟨front, _, _, List.prefix_append .., opens.alone.1, ?_, whole, rfl⟩
  rw [opens.alone.2, List.flatMap_append, imported]

/-- **How the written file opens:** with lines that are read without an error, which import what the
file imported before and then what is entered. -/
theorem importsFirst_written (loaded : project.Loaded)
    (plain : ∀ copy ∈ copies project depth stripped, ∀ need ∈ copy.needs,
      ∀ c ∈ need.path, shown c = [c]) (someCopy : copies project depth stripped ≠ []) :
    let target := Go.Source.ofText stripped
    let all := copies project depth stripped
    ImportsFirst target (entered target (all.flatMap Copy.needs)).specs
      (written target (rawLines stripped) all).flatten := by
  intro target all
  generalize isImports : entered target _ = imports
  have writable : ∀ spec ∈ imports.specs, spec.Writable := by
    subst isImports
    exact fun spec member => writable_of_mem_entered loaded plain member
  obtain ⟨first, isFirst⟩ := List.exists_mem_of_ne_nil _ someCopy
  have later := (insertion_below answered apart isFirst).2
  obtain ⟨rest, whole⟩ := exists_written answered apart someCopy
  rw [isImports] at whole
  obtain ⟨space, empty, block⟩ : ∃ space : Text, (space = [] ∨ space = ['\n']) ∧
      (if imports.isEmpty then [] else (if target.imports.isEmpty then ['\n'] else []) ++
        imports.specs.flatMap Go.ImportSpec.line) =
          space ++ imports.specs.flatMap Go.ImportSpec.line := by
    cases imports with
    | nil => exact ⟨[], .inl rfl, rfl⟩
    | cons entry more =>
      refine ⟨if target.imports.isEmpty then ['\n'] else [], ?_, rfl⟩
      split
      · exact .inr rfl
      · exact .inl rfl
  by_cases someHead : 0 < target.preambleEnd
  · obtain ⟨heads, new, opens, imported, specs⟩ :=
      Go.opensWith_imports_below_head later apart someHead writable empty
    have starts := importsFirst_of_opensWith opens imported rest
    rw [specs, ← block] at starts
    rwa [whole]
  · have noHead : target.preambleEnd = 0 := by omega
    have noImports : target.imports = [] := Go.imports_of_no_head noHead
    have noLines : Go.headLines stripped = [] := by rw [Go.headLines, noHead, List.take_zero]
    cases imports with
    | nil =>
      exact ⟨[], [], _, List.nil_prefix, rfl, by rw [noImports]; rfl, by rw [noImports]; rfl, rfl⟩
    | cons entry more =>
      obtain ⟨new, specs, opens⟩ := Go.opensWith_imports writable
      have opens : Go.OpensWith _ ([] ++ new) := opens
      have starts := importsFirst_of_opensWith opens noImports rest
      rw [specs] at starts
      rw [noLines, show (Go.Source.ofText stripped).imports = [] from noImports] at whole
      rw [whole]
      exact starts

end

/-- **A package under every name that is needed:** the one that the file imported before, or else
the first that is needed under the name. -/
theorem exists_import {target : Go.Source} {needs : List Need} {added : List Go.Import}
    (specs : added.map (·.toImportSpec) = (entered target needs).specs) {need : Need}
    (needed : need ∈ needs) :
    ∃ taken, (target.imports ++ added).find? (fun i => i.localName = need.name) = some taken ∧
      (target.import? need.name = some taken ∨ target.import? need.name = none ∧
        ∃ first, needs.find? (fun other => other.name = need.name) = some first ∧
          taken.path = first.path) := by
  have found : (target.imports ++ added).find? (fun i => i.localName = need.name) =
      (target.import? need.name).or (added.find? fun i => i.localName = need.name) :=
    List.find?_append
  rw [found]
  cases present : target.import? need.name with
  | some i => exact ⟨i, rfl, .inl rfl⟩
  | none =>
    have named : ∀ entry ∈ entered target needs, entry.2.localName = entry.1 := by
      intro entry member
      obtain ⟨other, -, rfl, -⟩ := exists_of_mem_entered member
      exact Go.ImportSpec.localName_named ..
    have entered := Go.ImportTable.find?_specs named need.name
    rw [← specs, List.find?_map, entered_find? present] at entered
    have someFirst : (needs.find? fun other => other.name = need.name).isSome = true :=
      List.find?_isSome.mpr ⟨need, needed, by simp⟩
    obtain ⟨first, isFirst⟩ := Option.isSome_iff_exists.mp someFirst
    rw [isFirst, Option.map_some] at entered
    obtain ⟨i, inAdded, spec⟩ := Option.map_eq_some_iff.mp entered
    have inAdded : added.find? (fun i => i.localName = need.name) = some i := inAdded
    refine ⟨i, by rw [inAdded]; rfl, .inr ⟨rfl, first, isFirst, ?_⟩⟩
    exact congrArg Go.ImportSpec.path spec

/-- **The packages that copied code was written against.** Where a copied declaration refers to a
package by a name of its helper file, the written file imports a package under that name. It is the
same one, or one that the file imported before, with a warning, or the first one that any copied
declaration needs under the name. The imports stand in lines at the start of the file that are read
without an error, whatever the code below them is. -/
theorem packages_kept {top : Tree} {config : Config} {root : Place} {project : Project}
    (loads : (Project.load top config root).result = .ok project) {site : Fill.Site}
    {content stripped : Text} {injected : Injected}
    (strips : Region.strip content = .ok stripped)
    (injects : (inject project site content).result = .ok injected)
    (apart : Go.HeadApart stripped)
    (plain : ∀ copy ∈ copies project site.depth stripped, ∀ need ∈ copy.needs,
      ∀ c ∈ need.path, shown c = [c]) :
    let target := Go.Source.ofText stripped
    let all := copies project site.depth stripped
    injected = ⟨(written target (rawLines stripped) all).flatten, all.length⟩ ∧
      ∃ front, front <+: injected.text ∧ (Go.Source.ofText front).hasErrors = false ∧
      ∀ copy ∈ all, ∀ d ∈ copy.declarations, ∀ name ∈ d.qualifiers, ∀ i,
        copy.helper.source.import? name = some i → i.label ≠ some ['_'] → i.label ≠ some ['.'] →
        ∃ taken, (Go.Source.ofText injected.text).import? name = some taken ∧
          (Go.Source.ofText front).import? name = some taken ∧
          (taken.path = i.path ∨
            target.import? name = some taken ∧
              .warning site.file taken.span.start.line
                (s!"{str copy.request.method} needs {str i.path} as {quoted name}, " ++
                  s!"but this file imports {str taken.path} under that name") none ∈
                (inject project site content).events ∨
            target.import? name = none ∧ ∃ first,
              (all.flatMap Copy.needs).find? (fun need => need.name = name) = some first ∧
              taken.path = first.path) := by
  intro target all
  rw [inject_result, strips] at injects
  obtain ⟨answered, made, told⟩ := applyMarkers_ok injects
  refine ⟨made, ?_⟩
  by_cases noCopy : all = []
  · rw [noCopy]
    exact ⟨[], List.nil_prefix, rfl, nofun⟩
  obtain ⟨front, added, more, opens, errors, first, whole, specs⟩ :=
    importsFirst_written answered apart (Project.loaded_of_load loads) plain noCopy
  refine ⟨front, by rw [made]; exact opens, errors, ?_⟩
  intro copy member d copied name used i imported notBlank notPoint
  have need : need? copy.helper.source name = some ⟨name, i.path⟩ := by
    rw [need?, imported]
    simp [notBlank, notPoint]
  have needed : (⟨name, i.path⟩ : Need) ∈ copy.needs :=
    List.mem_flatMap.mpr ⟨d, copied, List.mem_filterMap.mpr ⟨name, used, need⟩⟩
  obtain ⟨taken, found, chosen⟩ := exists_import specs (List.mem_flatMap.mpr ⟨copy, member, needed⟩)
  refine ⟨taken, ?_, ?_, ?_⟩
  · rw [made, Go.Source.import?, whole, List.find?_append, found]
    rfl
  · rw [Go.Source.import?, first]
    exact found
  · obtain before | later := chosen
    · by_cases same : taken.path = i.path
      · exact .inl same
      · refine .inr (.inl ⟨before, mem_inject_events strips (told copy member _ ?_)⟩)
        refine List.mem_filterMap.mpr ⟨_, needed, ?_⟩
        rw [unlike?, before]
        simp [same]
    · exact .inr (.inr later)

/-- A directory with two helper files whose functions use packages of one name. -/
def templates : Tree :=
  let plain := ["import \"text/template\"", "", "func Plain(t template.Template) \x7b\x7d"]
  let safe := ["import \"html/template\"", "", "func Safe(t template.Template) \x7b\x7d"]
  .directory [("proj".toList, .directory [("a.go".toList, Project.helperTree plain),
    ("b.go".toList, Project.helperTree safe)])]

/-- A file that asks for both functions. -/
def pages (imports : String) : Text :=
  ("package main\n\n" ++ imports ++ "//:inject:Plain\n//:inject:Safe\n" ++
    "type Pages interface \x7b\n\tPlain()\n\tSafe()\n\x7d\n").toList

/-- The file keeps the package that it imported, and says that the first function needs another. -/
theorem template_warned : ∃ project injected taken,
    (Project.load templates {} Project.proj).result = .ok project ∧
      (inject project ⟨"main.go", 0⟩ (pages "import \"html/template\"\n")).result = .ok injected ∧
      (Go.Source.ofText injected.text).import? "template".toList = some taken ∧
      taken.path = "html/template".toList ∧
      .warning "main.go" taken.span.start.line
        ("Plain needs text/template as \"template\", but this file imports html/template " ++
          "under that name") none ∈
        (inject project ⟨"main.go", 0⟩ (pages "import \"html/template\"\n")).events := by
  have summary : (Project.load templates {} Project.proj).result.toOption.map (fun project =>
      ((copies project 0 (pages "import \"html/template\"\n")).map fun copy =>
          (copy.request.method, copy.needs),
        (inject project ⟨"main.go", 0⟩ (pages "import \"html/template\"\n")).result.toOption.map
          fun injected => ((Go.Source.ofText injected.text).import? "template".toList).map (·.path))) =
      some ([("Plain".toList, [⟨"template".toList, "text/template".toList⟩]),
        ("Safe".toList, [⟨"template".toList, "html/template".toList⟩])],
        some (some "html/template".toList)) := by
    decide +kernel
  have facts : Region.strip (pages "import \"html/template\"\n") =
        .ok (pages "import \"html/template\"\n") ∧
      Go.HeadApart (pages "import \"html/template\"\n") ∧
      ((Go.Source.ofText (pages "import \"html/template\"\n")).import? "template".toList).isSome := by
    decide +kernel
  obtain ⟨strips, apart, present⟩ := facts
  obtain ⟨project, loads, seen⟩ := Option.map_eq_some_iff.mp summary
  have loads := eq_ok_of_toOption loads
  obtain ⟨copied, done⟩ := Prod.mk.inj seen
  obtain ⟨injected, injects, imported⟩ := Option.map_eq_some_iff.mp done
  have injects := eq_ok_of_toOption injects
  have plain : ∀ copy ∈ copies project 0 (pages "import \"html/template\"\n"),
      ∀ need ∈ copy.needs, ∀ c ∈ need.path, shown c = [c] := by
    intro copy member
    have listed := List.mem_map_of_mem (f := fun copy : Copy => (copy.request.method, copy.needs)) member
    rw [copied] at listed
    have all : ([("Plain".toList, [(⟨"template".toList, "text/template".toList⟩ : Need)]),
        ("Safe".toList, [⟨"template".toList, "html/template".toList⟩])].all fun entry =>
          entry.2.all fun need => need.path.all fun c => shown c = [c]) = true := by decide +kernel
    simp only [List.all_eq_true, decide_eq_true_eq] at all
    exact all _ listed
  obtain ⟨copy, more, whole, first, -⟩ := List.map_eq_cons_iff.mp copied
  obtain ⟨method, needs⟩ := Prod.mk.inj first
  have needed : (⟨"template".toList, "text/template".toList⟩ : Need) ∈ copy.needs := by simp [needs]
  obtain ⟨d, declared, needed⟩ := List.mem_flatMap.mp needed
  obtain ⟨name, used, needed⟩ := List.mem_filterMap.mp needed
  obtain ⟨i, here, notBlank, notPoint, eq⟩ := exists_import_of_need? needed
  obtain ⟨rfl, path⟩ := Need.mk.inj eq
  obtain ⟨-, front, -, -, kept⟩ := packages_kept loads strips injects apart plain
  obtain ⟨taken, found, -, choice⟩ :=
    kept copy (by simp [whole]) d declared _ used i here notBlank notPoint
  rw [found] at imported
  have isHtml : taken.path = "html/template".toList := Option.some.inj imported
  refine ⟨project, injected, taken, loads, injects, found, isHtml, ?_⟩
  obtain same | ⟨-, warned⟩ | ⟨missing, -⟩ := choice
  · rw [isHtml, ← path] at same
    exact absurd same (by decide)
  · rw [method, ← path, isHtml] at warned
    exact warned
  · rw [missing] at present
    cases present

/-- Nothing is said when the file gets the package of the function that was copied first, which is
another one than the second function was written against. -/
theorem template_taken :
    (Project.load templates {} Project.proj).result.toOption.map (fun project =>
      let run := inject project ⟨"main.go", 0⟩ (pages "")
      ((copies project 0 (pages "")).map (fun copy => (copy.request.method, copy.needs)),
        run.result.toOption.map (fun injected =>
          ((Go.Source.ofText injected.text).import? "template".toList).map (·.path)),
        run.events.filterMap Event.diagnostic?)) =
      some ([("Plain".toList, [⟨"template".toList, "text/template".toList⟩]),
        ("Safe".toList, [⟨"template".toList, "html/template".toList⟩])],
        some (some "text/template".toList), []) := by
  decide +kernel

end Injection

end Prefill
