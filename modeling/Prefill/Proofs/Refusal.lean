import Prefill.Proofs.Filing
import Prefill.Proofs.Isolation
import Prefill.Proofs.Skipping

/-!
Sources that cannot be injected into. Such a source is counted and gets one error; the files, the
values found so far, what is known of packages and the toolchain stay as they are. So the sources
after it are worked through as if it were not there.

* `processFile_of_refusal`: what working through such a source does;
* `Beside`, `beside_sources`: two works that differ by what was said of one source stay so;
* `refused_source_alone`: a project with such a source, and the same project without it.
-/

namespace Prefill

open Text

/-- What a toolchain is asked. -/
inductive Query where
  | run (program : Program)
  | package (name : Text)
  deriving DecidableEq, Repr

/-- The toolchain that also writes down what it is asked. -/
def Toolchain.recording {σ : Type} (toolchain : Toolchain σ) : Toolchain (σ × List Query) where
  run program s :=
    let (answer, t) := toolchain.run program s.1
    (answer, t, s.2 ++ [.run program])
  package name s :=
    let (answer, t) := toolchain.package name s.1
    (answer, t, s.2 ++ [.package name])

namespace Run

variable {σ : Type}

/-- A work whose toolchain has not been asked anything yet. -/
def Work.recording (work : Work σ) : Work (σ × List Query) :=
  ⟨work.tree, work.report, work.events, .start (work.session.executor.tool, [])⟩

/-- What the toolchain is asked when a project is worked through, in order. -/
def queries (toolchain : Toolchain σ) (config : Config) (work : Work σ) (project : Project) :
    List Query :=
  (processProject toolchain.recording config work.recording project).session.executor.tool.2

/-! ## A source that is refused -/

/-- A file without markers and regions is not refused. -/
theorem marked_of_refusal {project : Project} {site : Fill.Site} {content : Text}
    {e : InjectionError} (refused : (Injection.inject project site content).result = .error e) :
    (!Marker.anyIn content && !Marker.anyRegionIn content) = false := by
  by_contra unmarked
  simp only [Bool.not_eq_false, Bool.and_eq_true, Bool.not_eq_true'] at unmarked
  rw [Injection.inject_unmarked project site unmarked.1 unmarked.2] at refused
  cases refused

/-- What is said of a source that is refused: the warnings on the way, then the error. -/
def refusal (project : Project) (place : Place) (content : Text) (e : InjectionError) : List Event :=
  let site : Fill.Site := ⟨place.path.display, project.depthOf place.path⟩
  (Injection.inject project site content).events ++ [.error site.file e.line e.message none]

theorem processFile_of_refusal {project : Project} (evaluate : Evaluator (Session σ)) {work : Work σ}
    {place : Place} {content : Text} {e : InjectionError}
    (here : work.tree.text place.address = .ok content)
    (refused : (Injection.inject project ⟨place.path.display, project.depthOf place.path⟩
      content).result = .error e) :
    processFile project evaluate work place =
      (work.tally 1 0 0 0).tell (refusal project place content e) := by
  have marked := marked_of_refusal refused
  simp [processFile, here, marked, generate, refused, refusal, Work.tell]

theorem refusal_tells (project : Project) (place : Place) (content : Text) (e : InjectionError) :
    Tells (fun d => d.file = place.path.display) (refusal project place content e) := by
  refine tells_append.mpr ⟨?_, tells_diagnostic.mpr ⟨rfl, tells_nil⟩⟩
  exact Injection.inject_tells (fun _ _ named => named) project content

/-! ## With the source and without it -/

/-- Two works that differ by what was said of one source, which was also counted. -/
structure Beside (early said late : List Event) (work other : Work σ) : Prop where
  tree : work.tree = other.tree
  session : work.session = other.session
  report : work.report = { other.report with filesScanned := other.report.filesScanned + 1 }
  events : work.events = early ++ said ++ late
  events' : other.events = early ++ late

theorem Beside.start (said : List Event) (work : Work σ) :
    Beside work.events said [] ((work.tally 1 0 0 0).tell said) work :=
  ⟨rfl, rfl, rfl, (List.append_nil _).symm, (List.append_nil _).symm⟩

theorem Beside.tell {early said late : List Event} {work other : Work σ}
    (h : Beside early said late work other) (more : List Event) :
    Beside early said (late ++ more) (work.tell more) (other.tell more) := by
  refine ⟨h.tree, h.session, h.report, ?_, ?_⟩
  · rw [Work.tell, h.events, List.append_assoc]
  · rw [Work.tell, h.events', List.append_assoc]

/-- Where the rest is silent, what was said of the source comes after what was there. -/
theorem Beside.remarks {early said late : List Event} {work other : Work σ}
    (h : Beside early said late work other) {about : Diagnostic → Bool} {base : List Diagnostic}
    (first : (diagnosticsOf early).filter about = base)
    (both : (diagnosticsOf other.events).filter about = base) :
    (diagnosticsOf work.events).filter about = base ++ (diagnosticsOf said).filter about := by
  rw [h.events', diagnosticsOf_append, List.filter_append, first] at both
  have silent : (diagnosticsOf late).filter about = [] :=
    List.append_cancel_left (both.trans (List.append_nil _).symm)
  rw [h.events, diagnosticsOf_append, diagnosticsOf_append, List.filter_append, List.filter_append,
    first, silent, List.append_nil]

/-- Where nothing was said of the source, both works tell the same. -/
theorem Beside.remarks_eq {early said late : List Event} {work other : Work σ}
    (h : Beside early said late work other) {about : Diagnostic → Bool}
    (silent : Tells (fun d => about d = false) said) :
    (diagnosticsOf work.events).filter about = (diagnosticsOf other.events).filter about := by
  rw [h.events, h.events']
  simp only [diagnosticsOf_append, List.filter_append, filter_diagnosticsOf_eq_nil silent,
    List.append_nil]

theorem Work.save_report (work : Work σ) (place : Place) (old new : Text) :
    (work.save place old new).report =
      { work.report with
        filesRewritten := work.report.filesRewritten + if new = old then 0 else 1 } := by
  unfold save
  split <;> rfl

/-- What a source adds to the numbers of a report depends on its text and on what is known. -/
theorem processFile_report (project : Project) (evaluate : Evaluator (Session σ)) (place : Place)
    {work other : Work σ} (tree : work.tree = other.tree) (session : work.session = other.session)
    (report : work.report = { other.report with filesScanned := other.report.filesScanned + 1 }) :
    (processFile project evaluate work place).report =
      { (processFile project evaluate other place).report with
        filesScanned := (processFile project evaluate other place).report.filesScanned + 1 } := by
  unfold processFile
  rw [tree]
  cases other.tree.text place.address with
  | error e => exact report
  | ok content =>
    dsimp only
    split
    · simp only [Work.tally, report]
    · dsimp only [generate]
      split
      · simp only [Work.tally, Work.tell, report]
      · simp only [Work.save_report, Work.tally, Work.tell, report, session]

theorem beside_processFile (project : Project) (evaluate : Evaluator (Session σ)) (place : Place)
    {early said late : List Event} {work other : Work σ} (h : Beside early said late work other) :
    ∃ more, Beside early said (late ++ more) (processFile project evaluate work place)
      (processFile project evaluate other place) := by
  obtain ⟨events, session, tree⟩ := processFile_performs project evaluate work place
  obtain ⟨events', session', tree'⟩ := processFile_performs project evaluate other place
  rw [h.tree, h.session] at events session tree
  let told := effect project evaluate place (other.tree.text place.address) other.session
  refine ⟨told.events, tree.trans tree'.symm, session.trans session'.symm,
    processFile_report project evaluate place h.tree h.session h.report, ?_, ?_⟩
  · rw [events, h.events, List.append_assoc]
  · rw [events', h.events', List.append_assoc]

theorem beside_sources (project : Project) (evaluate : Evaluator (Session σ)) (places : List Place)
    {early said late : List Event} {work other : Work σ} (h : Beside early said late work other) :
    ∃ late, Beside early said late (places.foldl (processFile project evaluate) work)
      (places.foldl (processFile project evaluate) other) := by
  induction places generalizing work other late with
  | nil => exact ⟨late, h⟩
  | cons place rest ih =>
    obtain ⟨more, next⟩ := beside_processFile project evaluate place h
    exact ih next

/-! ## The sources of a project -/

/-- Two places with files of their own, which also have different names in diagnostics. -/
def Distinct (p q : Place) : Prop := p.address ≠ q.address ∧ p.path.display ≠ q.path.display

theorem Distinct.symm {p q : Place} (h : Distinct p q) : Distinct q p := ⟨h.1.symm, h.2.symm⟩

theorem source?_address (f : Discovery.Found) (address : Address) (h : f.source? = some address) :
    f.address = address := by
  obtain ⟨content, rfl, -⟩ := Discovery.Found.source?_eq_some_iff.mp h
  rfl

theorem sources_distinct {top : Tree} (formed : top.WellFormed) (plain : top.Plain) {config : Config}
    {root : Place} {project : Project} (loads : (Project.load top config root).result = .ok project) :
    project.sources.Pairwise Distinct := by
  rw [(load_eq_ok loads).2.1, sources, contents]
  cases config.excluded with
  | error bad => exact .nil
  | ok excluded =>
    have addresses := pairwise_places (Discovery.found_ordered formed excluded root)
      Discovery.Found.source? source?_address
    have paths := Project.places_apart formed plain excluded root
      Discovery.Found.source? source?_address
    refine addresses.imp₂ ?_ paths
    intro p q apart differ
    refine ⟨fun same => apart.1 (same ▸ List.prefix_rfl), fun same => ?_⟩
    have text : p.path.text = q.path.text := String.ofList_injective same
    simp [Path.same, Path.components, text] at differ

/-- Another source leaves a source and the diagnostics about it alone. -/
theorem foreign_of_distinct {p place : Place} (h : Distinct p place) {about : Diagnostic → Bool}
    (only : ∀ d, about d = true → d.file = place.path.display) :
    Foreign (· = place.address) about p := by
  refine ⟨h.1, ?_⟩
  intro d named
  rw [← Bool.not_eq_true]
  intro counts
  exact h.2 (named.symm.trans (only d counts))

/-- An error about a file. -/
def isErrorOf (file : String) (d : Diagnostic) : Bool := d.file = file && d.severity = .error

theorem file_of_isErrorOf {file : String} (d : Diagnostic) (h : isErrorOf file d = true) :
    d.file = file := by
  simp only [isErrorOf, Bool.and_eq_true, decide_eq_true_eq] at h
  exact h.1

theorem errors_of_refusal (project : Project) (place : Place) (content : Text) (e : InjectionError) :
    (diagnosticsOf (refusal project place content e)).filter (isErrorOf place.path.display) =
      [⟨.error, e.message, place.path.display, e.line, none⟩] := by
  have warnings : Tells (fun d => isErrorOf place.path.display d = false)
      (Injection.inject project ⟨place.path.display, project.depthOf place.path⟩ content).events := by
    refine Injection.inject_tells ?_ project content
    intro d warning _
    simp [isErrorOf, warning]
  rw [refusal, diagnosticsOf_append, List.filter_append, filter_diagnosticsOf_eq_nil warnings]
  simp [diagnosticsOf, Event.error, Event.diagnostic?, isErrorOf]

/-- The sources before a source leave it and the diagnostics about it alone. -/
theorem agree_before {before after : List Place} {place : Place}
    (apart : ∀ p ∈ before ++ after, Distinct p place) (project : Project)
    (evaluate : Evaluator (Session σ)) (work : Work σ) :
    Agree (· = place.address) (isErrorOf place.path.display)
      (before.foldl (processFile project evaluate) work) work := by
  refine agree_sources_foreign ?_ project evaluate work
  intro p member
  exact foreign_of_distinct (apart p (List.mem_append_left after member)) file_of_isErrorOf

/-- A work at the beginning of a project. -/
def Work.opened (work : Work σ) : Work σ :=
  { work with
    report := { work.report with projects := work.report.projects + 1 }
    session := .start work.session.executor.tool }

section

variable {project : Project} {work : Work σ} {before after : List Place} {place : Place}
  (apart : ∀ p ∈ before ++ after, Distinct p place)
  (sources : project.sources = before ++ place :: after) {content : Text}
  (here : work.tree.text place.address = .ok content) {e : InjectionError}
  (refused : (Injection.inject project ⟨place.path.display, project.depthOf place.path⟩
    content).result = .error e)

include apart sources here refused in
/-- **A refused source among others**: what is said of it comes after the events of the sources
before it, and that is all that it changes. -/
theorem beside_project (toolchain : Toolchain σ) (config : Config) :
    let evaluate := Evaluation.evaluator project toolchain config
    let early := (before.foldl (processFile project evaluate) work.opened).events
    ∃ late, Beside early (refusal project place content e) late
      (processProject toolchain config work project)
      (processProject toolchain config work { project with sources := before ++ after }) := by
  intro evaluate early
  have reached := (agree_before apart project evaluate work.opened).looks _ rfl
  have still : (before.foldl (processFile project evaluate) work.opened).tree.text place.address =
      .ok content := (text_congr reached).trans here
  have refusing := Beside.start (refusal project place content e)
    (before.foldl (processFile project evaluate) work.opened)
  obtain ⟨late, beside⟩ := beside_sources project evaluate after refusing
  rw [← processFile_of_refusal evaluate still refused, ← List.foldl_cons, ← List.foldl_append,
    ← List.foldl_append, ← sources] at beside
  let told (done : Work σ) : List Event :=
    [.note s!"project {project.root.path.display}: {done.session.executor.runs} driver runs"]
  -- The sources of a project are only worked through: nothing else looks at them.
  have whole : processProject toolchain config work project =
    let done := project.sources.foldl (processFile project evaluate) work.opened
    done.tell (told done) := rfl
  have part : processProject toolchain config work { project with sources := before ++ after } =
    let done := (before ++ after).foldl (processFile project evaluate) work.opened
    done.tell (told done) := rfl
  rw [whole, part]
  dsimp only [told]
  rw [beside.session]
  exact ⟨_, beside.tell _⟩

end

/-- **A source that is refused changes nothing else.** Its file stays and it gets one error, wherever
it stands among the sources. All files, all that the toolchain is asked and all diagnostics about other
files are as without it, also with a toolchain that answers differently each time. -/
theorem refused_source_alone {top : Tree} (formed : top.WellFormed) (plain : top.Plain)
    {config : Config} {root : Place} {project : Project}
    (loads : (Project.load top config root).result = .ok project) (toolchain : Toolchain σ)
    (work : Work σ) {before after : List Place} {place : Place}
    (sources : project.sources = before ++ place :: after) {content : Text}
    (here : work.tree.text place.address = .ok content) {e : InjectionError}
    (refused : (Injection.inject project ⟨place.path.display, project.depthOf place.path⟩
      content).result = .error e) :
    let file := place.path.display
    let others := { project with sources := before ++ after }
    let done := processProject toolchain config work project
    let rest := processProject toolchain config work others
    done.tree.file? place.address = work.tree.file? place.address ∧
      (diagnosticsOf done.events).filter (isErrorOf file) =
        (diagnosticsOf work.events).filter (isErrorOf file) ++
          [⟨.error, e.message, file, e.line, none⟩] ∧
      done.tree = rest.tree ∧
      queries toolchain config work project = queries toolchain config work others ∧
      (diagnosticsOf done.events).filter (fun d => d.file ≠ file) =
        (diagnosticsOf rest.events).filter (fun d => d.file ≠ file) ∧
      done.session = rest.session ∧
      done.report = { rest.report with filesScanned := rest.report.filesScanned + 1 } := by
  intro file others done rest
  have apart : ∀ p ∈ before ++ after, Distinct p place := by
    have pairwise := sources_distinct formed plain loads
    rw [sources, List.pairwise_middle Distinct.symm] at pairwise
    exact fun p member => ((List.pairwise_cons.mp pairwise).1 p member).symm
  obtain ⟨late, beside⟩ := beside_project apart sources here refused toolchain config
  have asIs : work.recording.tree.text place.address = .ok content := here
  obtain ⟨_, recorded⟩ := beside_project apart sources asIs refused toolchain.recording config
  have agree : Agree (· = place.address) (isErrorOf file) rest work :=
    agree_project_foreign (fun p member => foreign_of_distinct (apart p member) file_of_isErrorOf) work
  refine ⟨?_, ?_, beside.tree, ?_, ?_, beside.session, beside.report⟩
  · refine Option.ext fun bytes => ?_
    rw [beside.tree, ← Tree.look_eq_file_iff, agree.looks _ rfl, Tree.look_eq_file_iff]
  · have first := (agree_before apart project (Evaluation.evaluator project toolchain config)
      work.opened).remarks
    rw [beside.remarks first agree.remarks, errors_of_refusal]
    rfl
  · exact congrArg (fun session => session.executor.tool.2) recorded.session
  · refine beside.remarks_eq ?_
    intro d member
    simpa using refusal_tells project place content e d member

/-- A toolchain that prints how often it has run. -/
def counting : Toolchain Nat where
  run _ n := (.ok ⟨true, some 0, Nat.toDigits 10 n ++ ['\n'], []⟩, n + 1)
  package name n := (.ok (some name), n)

/-- A source that asks for a value, and for a method without an interface to put it below. -/
def stray : Text :=
  "package p\n\n//:os.Getuid\nvar id = 0\n\n//:inject:Decode\nvar other = 0\n".toList

/-- Three sources, with that one in the middle. -/
def midway : Tree := .directory
  [("a.go".toList, .file (Utf8.encode "package p\n\n//:os.Getpid\nvar id = 0\n".toList)),
    ("b.go".toList, .file (Utf8.encode stray)),
    ("c.go".toList, .file (Utf8.encode "package p\n\n//:os.Getppid\nvar id = 0\n".toList))]

theorem midway_formed : midway.WellFormed := by
  refine .directory (by simp) ?_
  simp only [List.forall_mem_cons]
  exact ⟨.file _, .file _, .file _, nofun⟩

theorem midway_plain : midway.Plain := by
  refine .directory ?_ ?_ <;> simp only [List.forall_mem_cons]
  · exact ⟨⟨by decide, by decide⟩, ⟨by decide, by decide⟩, ⟨by decide, by decide⟩, nofun⟩
  · exact ⟨.file _, .file _, .file _, nofun⟩

/-- The third source gets what the second run of the toolchain prints. -/
theorem midway_refused :
    let here (name : String) : Place := (⟨⟨".".toList⟩, []⟩ : Place).below [name.toList]
    let work : Work Nat := ⟨midway, {}, [], .start 0⟩
    ∃ project e, (Project.load midway {} ⟨⟨".".toList⟩, []⟩).result = .ok project ∧
      project.sources = [here "a.go"] ++ here "b.go" :: [here "c.go"] ∧
      (Injection.inject project ⟨"./b.go", 0⟩ stray).result = .error e ∧
      let others := { project with sources := [here "a.go", here "c.go"] }
      let done := processProject counting {} work project
      done.tree.file? ["c.go".toList] =
          some (Utf8.encode "package p\n\n//:os.Getppid\nvar id = 1\n".toList) ∧
        done.tree = (processProject counting {} work others).tree ∧
        queries counting {} work project = queries counting {} work others ∧
        (diagnosticsOf done.events).filter (isErrorOf "./b.go") =
          [⟨.error, e.message, "./b.go", e.line, none⟩] := by
  intro here work
  have loads : ((Project.load midway {} ⟨⟨".".toList⟩, []⟩).result.toOption.map fun project =>
      (project.sources, project.depthOf (here "b.go").path,
        (Injection.inject project ⟨"./b.go", 0⟩ stray).result.toBool,
        (processProject counting {} work project).tree.file? ["c.go".toList])) =
      some ([here "a.go", here "b.go", here "c.go"], 0, false,
        some (Utf8.encode "package p\n\n//:os.Getppid\nvar id = 1\n".toList)) := by decide +kernel
  obtain ⟨project, loads, facts⟩ := Option.map_eq_some_iff.mp loads
  have loads := eq_ok_of_toOption loads
  simp only [Prod.mk.injEq] at facts
  obtain ⟨sources, depth, refused, filled⟩ := facts
  obtain ⟨e, refused⟩ : ∃ e, (Injection.inject project ⟨"./b.go", 0⟩ stray).result = .error e := by
    cases result : (Injection.inject project ⟨"./b.go", 0⟩ stray).result with
    | error e => exact ⟨e, rfl⟩
    | ok injected => simp [result, Except.toBool] at refused
  have sources : project.sources = [here "a.go"] ++ here "b.go" :: [here "c.go"] := sources
  have text : work.tree.text (here "b.go").address = .ok stray := by decide +kernel
  obtain ⟨-, error, tree, asked, -⟩ := refused_source_alone midway_formed midway_plain loads counting
    work sources text (by rw [depth]; exact refused)
  exact ⟨project, e, loads, sources, refused, filled, tree, asked, error⟩

end Run

end Prefill
