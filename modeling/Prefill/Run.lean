import Prefill.Evaluation
import Prefill.Injection
import Prefill.Report.Basic

/-!
A run: load the project at a root and all modules nested in it, then work through the sources of
each. Nothing is written before everything is loaded.
-/

namespace Prefill

open Text

namespace Tree

mutual

/-- How many directories there are in a tree. -/
def directoryCount : Tree → Nat
  | .file _ => 0
  | .link _ => 0
  | .directory entries => 1 + directoryCountOf entries

def directoryCountOf : List (Text × Tree) → Nat
  | [] => 0
  | (_, entry) :: rest => entry.directoryCount + directoryCountOf rest

end

end Tree

namespace Run

/-- Loads the projects at some places, and after them the modules nested in them. Every project is
a directory of its own, so their number is enough fuel. -/
def loadFrom (top : Tree) (config : Config) :
    (fuel : Nat) → List Place → Journal LoadError (List Project)
  | 0, _ => pure []
  | _ + 1, [] => pure []
  | fuel + 1, place :: rest => do
    let project ← Project.load top config place
    let more ← loadFrom top config fuel (rest ++ project.submodules)
    return project :: more

/-- Loads the project at a root and all modules nested in it, outer ones first. -/
def loadAll (top : Tree) (config : Config) (root : Place) : Journal LoadError (List Project) :=
  loadFrom top config top.directoryCount [root]

/-- What a run does to the files. -/
structure Work (σ : Type) where
  tree : Tree
  report : Report
  events : List Event
  session : Session σ

namespace Work

variable {σ : Type}

def tell (work : Work σ) (events : List Event) : Work σ :=
  { work with events := work.events ++ events }

/-- With some numbers of the report raised. -/
def tally (work : Work σ) (scanned rewritten replaced regions : Nat) : Work σ :=
  let report := work.report
  { work with
    report :=
      { report with
        filesScanned := report.filesScanned + scanned
        filesRewritten := report.filesRewritten + rewritten
        placeholdersReplaced := report.placeholdersReplaced + replaced
        regionsInjected := report.regionsInjected + regions } }

/-- Puts a new text into a file, unless it is the old one. -/
def save (work : Work σ) (place : Place) (old new : Text) : Work σ :=
  if new = old then work
  else
    let work := work.tally 0 1 0 0
    { work with tree := work.tree.put place.address (.file (Utf8.encode new)) }.tell
      [.note s!"rewrote {place.path.display}"]

end Work

variable {σ : Type}

/-- Injects helpers into a file and fills its placeholders. A file that cannot be injected into
stays as it is. -/
def generate (project : Project) (evaluate : Evaluator (Session σ)) (place : Place) (content : Text)
    (work : Work σ) : Work σ :=
  let site : Fill.Site := ⟨place.path.display, project.depthOf place.path⟩
  let injection := Injection.inject project site content
  let work := work.tell injection.events
  match injection.result with
  | .error e => work.tell [.error site.file e.line e.message none]
  | .ok injected =>
    let (filled, session) := Fill.fill evaluate site injected.text work.session
    let work := ({ work with session }.tell filled.events).tally 0 0 filled.replaced injected.regions
    work.save place content filled.text

/-- Works through one source. A file without markers and regions is only counted. -/
def processFile (project : Project) (evaluate : Evaluator (Session σ)) (work : Work σ)
    (place : Place) : Work σ :=
  match work.tree.text place.address with
  | .error e =>
    work.tell [.warning place.path.display 0 s!"skipping unreadable file: {e.message}" none]
  | .ok content =>
    let work := work.tally 1 0 0 0
    if !Marker.anyIn content && !Marker.anyRegionIn content then work
    else generate project evaluate place content work

/-- Works through the sources of one project. What was found for one project is not used for
another. -/
def processProject (toolchain : Toolchain σ) (config : Config) (work : Work σ) (project : Project) :
    Work σ :=
  let evaluate := Evaluation.evaluator project toolchain config
  let start : Work σ :=
    { work with
      report := { work.report with projects := work.report.projects + 1 }
      session := .start work.session.executor.tool }
  let done := project.sources.foldl (processFile project evaluate) start
  done.tell
    [.note s!"project {project.root.path.display}: {done.session.executor.runs} driver runs"]

/-- How a run ended: the report or why there is none, the events, the files and the toolchain
afterwards. -/
structure Outcome (σ : Type) where
  result : Except LoadError Report
  events : List Event
  tree : Tree
  tool : σ

/-- Runs over the project at a root. -/
def run (toolchain : Toolchain σ) (config : Config) (top : Tree) (root : Place) (tool : σ) :
    Outcome σ :=
  let loading := loadAll top config root
  match loading.result with
  | .error e => ⟨.error e, loading.events, top, tool⟩
  | .ok projects =>
    let start : Work σ := ⟨top, {}, loading.events, .start tool⟩
    let done := projects.foldl (processProject toolchain config) start
    ⟨.ok { done.report with diagnostics := diagnosticsOf done.events }, done.events, done.tree,
      done.session.executor.tool⟩

end Run

end Prefill
