import Prefill.Proofs.Remarks
import Prefill.Proofs.Sides
import Prefill.Proofs.Steady

/-!
Isolation of nested modules: what a run does outside a module does not depend on what is inside it,
and the other way round.

* `effect`: what working through one source tells, writes and learns;
* `Agree`: two runs agree on the files and the diagnostics of one side;
* `agree_projects`: they still do when all projects have been worked through, if the projects of that
  side are the same;
* `run_isolated`: both sides of the border of a module.
-/

namespace Prefill.Run

open Text

variable {σ : Type}

/-! ## One source -/

/-- What working through one source tells, what it writes, and what is known afterwards. -/
structure Effect (σ : Type) where
  events : List Event
  text : Option Text
  session : Session σ

/-- The effect of a source with markers or regions. -/
def rewriting (project : Project) (evaluate : Evaluator (Session σ)) (place : Place)
    (content : Text) (session : Session σ) : Effect σ :=
  let site : Fill.Site := ⟨place.path.display, project.depthOf place.path⟩
  let injection := Injection.inject project site content
  match injection.result with
  | .error e => ⟨injection.events ++ [.error site.file e.line e.message none], none, session⟩
  | .ok injected =>
    let filled := Fill.fill evaluate site injected.text session
    if filled.1.text = content then ⟨injection.events ++ filled.1.events, none, filled.2⟩
    else
      ⟨injection.events ++ filled.1.events ++ [.note s!"rewrote {place.path.display}"],
        some filled.1.text, filled.2⟩

/-- The effect of a source with the given text, or of one that cannot be read. -/
def effect (project : Project) (evaluate : Evaluator (Session σ)) (place : Place)
    (content : Except FileError Text) (session : Session σ) : Effect σ :=
  match content with
  | .error e =>
    ⟨[.warning place.path.display 0 s!"skipping unreadable file: {e.message}" none], none, session⟩
  | .ok content =>
    if !Marker.anyIn content && !Marker.anyRegionIn content then ⟨[], none, session⟩
    else rewriting project evaluate place content session

/-- A tree with a new text in a file, if there is one. -/
def written (tree : Tree) (address : Address) : Option Text → Tree
  | none => tree
  | some text => tree.put address (.file (Utf8.encode text))

/-- A step has an effect, and no other on the files, the events and the session. -/
structure Performs (work next : Work σ) (address : Address) (done : Effect σ) : Prop where
  events : next.events = work.events ++ done.events
  session : next.session = done.session
  tree : next.tree = written work.tree address done.text

theorem generate_performs (project : Project) (evaluate : Evaluator (Session σ)) (place : Place)
    (content : Text) (work : Work σ) :
    Performs work (generate project evaluate place content work) place.address
      (rewriting project evaluate place content work.session) := by
  unfold generate rewriting
  dsimp only
  generalize Injection.inject project ⟨place.path.display, project.depthOf place.path⟩ content =
    injection
  cases injection.result with
  | error e => exact ⟨List.append_assoc .., rfl, rfl⟩
  | ok injected =>
    dsimp only [Work.save, Work.tell]
    generalize Fill.fill evaluate ⟨place.path.display, project.depthOf place.path⟩ injected.text
      work.session = filled
    by_cases same : filled.1.text = content
    · rw [if_pos same, if_pos same]
      exact ⟨List.append_assoc .., rfl, rfl⟩
    · rw [if_neg same, if_neg same]
      exact ⟨by simp [Work.tally], rfl, rfl⟩

/-- **One source** has its effect. -/
theorem processFile_performs (project : Project) (evaluate : Evaluator (Session σ)) (work : Work σ)
    (place : Place) :
    Performs work (processFile project evaluate work place) place.address
      (effect project evaluate place (work.tree.text place.address) work.session) := by
  unfold processFile
  cases work.tree.text place.address with
  | error e => exact ⟨rfl, rfl, rfl⟩
  | ok content =>
    dsimp only [effect]
    split
    · exact ⟨(List.append_nil _).symm, rfl, rfl⟩
    · obtain ⟨events, session, tree⟩ :=
        generate_performs project evaluate place content (work.tally 1 0 0 0)
      exact ⟨events, session, tree⟩

theorem effect_tells (project : Project) (evaluate : Evaluator (Session σ)) (place : Place)
    (content : Except FileError Text) (session : Session σ) :
    Tells (fun d => d.file = place.path.display)
      (effect project evaluate place content session).events := by
  cases content with
  | error e => exact tells_diagnostic.mpr ⟨rfl, tells_nil⟩
  | ok content =>
    dsimp only [effect]
    split
    · exact tells_nil
    · let site : Fill.Site := ⟨place.path.display, project.depthOf place.path⟩
      have injected := Injection.inject_tells (P := fun d => d.file = site.file) (fun _ _ named => named)
        project content
      have filled (text : Text) := Fill.fill_tells evaluate site text session
      dsimp only [rewriting]
      split
      · exact tells_append.mpr ⟨injected, tells_diagnostic.mpr ⟨rfl, tells_nil⟩⟩
      · split
        · exact tells_append.mpr ⟨injected, filled _⟩
        · exact tells_append.mpr ⟨tells_append.mpr ⟨injected, filled _⟩, tells_note.mpr tells_nil⟩

/-- The effect depends on what is known, not on the state of the toolchain. -/
theorem effect_alike (project : Project) {evaluate : Evaluator (Session σ)}
    (respects : Respects evaluate Session.Alike) (place : Place) (content : Except FileError Text)
    {s t : Session σ} (alike : s.Alike t) :
    let first := effect project evaluate place content s
    let second := effect project evaluate place content t
    first.events = second.events ∧ first.text = second.text ∧
      first.session.Alike second.session := by
  intro first second
  cases content with
  | error e => exact ⟨rfl, rfl, alike⟩
  | ok content =>
    simp only [first, second, effect]
    split
    · exact ⟨rfl, rfl, alike⟩
    · dsimp only [rewriting]
      split
      · exact ⟨rfl, rfl, alike⟩
      · rename_i injected _
        obtain ⟨same, later⟩ := Fill.fill_respects respects
          ⟨place.path.display, project.depthOf place.path⟩ injected.text alike
        rw [same]
        split
        · exact ⟨rfl, rfl, later⟩
        · exact ⟨rfl, rfl, later⟩

/-- Only a file that can be read is written. -/
theorem readable_of_effect {project : Project} {evaluate : Evaluator (Session σ)} {place : Place}
    {content : Except FileError Text} {session : Session σ} {text : Text}
    (h : (effect project evaluate place content session).text = some text) :
    ∃ old, content = .ok old := by
  cases content with
  | error e => cases h
  | ok old => exact ⟨old, rfl⟩

/-! ## One side of two runs -/

theorem text_congr {first second : Tree} {address : Address}
    (same : first.look address = second.look address) : first.text address = second.text address := by
  rw [Tree.look, Tree.look] at same
  unfold Tree.text
  cases found : first.at? address with
  | none =>
    have gone : second.at? address = none := by simpa [found] using same.symm
    rw [gone]
  | some entry =>
    rw [found] at same
    obtain ⟨other, there, alike⟩ := Option.map_eq_some_iff.mp same.symm
    rw [there]
    cases entry <;> cases other <;> simp_all [Tree.shallow]

/-- Two runs agree on the files of one side and on some diagnostics. -/
structure Agree (side : Address → Prop) (about : Diagnostic → Bool) (work other : Work σ) : Prop where
  looks : ∀ address, side address → work.tree.look address = other.tree.look address
  remarks : (diagnosticsOf work.events).filter about = (diagnosticsOf other.events).filter about

/-- A source of the other side: neither its file nor a diagnostic about it counts. -/
structure Foreign (side : Address → Prop) (about : Diagnostic → Bool) (place : Place) : Prop where
  address : ¬ side place.address
  path : ∀ d : Diagnostic, d.file = place.path.display → about d = false

section

variable {side : Address → Prop} {about : Diagnostic → Bool} {work other : Work σ}

theorem Agree.refl (work : Work σ) : Agree side about work work := ⟨fun _ _ => rfl, rfl⟩

theorem Agree.symm (h : Agree side about work other) : Agree side about other work :=
  ⟨fun address inSide => (h.looks address inSide).symm, h.remarks.symm⟩

theorem Agree.trans {third : Work σ} (h : Agree side about work other)
    (h' : Agree side about other third) : Agree side about work third :=
  ⟨fun address inSide => (h.looks address inSide).trans (h'.looks address inSide),
    h.remarks.trans h'.remarks⟩

/-- What two runs agree on is in their files and events. -/
theorem Agree.of_eq {next : Work σ} (tree : next.tree = work.tree)
    (events : diagnosticsOf next.events = diagnosticsOf work.events) :
    Agree side about next work :=
  ⟨fun _ _ => by rw [tree], by rw [events]⟩

theorem filter_diagnosticsOf_eq_nil {events : List Event}
    (tells : Tells (fun d => about d = false) events) :
    (diagnosticsOf events).filter about = [] := by
  refine List.filter_eq_nil_iff.mpr fun d member => ?_
  simp [tells d member]

theorem look_written {tree : Tree} {address : Address} {content : Text}
    (readable : tree.text address = .ok content) (text : Text) (atAddress : Address) :
    (written tree address (some text)).look atAddress =
      if atAddress = address then some (.file (Utf8.encode text)) else tree.look atAddress := by
  obtain ⟨bytes, found, -⟩ := Tree.text_eq_ok_iff.mp readable
  exact Tree.look_put found _ _

/-- A source of the other side changes nothing that two runs agree on. -/
theorem agree_foreign {place : Place} (foreign : Foreign side about place) (project : Project)
    (evaluate : Evaluator (Session σ)) (work : Work σ) :
    Agree side about (processFile project evaluate work place) work := by
  obtain ⟨events, -, tree⟩ := processFile_performs project evaluate work place
  have tells := effect_tells project evaluate place (work.tree.text place.address) work.session
  refine ⟨?_, ?_⟩
  · intro address inSide
    rw [tree]
    cases changed : (effect project evaluate place (work.tree.text place.address)
        work.session).text with
    | none => rfl
    | some text =>
      obtain ⟨old, readable⟩ := readable_of_effect changed
      rw [look_written readable, if_neg]
      rintro rfl
      exact foreign.address inSide
  · have silent := filter_diagnosticsOf_eq_nil fun d member => foreign.path d (tells d member)
    rw [events, diagnosticsOf_append, List.filter_append, silent, List.append_nil]

/-- A source that both runs work through leaves them in agreement. -/
theorem agree_shared {project : Project} {evaluate : Evaluator (Session σ)}
    (respects : Respects evaluate Session.Alike) {place : Place} (shared : side place.address)
    (h : Agree side about work other) (alike : work.session.Alike other.session) :
    Agree side about (processFile project evaluate work place)
        (processFile project evaluate other place) ∧
      (processFile project evaluate work place).session.Alike
        (processFile project evaluate other place).session := by
  obtain ⟨events, session, tree⟩ := processFile_performs project evaluate work place
  obtain ⟨events', session', tree'⟩ := processFile_performs project evaluate other place
  have same := text_congr (h.looks _ shared)
  obtain ⟨told, wrote, later⟩ :=
    effect_alike project respects place (work.tree.text place.address) alike
  rw [← same] at events' session' tree'
  refine ⟨⟨?_, ?_⟩, by rw [session, session']; exact later⟩
  · intro address inSide
    rw [tree, tree', ← wrote]
    cases changed : (effect project evaluate place (work.tree.text place.address)
        work.session).text with
    | none => exact h.looks address inSide
    | some text =>
      obtain ⟨old, readable⟩ := readable_of_effect changed
      rw [look_written readable, look_written (same ▸ readable), h.looks address inSide]
  · rw [events, events', ← told, diagnosticsOf_append, diagnosticsOf_append, List.filter_append,
      List.filter_append, h.remarks]

theorem agree_sources_foreign {places : List Place}
    (foreign : ∀ place ∈ places, Foreign side about place) (project : Project)
    (evaluate : Evaluator (Session σ)) (work : Work σ) :
    Agree side about (places.foldl (processFile project evaluate) work) work := by
  induction places generalizing work with
  | nil => exact .refl work
  | cons place rest ih =>
    have later := ih (fun p member => foreign p (List.mem_cons_of_mem _ member))
      (processFile project evaluate work place)
    exact later.trans (agree_foreign (foreign place (by simp)) project evaluate work)

theorem agree_sources_shared {project : Project} {evaluate : Evaluator (Session σ)}
    (respects : Respects evaluate Session.Alike) {places : List Place}
    (shared : ∀ place ∈ places, side place.address) (h : Agree side about work other)
    (alike : work.session.Alike other.session) :
    Agree side about (places.foldl (processFile project evaluate) work)
      (places.foldl (processFile project evaluate) other) := by
  induction places generalizing work other with
  | nil => exact h
  | cons place rest ih =>
    obtain ⟨next, later⟩ := agree_shared respects (shared place (by simp)) h alike
    exact ih (fun p member => shared p (List.mem_cons_of_mem _ member)) next later

/-- Notes are no diagnostics. -/
theorem agree_tell_note (work : Work σ) (text : String) :
    Agree side about (work.tell [.note text]) work :=
  .of_eq rfl (by simp [Work.tell, diagnosticsOf, Event.diagnostic?])

variable {toolchain : Toolchain σ} {config : Config}

theorem agree_project_foreign {project : Project}
    (foreign : ∀ place ∈ project.sources, Foreign side about place) (work : Work σ) :
    Agree side about (processProject toolchain config work project) work := by
  refine (agree_tell_note _ _).trans ((agree_sources_foreign foreign project _ _).trans ?_)
  exact .of_eq rfl rfl

theorem agree_project_shared (steady : toolchain.Steady) {project : Project}
    (shared : ∀ place ∈ project.sources, side place.address) (h : Agree side about work other) :
    Agree side about (processProject toolchain config work project)
      (processProject toolchain config other project) := by
  refine (agree_tell_note _ _).trans (Agree.trans ?_ (agree_tell_note _ _).symm)
  refine agree_sources_shared (Evaluation.evaluator_respects steady project config) shared ?_
    (Session.start_alike _ _)
  exact ⟨h.looks, h.remarks⟩

/-- How the projects of a run lie to one side: all their sources belong to it, or none. -/
structure Sorted (side : Address → Prop) (about : Diagnostic → Bool) (mark : Project → Bool)
    (projects : List Project) : Prop where
  shared : ∀ project ∈ projects, mark project = true → ∀ place ∈ project.sources, side place.address
  foreign : ∀ project ∈ projects, mark project = false →
    ∀ place ∈ project.sources, Foreign side about place

/-- The projects of the other side can be left out. -/
theorem agree_filter (steady : toolchain.Steady) {mark : Project → Bool} {projects : List Project}
    (sorted : Sorted side about mark projects) (h : Agree side about work other) :
    Agree side about (projects.foldl (processProject toolchain config) work)
      ((projects.filter mark).foldl (processProject toolchain config) other) := by
  induction projects generalizing work other with
  | nil => exact h
  | cons project rest ih =>
    have later : Sorted side about mark rest :=
      ⟨fun p member => sorted.shared p (List.mem_cons_of_mem _ member),
        fun p member => sorted.foreign p (List.mem_cons_of_mem _ member)⟩
    cases marked : mark project with
    | true =>
      rw [List.filter_cons_of_pos marked]
      exact ih later (agree_project_shared steady (sorted.shared project (by simp) marked) h)
    | false =>
      rw [List.filter_cons_of_neg (by simp [marked])]
      exact ih later
        ((agree_project_foreign (sorted.foreign project (by simp) marked) work).trans h)

/-- **All projects.** Two runs whose projects of one side are the same agree on that side. -/
theorem agree_projects (steady : toolchain.Steady) {mark : Project → Bool}
    {projects others : List Project} (sorted : Sorted side about mark projects)
    (sorted' : Sorted side about mark others) (same : projects.filter mark = others.filter mark)
    (h : Agree side about work other) :
    Agree side about (projects.foldl (processProject toolchain config) work)
      (others.foldl (processProject toolchain config) other) :=
  (same ▸ agree_filter steady sorted h).trans (agree_filter steady sorted' (.refl other)).symm

end

/-! ## The two sides of a border -/

/-- A module below the root of a run, in a tree with valid names. -/
structure Border (top : Tree) (root : Place) (inner : Address) : Prop where
  named : top.Named
  module : ModuleAt top (root.address ++ inner)
  proper : inner ≠ []

/-- The root of a run that has a module below it is a directory. -/
theorem Border.ready {top : Tree} {root : Place} {inner : Address} (border : Border top root inner) :
    Ready top top.directoryCount [root] := by
  have looks := border.module.look_of_prefix (List.prefix_append root.address inner)
  obtain ⟨tree, here, shallow⟩ := Option.map_eq_some_iff.mp looks
  refine ready_root here ?_
  cases tree with
  | file | link => cases shallow
  | directory entries => rfl

section

variable {top : Tree} {root : Place} {inner : Address} (border : Border top root inner)
  {config : Config} {visited : List Place} (explores : Explores (modules top config) [root] visited)

include border explores

/-- **A file of a project** lies on the side of its project, and so does its path. -/
theorem side_of_found {p : Place} (member : p ∈ visited) {excluded : List Glob}
    {address : Address} {content : Utf8.Bytes}
    (found : .source address content ∈ Discovery.found top excluded p) :
    (root.address ++ inner).isPrefixOf (p.below address).address =
        within (root.address ++ inner) p ∧
      ∀ d : Diagnostic, d.file = (p.below address).path.display →
        d.isBelow (root.below inner) = within (root.address ++ inner) p := by
  obtain ⟨names, rfl⟩ := below_of_visited explores member
  obtain ⟨_, someAddress, there, ⟨rfl, -⟩, -⟩ :=
    (Discovery.mem_found border.module.formed).mp found
  have there : top.at? ((root.below names).address ++ address) = some (.file content) := there
  -- The border is a directory, so the file is not there.
  have elsewhere : (root.below names).address ++ address ≠ root.address ++ inner := by
    intro same
    have looks := border.module.look_of_prefix List.prefix_rfl
    rw [← same, Tree.look, there] at looks
    cases looks
  have related : root.address ++ inner <+: (root.below names).address ++ address ↔
      root.address ++ inner <+: (root.below names).address := by
    constructor
    · intro below
      by_contra away
      exact elsewhere (border.module.eq_of_found found away below)
    · exact fun above => above.trans (List.prefix_append _ _)
  refine ⟨?_, ?_⟩
  · rw [Bool.eq_iff_iff, List.isPrefixOf_iff_prefix, within_iff, Place.below_address]
    exact related
  · intro d about
    obtain rfl | ⟨front, last, rfl⟩ := List.eq_nil_or_concat' address
    · exact absurd rfl someAddress
    · have validInner (label : Text) (listed : label ∈ inner) : Tree.ValidName label := by
        obtain ⟨bytes, manifest⟩ := border.module.manifest
        exact border.named.at? (Tree.file?_eq_some_iff.mp manifest) label (by simp [listed])
      have validFile (label : Text) (listed : label ∈ (names ++ front) ++ [last]) :
          Tree.ValidName label := by
        rw [Place.below_address] at there
        refine border.named.at? there label ?_
        simp only [List.mem_append] at listed ⊢
        tauto
      rw [← Place.below_append, ← List.append_assoc] at about
      rw [Bool.eq_iff_iff, isBelow_iff border.proper validInner validFile about, within_iff,
        ← related, Place.below_address]
      rw [List.append_assoc root.address, List.prefix_append_right_inj, ← List.append_assoc,
        List.prefix_concat_iff]
      constructor
      · exact .inr
      · rintro (same | above)
        · refine absurd ?_ elsewhere
          rw [Place.below_address, same]
          simp
        · exact above

/-- The diagnostics of loading a project are about files on its side. -/
theorem load_side {p : Place} (member : p ∈ visited) :
    Tells (fun d => d.isBelow (root.below inner) = within (root.address ++ inner) p)
      (Project.load top config p).events := by
  intro d told
  obtain ⟨excluded, -, place, isHelper, named⟩ := Project.load_tells top config p d told
  obtain ⟨address, content, found, -, rfl⟩ := mem_helpers.mp isHelper
  exact (side_of_found border explores member found).2 d named

theorem source_side {p : Place} (member : p ∈ visited) {source : Place}
    (listed : source ∈ sources top config p) :
    (root.address ++ inner).isPrefixOf source.address = within (root.address ++ inner) p ∧
      ∀ d : Diagnostic, d.file = source.path.display →
        d.isBelow (root.below inner) = within (root.address ++ inner) p := by
  obtain ⟨address, content, ⟨excluded, -, found⟩, -, rfl⟩ := mem_sources.mp listed
  exact side_of_found border explores member found

variable {projects : List Project}
  (all : List.Forall₂ (fun place project => (Project.load top config place).result = .ok project)
    visited projects)

include all

theorem sorted_projects (inside : Bool) :
    Sorted (fun address => (root.address ++ inner).isPrefixOf address = inside)
      (fun d => d.isBelow (root.below inner) == inside)
      (fun project => within (root.address ++ inner) project.root == inside) projects := by
  have placed (project : Project) (member : project ∈ projects) : project.root ∈ visited ∧
      project.sources = sources top config project.root := by
    obtain ⟨place, listed, loaded⟩ := exists_place all member
    obtain ⟨rfl, sources, -⟩ := load_eq_ok loaded
    exact ⟨listed, sources⟩
  refine ⟨?_, ?_⟩
  · intro project member marked source listed
    obtain ⟨visits, same⟩ := placed project member
    rw [(source_side border explores visits (same ▸ listed)).1]
    exact beq_iff_eq.mp marked
  · intro project member unmarked source listed
    obtain ⟨visits, same⟩ := placed project member
    obtain ⟨address, path⟩ := source_side border explores visits (same ▸ listed)
    refine ⟨?_, ?_⟩
    · rw [address]
      exact beq_eq_false_iff_ne.mp unmarked
    · intro d named
      rw [path d named]
      exact unmarked

end

theorem filter_projects {top : Tree} {config : Config} {visited : List Place}
    {projects : List Project} (keep : Place → Bool)
    (all : List.Forall₂ (fun place project => (Project.load top config place).result = .ok project)
      visited projects) :
    (projects.filter fun project => keep project.root) =
      (visited.filter keep).filterMap fun p => (Project.load top config p).result.toOption := by
  induction all with
  | nil => rfl
  | @cons place project visited projects loaded _ ih =>
    obtain ⟨atPlace, -⟩ := load_eq_ok loaded
    cases kept : keep place with
    | true =>
      rw [List.filter_cons_of_pos (by rw [atPlace, kept]), List.filter_cons_of_pos kept,
        List.filterMap_cons, loaded, ih]
      rfl
    | false =>
      rw [List.filter_cons_of_neg (by simp [atPlace, kept]),
        List.filter_cons_of_neg (by simp [kept]), ih]

/-- Diagnostics of one kind come from the places that are kept. -/
theorem filter_diagnosticsOf_flatMap {events : Place → List Event} {about : Diagnostic → Bool}
    {keep : Place → Bool} {places : List Place}
    (silent : ∀ p ∈ places, keep p = false → Tells (fun d => about d = false) (events p)) :
    (diagnosticsOf (places.flatMap events)).filter about =
      (places.filter keep).flatMap fun p => (diagnosticsOf (events p)).filter about := by
  induction places with
  | nil => rfl
  | cons place rest ih =>
    have later := ih fun p member => silent p (List.mem_cons_of_mem _ member)
    rw [List.flatMap_cons, diagnosticsOf_append, List.filter_append, later]
    cases kept : keep place with
    | true => rw [List.filter_cons_of_pos kept, List.flatMap_cons]
    | false =>
      rw [List.filter_cons_of_neg (by simp [kept]),
        filter_diagnosticsOf_eq_nil (silent place (by simp) kept), List.nil_append]

/-- **One side of two runs.** Both have the same projects on that side, and the same stands there. -/
theorem agree_runs {toolchain : Toolchain σ} (steady : toolchain.Steady) {config : Config}
    {first second : Tree} {root : Place} {inner : Address} (border : Border first root inner)
    (border' : Border second root inner) (tool tool' : σ) {projects projects' : List Project}
    (loaded : (loadAll first config root).result = .ok projects)
    (loaded' : (loadAll second config root).result = .ok projects') (inside : Bool)
    (looks : ∀ address, (root.address ++ inner).isPrefixOf address = inside →
      first.look address = second.look address)
    (loads : ∀ p, within (root.address ++ inner) p = inside →
      Project.load first config p = Project.load second config p)
    (visits : ∀ visited visited', Explores (modules first config) [root] visited →
      Explores (modules second config) [root] visited' →
      (visited.filter fun p => within (root.address ++ inner) p == inside) =
        visited'.filter fun p => within (root.address ++ inner) p == inside) :
    Agree (fun address => (root.address ++ inner).isPrefixOf address = inside)
      (fun d => d.isBelow (root.below inner) == inside)
      (finish toolchain config first root tool projects)
      (finish toolchain config second root tool' projects') := by
  obtain ⟨visited, explores, all, events⟩ :=
    loadFrom_ok border.module.formed border.ready loaded
  obtain ⟨visited', explores', all', events'⟩ :=
    loadFrom_ok border'.module.formed border'.ready loaded'
  have same := visits visited visited' explores explores'
  have kept {p : Place}
      (member : p ∈ visited'.filter fun p => within (root.address ++ inner) p == inside) :
      Project.load first config p = Project.load second config p :=
    loads p (beq_iff_eq.mp (List.mem_filter.mp member).2)
  refine agree_projects steady (sorted_projects border explores all inside)
    (sorted_projects border' explores' all' inside) ?_ ⟨looks, ?_⟩
  · rw [filter_projects (fun p => within (root.address ++ inner) p == inside) all,
      filter_projects (fun p => within (root.address ++ inner) p == inside) all', same]
    exact List.filterMap_congr fun p member => by rw [kept member]
  · have silent {top : Tree} {visited : List Place} (border : Border top root inner)
        (explores : Explores (modules top config) [root] visited) (p : Place) (member : p ∈ visited)
        (other : (within (root.address ++ inner) p == inside) = false) :
        Tells (fun d => (d.isBelow (root.below inner) == inside) = false)
          (Project.load top config p).events := by
      intro d told
      rw [load_side border explores member d told]
      exact other
    dsimp only
    rw [loadAll, loadAll, events, events',
      filter_diagnosticsOf_flatMap (silent border explores),
      filter_diagnosticsOf_flatMap (silent border' explores'), same]
    exact List.flatMap_congr fun p member => by rw [kept member]

/-- What two runs that agree on a side have in common afterwards. -/
theorem agree_outcomes {toolchain : Toolchain σ} {config : Config} {first second : Tree}
    {root : Place} {tool tool' : σ} {projects projects' : List Project}
    (loaded : (loadAll first config root).result = .ok projects)
    (loaded' : (loadAll second config root).result = .ok projects') {side : Address → Prop}
    {about : Diagnostic → Bool} {report report' : Report}
    (agree : Agree side about (finish toolchain config first root tool projects)
      (finish toolchain config second root tool' projects'))
    (h : (run toolchain config first root tool).result = .ok report)
    (h' : (run toolchain config second root tool').result = .ok report') :
    (∀ address, side address → (run toolchain config first root tool).tree.file? address =
        (run toolchain config second root tool').tree.file? address) ∧
      report.diagnostics.filter about = report'.diagnostics.filter about := by
  rw [run_ok loaded] at h ⊢
  rw [run_ok loaded'] at h' ⊢
  obtain rfl := Except.ok.inj h
  obtain rfl := Except.ok.inj h'
  refine ⟨fun address inSide => ?_, agree.remarks⟩
  refine Option.ext fun content => ?_
  rw [← Tree.look_eq_file_iff, ← Tree.look_eq_file_iff, agree.looks address inSide]

theorem exists_projects {toolchain : Toolchain σ} {config : Config} {top : Tree} {root : Place}
    {tool : σ} {report : Report} (h : (run toolchain config top root tool).result = .ok report) :
    ∃ projects, (loadAll top config root).result = .ok projects := by
  cases loading : (loadAll top config root).result with
  | ok projects => exact ⟨projects, rfl⟩
  | error e =>
    rw [run_error loading] at h
    cases h

/-- **Nested modules are isolated.** Take two trees with a module at one address below the root of
the runs, and a steady toolchain, and let both runs succeed. If the trees are the same outside the
module and no link there leads into it, then the files outside it are the same afterwards, and so are
the diagnostics about them. If the trees are the same inside the module, no link there leads out of
it, and the module is a project of both runs or of neither, then this holds of the files inside it. -/
theorem run_isolated {toolchain : Toolchain σ} (steady : toolchain.Steady) (config : Config)
    {first second : Tree} {root : Place} {inner : Address} (border : Border first root inner)
    (border' : Border second root inner) (tool tool' : σ) {report report' : Report}
    (h : (run toolchain config first root tool).result = .ok report)
    (h' : (run toolchain config second root tool').result = .ok report') :
    let module := root.below inner
    let after := (run toolchain config first root tool).tree
    let after' := (run toolchain config second root tool').tree
    ((∀ address, ¬ module.address <+: address → first.look address = second.look address) →
      first.Closed (fun address => module.address <+: address → address = module.address) →
      (∀ address, ¬ module.address <+: address → after.file? address = after'.file? address) ∧
        report.diagnostics.filter (fun d => !d.isBelow module) =
          report'.diagnostics.filter fun d => !d.isBelow module) ∧
    ((∀ address, module.address <+: address → first.look address = second.look address) →
      first.Closed (fun address => module.address <+: address ∨ address <+: module.address) →
      (Explores.Leads (modules first config) root module ↔
        Explores.Leads (modules second config) root module) →
      (∀ address, module.address <+: address → after.file? address = after'.file? address) ∧
        report.diagnostics.filter (fun d => d.isBelow module) =
          report'.diagnostics.filter fun d => d.isBelow module) := by
  intro module after after'
  obtain ⟨projects, loaded⟩ := exists_projects h
  obtain ⟨projects', loaded'⟩ := exists_projects h'
  have atBorder : module.address = root.address ++ inner := Place.below_address root inner
  simp only [atBorder]
  refine ⟨?_, ?_⟩
  · intro same closed
    have outside : Outside first second (root.address ++ inner) :=
      ⟨border.module, border'.module, same, closed⟩
    have agree := agree_runs steady border border' tool tool' loaded loaded' false
      (fun address away => same address (by simpa [← List.isPrefixOf_iff_prefix] using away))
      (fun p away => outside.load_eq (not_within_iff.mp away) config)
      (fun visited visited' explores explores' => by
        simpa using filter_outside outside explores explores')
    obtain ⟨files, diagnostics⟩ := agree_outcomes loaded loaded' agree h h'
    refine ⟨fun address away => files address ?_, by simpa using diagnostics⟩
    simpa [← List.isPrefixOf_iff_prefix] using away
  · intro same closed reached
    have inside : Inside first second (root.address ++ inner) :=
      ⟨border.module, border'.module, same, closed⟩
    have agree := agree_runs steady border border' tool tool' loaded loaded' true
      (fun address within => same address (List.isPrefixOf_iff_prefix.mp within))
      (fun p within => inside.load_eq (within_iff.mp within) config)
      (fun visited visited' explores explores' => by
        simpa using filter_inside inside border.proper explores explores' reached)
    obtain ⟨files, diagnostics⟩ := agree_outcomes loaded loaded' agree h h'
    refine ⟨fun address within => files address (List.isPrefixOf_iff_prefix.mpr within), ?_⟩
    simpa using diagnostics

/-- A project with one source, and a module in it with another. -/
def nestedTree (outer inner : Text) : Tree := .directory
  [("main.go".toList, .file (Utf8.encode outer)),
    ("sub".toList, .directory
      [("go.mod".toList, .file []), ("sub.go".toList, .file (Utf8.encode inner))])]

section

variable (outer inner : Text)

theorem nestedTree_border : Border (nestedTree outer inner) ⟨⟨".".toList⟩, []⟩ ["sub".toList] := by
  refine ⟨?_, ⟨?_, [], rfl⟩, by simp⟩
  · refine .directory (by simp [Tree.ValidName]) ?_
    simp only [List.forall_mem_cons]
    refine ⟨.file _, .directory (by simp [Tree.ValidName]) ?_, nofun⟩
    simp only [List.forall_mem_cons]
    exact ⟨.file _, .file _, nofun⟩
  · refine .directory (by simp) ?_
    simp only [List.forall_mem_cons]
    refine ⟨.file _, .directory (by simp) ?_, nofun⟩
    simp only [List.forall_mem_cons]
    exact ⟨.file _, .file _, nofun⟩

/-- A directory whose entries have no links below them has none. -/
theorem at?_ne_link {entries : List (Text × Tree)} {target : Text}
    (none : ∀ entry ∈ entries, ∀ address, entry.2.at? address ≠ some (.link target))
    (address : Address) : (Tree.directory entries).at? address ≠ some (.link target) := by
  cases address with
  | nil => exact nofun
  | cons name address =>
    intro found
    obtain ⟨child, here, below⟩ := Option.bind_eq_some_iff.mp found
    exact none _ (Tree.entry?_eq_some_mem here) address below

theorem nestedTree_closed (zone : Address → Prop) : (nestedTree outer inner).Closed zone := by
  intro address target _ found
  have file (bytes : Utf8.Bytes) (address : Address) :
      (Tree.file bytes).at? address ≠ some (.link target) := by
    cases address <;> exact nofun
  refine absurd found (at?_ne_link ?_ address)
  simp only [List.forall_mem_cons]
  refine ⟨file _, at?_ne_link ?_, nofun⟩
  simp only [List.forall_mem_cons]
  exact ⟨file _, file _, nofun⟩

/-- The module is neither skipped nor excluded. -/
theorem nestedTree_leads :
    Explores.Leads (modules (nestedTree outer inner) {}) ⟨⟨".".toList⟩, []⟩
      ((⟨⟨".".toList⟩, []⟩ : Place).below ["sub".toList]) := by
  refine leads_of_admitted rfl (nestedTree_border outer inner).module ?_
  intro front middle back whole someMiddle
  have last : middle = ["sub".toList] := by
    cases front with
    | nil =>
      obtain ⟨name, rest, rfl⟩ := List.exists_cons_of_ne_nil someMiddle
      simp_all
    | cons => simp_all
  subst last
  exact ⟨by decide, rfl⟩

theorem look_outside {inner inner' : Text} {address : Address}
    (away : ¬ ["sub".toList] <+: address) :
    (nestedTree outer inner).look address = (nestedTree outer inner').look address := by
  cases address with
  | nil => rfl
  | cons name address =>
    have differ : "sub".toList ≠ name := by
      rintro rfl
      exact away (by simp)
    simp only [Tree.look_cons, nestedTree, Tree.entry?_cons, if_neg differ]

theorem look_inside {outer outer' : Text} {address : Address}
    (within : ["sub".toList] <+: address) :
    (nestedTree outer inner).look address = (nestedTree outer' inner).look address := by
  obtain ⟨rest, rfl⟩ := within
  rfl

end

theorem exists_of_toBool {ε α : Type} {result : Except ε α} (h : result.toBool = true) :
    ∃ a, result = .ok a := by
  cases result with
  | ok a => exact ⟨a, rfl⟩
  | error e => cases h

/-- A placeholder in the module changes nothing outside, and one outside changes nothing in the
module. -/
theorem nested_sources_isolated :
    let outcome (outer inner : String) := run (printing "8080\n".toList) {}
      (nestedTree outer.toList inner.toList) ⟨⟨".".toList⟩, []⟩ ()
    let plain := "package p\n"
    let marked := "package p\n\n//:os.Getpid\nvar id = 0\n"
    (outcome marked marked).tree.file? ["main.go".toList] =
        some (Utf8.encode "package p\n\n//:os.Getpid\nvar id = 8080\n".toList) ∧
      (outcome marked plain).tree.file? ["main.go".toList] =
        (outcome marked marked).tree.file? ["main.go".toList] ∧
      (outcome plain marked).tree.file? ["sub".toList, "sub.go".toList] =
        (outcome marked marked).tree.file? ["sub".toList, "sub.go".toList] := by
  intro outcome plain marked
  have steady : (printing "8080\n".toList).Steady := ⟨fun _ _ _ => rfl, fun _ _ _ => rfl⟩
  obtain ⟨report, both⟩ : ∃ report, (outcome marked marked).result = .ok report :=
    exists_of_toBool (by decide +kernel)
  refine ⟨by decide +kernel, ?_, ?_⟩
  · obtain ⟨_, h⟩ : ∃ report, (outcome marked plain).result = .ok report :=
      exists_of_toBool (by decide +kernel)
    exact ((run_isolated steady {} (nestedTree_border _ _) (nestedTree_border _ _) () () h both).1
      (fun _ away => look_outside _ away) (nestedTree_closed _ _ _)).1 _ (by decide)
  · obtain ⟨_, h⟩ : ∃ report, (outcome plain marked).result = .ok report :=
      exists_of_toBool (by decide +kernel)
    exact ((run_isolated steady {} (nestedTree_border _ _) (nestedTree_border _ _) () () h both).2
      (fun _ within => look_inside _ within) (nestedTree_closed _ _ _)
      (iff_of_true (nestedTree_leads _ _) (nestedTree_leads _ _))).1 _ (by decide)

end Prefill.Run
