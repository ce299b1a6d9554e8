import Prefill.Injection
import Prefill.Proofs.Lines
import Prefill.Proofs.Loading
import Prefill.Proofs.Weaving

/-!
What injection writes. For each marker some declarations of a helper file are copied: those it needs
with no key that is taken (`fresh`). A copied declaration needs packages under the names it uses, and
the file has to import those it does not import yet (`entered`); of several packages that are needed
under one name it gets the first. `copies` lists what is copied for the markers of a file in order,
and `inject_ok` says that a run writes just this.
-/

namespace Prefill

open Text

namespace Go.ImportTable

variable {table : ImportTable} {name other : Text} {spec : ImportSpec}

theorem find?_put : (table.put name spec).find? other =
    if name = other then some spec else table.find? other := by
  induction table with
  | nil => by_cases same : name = other <;> simp [put, find?, same]
  | cons entry rest ih =>
    unfold put
    split
    · rename_i same
      by_cases here : name = other
      · simp [find?, here]
      · simp [find?, here, ← same]
    · rename_i differs
      split
      · by_cases here : name = other <;> simp [find?, here]
      · by_cases first : entry.1 = other
        · have apart : name ≠ other := by
            rw [← first]
            exact differs
          simp [find?, first, apart]
        · simpa [find?, first] using ih

theorem mem_put {entry : Text × ImportSpec} (member : entry ∈ table.put name spec) :
    entry = (name, spec) ∨ entry ∈ table := by
  induction table with
  | nil => exact .inl (List.mem_singleton.mp member)
  | cons first rest ih =>
    unfold put at member
    split at member
    · obtain here | there := List.mem_cons.mp member
      · exact .inl here
      · exact .inr (List.mem_cons_of_mem _ there)
    · split at member
      · exact List.mem_cons.mp member
      · obtain rfl | there := List.mem_cons.mp member
        · exact .inr (List.mem_cons_self ..)
        · exact (ih there).imp_right (List.mem_cons_of_mem _)

theorem find?_add : (table.add name spec).find? other =
    (table.find? other).or (if name = other then some spec else none) := by
  unfold add
  split
  · rename_i found here
    by_cases same : name = other
    · subst same
      simp [here]
    · simp [same]
  · rename_i missing
    rw [find?_put]
    by_cases same : name = other
    · subst same
      simp [missing]
    · simp [same]

theorem mem_add {entry : Text × ImportSpec} (member : entry ∈ table.add name spec) :
    entry = (name, spec) ∨ entry ∈ table := by
  unfold add at member
  split at member
  · exact .inr member
  · exact mem_put member

end Go.ImportTable

namespace Injection

/-! ### Packages that copied code needs -/

/-- A package and the name under which code knows it. -/
structure Need where
  name : Text
  path : Text
  deriving DecidableEq

/-- What a helper file imports under a name that its code uses. -/
def need? (helper : Go.Source) (qualifier : Text) : Option Need :=
  (helper.import? qualifier).bind fun i =>
    if i.label = some ['_'] || i.label = some ['.'] then none else some ⟨qualifier, i.path⟩

def needsOf (helper : Go.Source) (d : Go.Declaration) : List Need :=
  d.qualifiers.filterMap (need? helper)

/-- The imports of a file with one more, where the file has none under the name and none has been
entered. -/
def enter (target : Go.Source) (imports : Go.ImportTable) (need : Need) : Go.ImportTable :=
  match target.import? need.name with
  | some _ => imports
  | none => imports.add need.name (.named need.name need.path)

/-- The imports that a file needs for copied code. -/
def entered (target : Go.Source) (needs : List Need) : Go.ImportTable := needs.foldl (enter target) []

/-- The warning about a package that the file has under the name of another. -/
def unlike? (site : Fill.Site) (target : Go.Source) (method : Text) (need : Need) : Option Event :=
  (target.import? need.name).bind fun present =>
    if present.path = need.path then none
    else some (.warning site.file present.span.start.line
      (s!"{str method} needs {str need.path} as {quoted need.name}, " ++
        s!"but this file imports {str present.path} under that name") none)

theorem foldl_enter_find? (target : Go.Source) (needs : List Need) (imports : Go.ImportTable)
    (name : Text) : (needs.foldl (enter target) imports).find? name =
      (imports.find? name).or (match target.import? name with
        | some _ => none
        | none => (needs.find? fun need => need.name = name).map fun need => .named name need.path) := by
  induction needs generalizing imports with
  | nil => cases target.import? name <;> simp
  | cons need rest ih =>
    rw [List.foldl_cons, ih, enter]
    by_cases same : need.name = name
    · subst same
      cases target.import? need.name with
      | some present => rfl
      | none => simp [Go.ImportTable.find?_add]
    · cases target.import? need.name <;> simp [Go.ImportTable.find?_add, same]

/-- **The first package that is needed under a name** is the one that the file is given. -/
theorem entered_find? {target : Go.Source} {name : Text} (noneThere : target.import? name = none)
    (needs : List Need) : (entered target needs).find? name =
      (needs.find? fun need => need.name = name).map fun need => .named name need.path := by
  have found := foldl_enter_find? target needs [] name
  rw [noneThere] at found
  exact found

theorem mem_foldl_enter {target : Go.Source} {needs : List Need} {imports : Go.ImportTable}
    {entry : Text × Go.ImportSpec} (member : entry ∈ needs.foldl (enter target) imports) :
    entry ∈ imports ∨ ∃ need ∈ needs, entry = (need.name, .named need.name need.path) ∧
      target.import? need.name = none := by
  induction needs generalizing imports with
  | nil => exact .inl member
  | cons need rest ih =>
    obtain before | ⟨other, inRest, eq⟩ := ih member
    · unfold enter at before
      split at before
      · exact .inl before
      · rename_i missing
        obtain rfl | before := Go.ImportTable.mem_add before
        · exact .inr ⟨need, List.mem_cons_self .., rfl, missing⟩
        · exact .inl before
    · exact .inr ⟨other, List.mem_cons_of_mem _ inRest, eq⟩

/-- What is entered was needed, and the file had nothing under that name. -/
theorem exists_of_mem_entered {target : Go.Source} {needs : List Need}
    {entry : Text × Go.ImportSpec} (member : entry ∈ entered target needs) :
    ∃ need ∈ needs, entry = (need.name, .named need.name need.path) ∧
      target.import? need.name = none :=
  (mem_foldl_enter member).resolve_left (by simp)

/-! ### Copying declarations -/

/-- The declarations that are copied where some keys are taken. Each takes its own keys. -/
def fresh : (keys : List Text) → List Go.Declaration → List Go.Declaration
  | _, [] => []
  | keys, d :: rest =>
    if d.keys.any keys.contains then fresh keys rest else d :: fresh (keys ++ d.keys) rest

section

variable {ε : Type} (site : Fill.Site) (target helper : Go.Source) (method : Text)

theorem useImport_eq (imports : Go.ImportTable) (qualifier : Text) :
    useImport (ε := ε) site target helper method imports qualifier =
      ⟨(need? helper qualifier).toList.filterMap (unlike? site target method),
        .ok ((need? helper qualifier).toList.foldl (enter target) imports)⟩ := by
  unfold useImport need?
  cases helper.import? qualifier with
  | none => rfl
  | some needed =>
    simp only [Option.bind_some]
    split
    · rfl
    · simp only [Option.toList_some, List.filterMap_cons, List.filterMap_nil, List.foldl_cons,
        List.foldl_nil, unlike?, enter]
      cases target.import? qualifier with
      | none => rfl
      | some present =>
        simp only [Option.bind_some]
        split <;> rfl

theorem foldlM_useImport (qualifiers : List Text) (imports : Go.ImportTable) :
    qualifiers.foldlM (useImport (ε := ε) site target helper method) imports =
      ⟨(qualifiers.filterMap (need? helper)).filterMap (unlike? site target method),
        .ok ((qualifiers.filterMap (need? helper)).foldl (enter target) imports)⟩ := by
  induction qualifiers generalizing imports with
  | nil => rfl
  | cons qualifier rest ih =>
    rw [List.foldlM_cons, useImport_eq, Journal.bind_eq, Journal.andThen]
    simp only [ih, List.filterMap_cons]
    cases need? helper qualifier with
    | none => rfl
    | some need =>
      simp only [Option.toList_some, List.filterMap_cons, List.filterMap_nil, List.foldl_cons,
        List.foldl_nil]
      cases unlike? site target method need <;> rfl

/-- **Copying declarations** copies the fresh ones and tells of every package that is unlike. -/
theorem foldlM_copyDeclaration (needed : List Go.Declaration) (copied : Copied) :
    needed.foldlM (copyDeclaration (ε := ε) site target helper method) copied =
      let new := fresh copied.written.keys needed
      ⟨(new.flatMap (needsOf helper)).filterMap (unlike? site target method),
        .ok ⟨⟨copied.written.keys ++ new.flatMap (·.keys),
          (new.flatMap (needsOf helper)).foldl (enter target) copied.written.imports⟩,
          copied.parts ++ new.map (·.withDoc)⟩⟩ := by
  induction needed generalizing copied with
  | nil => simp [fresh, Journal.done]
  | cons d rest ih =>
    rw [List.foldlM_cons, copyDeclaration, fresh]
    split
    · simp only [Journal.pure_eq, Journal.bind_eq, Journal.done_andThen, ih]
    · simp only [Journal.bind_eq, foldlM_useImport, Journal.andThen, Journal.pure_eq, Journal.done,
        ih, List.flatMap_cons, List.filterMap_append, List.foldl_append, List.map_cons,
        List.append_assoc, List.append_nil, needsOf, List.singleton_append]

end

/-! ### Answering markers -/

/-- What is copied for a marker. -/
structure Copy where
  request : Request
  helper : HelperFile
  declarations : List Go.Declaration

namespace Copy

/-- The lines of the region that holds it. -/
def lines (copy : Copy) : List Text :=
  Region.linesOf copy.request.method (copy.declarations.map (·.withDoc))

def keys (copy : Copy) : List Text := copy.declarations.flatMap (·.keys)

def needs (copy : Copy) : List Need := copy.declarations.flatMap (needsOf copy.helper.source)

/-- The region after the interface below the marker. -/
def insertion (target : Go.Source) (lines : List Text) (copy : Copy) : Region.Insertion :=
  match interfaceFor target lines copy.request with
  | .ok interface => ⟨interface.span.stop.line - 1, copy.lines⟩
  | .error _ => ⟨0, copy.lines⟩

end Copy

/-- What a marker asks for, where some keys are taken. -/
def copyFor? (project : Project) (depth : Nat) (keys : List Text) (request : Request) :
    Option Copy :=
  (helperFor? project depth request.method).map fun (file, root) =>
    let needed := (file.source.closure root).filterMap fun i => file.source.declarations[i]?
    ⟨request, file, fresh keys needed⟩

/-- What is copied for markers in order, where some keys are taken. -/
def copiesFrom (project : Project) (depth : Nat) : (keys : List Text) → List Request → List Copy
  | _, [] => []
  | keys, request :: rest =>
    match copyFor? project depth keys request with
    | none => copiesFrom project depth keys rest
    | some copy => copy :: copiesFrom project depth (keys ++ copy.keys) rest

/-- What is copied into a text without regions. -/
def copies (project : Project) (depth : Nat) (stripped : Text) : List Copy :=
  copiesFrom project depth ((Go.Source.ofText stripped).declarations.flatMap (·.keys))
    (requests (rawLines stripped))

variable {project : Project} {site : Fill.Site}

theorem answer_ok {target : Go.Source} {lines : List Text} {progress next : Progress}
    {request : Request}
    (h : (answer project site target lines progress request).result = .ok next) :
    (∃ interface, interfaceFor target lines request = .ok interface) ∧
    match copyFor? project site.depth progress.written.keys request with
    | none => next = progress
    | some copy => next = ⟨⟨progress.written.keys ++ copy.keys,
          copy.needs.foldl (enter target) progress.written.imports⟩,
          progress.insertions ++ [copy.insertion target lines]⟩ ∧
        ∀ event ∈ copy.needs.filterMap (unlike? site target request.method),
          event ∈ (answer project site target lines progress request).events := by
  unfold answer at h ⊢
  rw [Journal.bind_eq, Journal.andThen_result_eq_ok_iff] at h
  obtain ⟨interface, found, h⟩ := h
  have found : interfaceFor target lines request = .ok interface := found
  refine ⟨⟨interface, found⟩, ?_⟩
  unfold copyFor?
  cases helper : helperFor? project site.depth request.method with
  | none =>
    rw [helper] at h
    exact (Except.ok.inj h).symm
  | some pair =>
    obtain ⟨file, root⟩ := pair
    rw [helper] at h
    simp only [foldlM_copyDeclaration, Journal.bind_eq, Journal.andThen, Journal.tell,
      Journal.pure_eq, Journal.done, List.nil_append, Except.ok.injEq] at h
    simp only [Option.map_some]
    refine ⟨?_, ?_⟩
    · rw [← h]
      simp only [Copy.insertion, found]
      rfl
    · intro event member
      simp only [foldlM_copyDeclaration, Journal.ofExcept, found, Journal.bind_eq, Journal.andThen,
        Journal.tell, Journal.pure_eq, Journal.done]
      simp only [List.nil_append, List.mem_append]
      exact .inl member

theorem answers_ok {target : Go.Source} {lines : List Text} {requests : List Request}
    {progress last : Progress}
    (h : (requests.foldlM (answer project site target lines) progress).result = .ok last) :
    let all := copiesFrom project site.depth progress.written.keys requests
    (∀ request ∈ requests, ∃ interface, interfaceFor target lines request = .ok interface) ∧
    last.written.imports =
      (all.flatMap Copy.needs).foldl (enter target) progress.written.imports ∧
    last.insertions = progress.insertions ++ all.map (Copy.insertion target lines) ∧
    ∀ copy ∈ all, ∀ event ∈ copy.needs.filterMap (unlike? site target copy.request.method),
      event ∈ (requests.foldlM (answer project site target lines) progress).events := by
  induction requests generalizing progress with
  | nil =>
    obtain rfl : progress = last := Except.ok.inj h
    simp [copiesFrom]
  | cons request rest ih =>
    rw [List.foldlM_cons, Journal.bind_eq, Journal.andThen_result_eq_ok_iff] at h
    obtain ⟨next, first, h⟩ := h
    obtain ⟨answered, step⟩ := answer_ok first
    obtain ⟨all, imports, insertions, told⟩ := ih h
    have events : ((request :: rest).foldlM (answer project site target lines) progress).events =
        (answer project site target lines progress request).events ++
          (rest.foldlM (answer project site target lines) next).events := by
      rw [List.foldlM_cons, Journal.bind_eq, Journal.andThen, first]
    rw [events]
    simp only [List.mem_append]
    unfold copiesFrom
    split at step
    · rename_i missing
      subst step
      refine ⟨List.forall_mem_cons.mpr ⟨answered, all⟩, imports, insertions, ?_⟩
      intro copy member event isEvent
      exact .inr (told copy member event isEvent)
    · rename_i copy found
      obtain ⟨rfl, tells⟩ := step
      have asked : copy.request = request := by
        obtain ⟨_, -, rfl⟩ := Option.map_eq_some_iff.mp found
        rfl
      refine ⟨List.forall_mem_cons.mpr ⟨answered, all⟩, ?_, ?_, ?_⟩
      · rw [imports, List.flatMap_cons, List.foldl_append]
      · rw [insertions, List.map_cons, List.append_assoc, List.singleton_append]
      · rw [List.forall_mem_cons]
        refine ⟨?_, ?_⟩
        · intro event isEvent
          rw [asked] at isEvent
          exact .inl (tells event isEvent)
        · intro other member event isEvent
          exact .inr (told other member event isEvent)

/-- The lines of a file with the given copies in it. -/
def written (target : Go.Source) (lines : List Text) (copies : List Copy) : List Text :=
  addImports target (entered target (copies.flatMap Copy.needs))
    (Region.spliceAll lines (copies.map (Copy.insertion target lines)))

/-- Every marker of the text has an interface with its method. -/
def Answered (text : Text) : Prop :=
  ∀ request ∈ requests (rawLines text), ∃ interface,
    interfaceFor (Go.Source.ofText text) (rawLines text) request = .ok interface

theorem applyMarkers_ok {stripped : Text} {injected : Injected}
    (h : (applyMarkers project site stripped).result = .ok injected) :
    let target := Go.Source.ofText stripped
    let lines := rawLines stripped
    let all := copies project site.depth stripped
    Answered stripped ∧
    injected = ⟨(written target lines all).flatten, all.length⟩ ∧
    ∀ copy ∈ all, ∀ event ∈ copy.needs.filterMap (unlike? site target copy.request.method),
      event ∈ (applyMarkers project site stripped).events := by
  unfold applyMarkers at h ⊢
  unfold copies Answered
  dsimp only at h ⊢
  cases markers : requests (rawLines stripped) with
  | nil =>
    rw [markers] at h
    obtain rfl := Except.ok.inj h
    simp [copiesFrom, written, entered, addImports, Region.spliceAll, rawLines_flatten]
  | cons first rest =>
    rw [markers] at h
    dsimp only at h ⊢
    rw [Journal.bind_eq, Journal.andThen_result_eq_ok_iff] at h
    obtain ⟨last, answered, h⟩ := h
    obtain ⟨all, imports, insertions, told⟩ := answers_ok answered
    refine ⟨all, ?_, ?_⟩
    · obtain rfl := Except.ok.inj h
      simp only [imports, insertions, List.nil_append, List.length_map]
      rfl
    · intro copy member event isEvent
      rw [Journal.bind_eq, Journal.andThen, answered]
      exact List.mem_append_left _ (told copy member event isEvent)

/-! ### Markers that have an answer -/

theorem exists_answer {target : Go.Source} {lines : List Text} {request : Request}
    {interface : Go.Interface} (found : interfaceFor target lines request = .ok interface)
    (progress : Progress) :
    ∃ next, (answer project site target lines progress request).result = .ok next := by
  unfold answer
  simp only [Journal.bind_eq, Journal.andThen_result_eq_ok_iff]
  cases helperFor? project site.depth request.method with
  | none => exact ⟨progress, interface, found, rfl⟩
  | some pair =>
    simp only [foldlM_copyDeclaration, Journal.andThen_result_eq_ok_iff]
    exact ⟨_, interface, found, _, rfl, (), rfl, rfl⟩

theorem exists_answers {target : Go.Source} {lines : List Text} {requests : List Request}
    (answered : ∀ request ∈ requests, ∃ interface,
      interfaceFor target lines request = .ok interface) (progress : Progress) :
    ∃ last, (requests.foldlM (answer project site target lines) progress).result = .ok last := by
  induction requests generalizing progress with
  | nil => exact ⟨progress, rfl⟩
  | cons request rest ih =>
    rw [List.forall_mem_cons] at answered
    obtain ⟨interface, found⟩ := answered.1
    obtain ⟨next, first⟩ := exists_answer found progress
    obtain ⟨last, others⟩ := ih answered.2 next
    rw [List.foldlM_cons, Journal.bind_eq]
    exact ⟨last, Journal.andThen_result_eq_ok_iff.mpr ⟨next, first, others⟩⟩

/-- **Markers above interfaces with their methods** are answered. -/
theorem exists_applied {stripped : Text} (answered : Answered stripped) :
    ∃ injected, (applyMarkers project site stripped).result = .ok injected := by
  unfold applyMarkers
  dsimp only
  cases markers : requests (rawLines stripped) with
  | nil => exact ⟨_, rfl⟩
  | cons first rest =>
    rw [Answered, markers] at answered
    obtain ⟨last, done⟩ : ∃ last, ((first :: rest).foldlM
        (answer project site (Go.Source.ofText stripped) (rawLines stripped))
        ⟨⟨(Go.Source.ofText stripped).declarations.flatMap (·.keys), []⟩, []⟩).result = .ok last :=
      exists_answers answered _
    dsimp only
    rw [Journal.bind_eq]
    exact ⟨_, Journal.andThen_result_eq_ok_iff.mpr ⟨last, done, rfl⟩⟩

/-! ### Whole runs -/

theorem blank_ending (raw : Text) : blank (Line.ofRaw raw).ending = true := by
  fun_induction Line.ofRaw raw with
  | case1 => rfl
  | case2 => decide
  | case3 => decide
  | case4 c rest _ _ line ih => exact ih

theorem regionBegin?_body (raw : Text) :
    Marker.regionBegin? (Line.ofRaw raw).body = Marker.regionBegin? raw := by
  have whole : (Line.ofRaw raw).body ++ (Line.ofRaw raw).ending = raw := Line.raw_ofRaw raw
  have trims : trim ((Line.ofRaw raw).body ++ (Line.ofRaw raw).ending) = trim (Line.ofRaw raw).body :=
    trim_append_blank (blank_ending raw)
  rw [whole] at trims
  simp only [Marker.regionBegin?, trims]

theorem classify?_body (raw : Text) :
    Marker.classify? (Line.ofRaw raw).body = Marker.classify? raw := by
  have whole : (Line.ofRaw raw).body ++ (Line.ofRaw raw).ending = raw := Line.raw_ofRaw raw
  have trims := trimEnd_append_blank (blank_ending raw) (Line.ofRaw raw).body
  rw [whole] at trims
  simp only [Marker.classify?, trims]

theorem anyRegionIn_eq_false_iff {text : Text} : Marker.anyRegionIn text = false ↔
    ∀ line ∈ rawLines text, Marker.regionBegin? line = none := by
  simp [Marker.anyRegionIn, lines, regionBegin?_body]

theorem requests_eq_nil_iff {text : Text} :
    requests (rawLines text) = [] ↔ Marker.anyInjectionIn text = false := by
  simp only [requests, Marker.anyInjectionIn, lines, List.filterMap_eq_nil_iff, List.any_map,
    List.any_eq_false, Function.comp_apply, classify?_body]
  constructor
  · intro noneAsks line member
    obtain ⟨index, here⟩ := List.mem_iff_getElem?.mp member
    have unasked := noneAsks (line, index) (List.mem_zipIdx_iff_getElem?.mpr here)
    split
    · rename_i method found
      simp [found] at unasked
    · simp
  · intro noneAsks pair member
    have unasked := noneAsks pair.1 (List.fst_mem_of_mem_zipIdx member)
    split
    · rename_i method found
      simp [found] at unasked
    · rfl

theorem stripFrom_bare {lines : List Text} (h : ∀ line ∈ lines, Marker.regionBegin? line = none)
    (number : Nat) : Region.stripFrom .outside number lines = .ok lines := by
  induction lines generalizing number with
  | nil => rfl
  | cons line rest ih =>
    rw [List.forall_mem_cons] at h
    rw [Region.stripFrom_keep (.inl rfl) h.1, ih h.2]
    rfl

theorem strip_bare {text : Text} (h : Marker.anyRegionIn text = false) :
    Region.strip text = .ok text := by
  rw [Region.strip, stripFrom_bare (anyRegionIn_eq_false_iff.mp h)]
  exact congrArg Except.ok (rawLines_flatten text)

/-- A text without markers and regions is left alone, which is what answering no markers comes
to. -/
theorem inject_result (project : Project) (site : Fill.Site) (content : Text) :
    (inject project site content).result =
      ((Region.strip content).mapError .unterminated).bind fun stripped =>
        (applyMarkers project site stripped).result := by
  unfold inject
  split
  · rename_i untouched
    obtain ⟨noMarker, noRegion⟩ : Marker.anyInjectionIn content = false ∧
        Marker.anyRegionIn content = false := by simpa using untouched
    rw [strip_bare noRegion]
    show _ = (applyMarkers project site content).result
    rw [applyMarkers, requests_eq_nil_iff.mpr noMarker]
  · cases Region.strip content with
    | error e => rfl
    | ok stripped =>
      show (Journal.andThen _ _).result = (applyMarkers project site stripped).result
      cases answered : (applyMarkers project site stripped).result with
      | error e => simp [Journal.andThen, Journal.ofExcept, Except.mapError, answered]
      | ok injected =>
        simp only [Journal.andThen, Journal.ofExcept, Except.mapError, answered, Journal.bind_eq]
        split <;> rfl

theorem mem_inject_events {content stripped : Text} (strips : Region.strip content = .ok stripped)
    {event : Event} (member : event ∈ (applyMarkers project site stripped).events) :
    event ∈ (inject project site content).events := by
  unfold inject
  split
  · rename_i untouched
    obtain ⟨noMarker, noRegion⟩ : Marker.anyInjectionIn content = false ∧
        Marker.anyRegionIn content = false := by simpa using untouched
    rw [strip_bare noRegion] at strips
    obtain rfl := Except.ok.inj strips
    rw [applyMarkers, requests_eq_nil_iff.mpr noMarker] at member
    cases member
  · rw [strips]
    simp only [Except.mapError, Journal.ofExcept, Journal.bind_eq, Journal.andThen]
    cases (applyMarkers project site stripped).result with
    | error e => simpa using member
    | ok injected =>
      simp only [List.nil_append]
      split <;> exact List.mem_append_left _ member

end Injection

end Prefill
