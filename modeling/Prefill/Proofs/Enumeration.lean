import Mathlib.Data.List.Forall2
import Mathlib.Data.List.Induction
import Prefill.Proofs.Callee
import Prefill.Proofs.Filing

/-!
Loading and the order in which files are found. The helper files of a project are sorted before
anything else is done with them, by a comparison that tells files of different paths apart
(`sortedBy_of_perm`). So the project, the diagnostics on the way and the error of a failed load are
the same in whatever order the files come (`ofDiscovery_of_perm`). Loading fails exactly where two
exported functions have one name at one depth, and the first two that meet decide what is said of
them (`checkFiles_eq_error_iff`).
-/

namespace Prefill

open Text

/-! ## Sorting -/

/-- Sorting a list in another order gives the same list, where elements that the comparison does not
tell apart are equal. -/
theorem Sorts.sortedBy_of_perm {α : Type} {le : α → α → Bool} (h : Sorts le) {list order : List α}
    (perm : order.Perm list)
    (separated : ∀ a ∈ list, ∀ b ∈ list, le a b = true → le b a = true → a = b) :
    sortedBy le order = sortedBy le list := by
  have sorted : (sortedBy le order).Perm (sortedBy le list) :=
    (sortedBy_perm le order).trans (perm.trans (sortedBy_perm le list).symm)
  refine sorted.eq_of_pairwise ?_ (h.sortedBy_pairwise order) (h.sortedBy_pairwise list)
  intro a b inOrder inList
  exact separated a (perm.mem_iff.mp (mem_sortedBy.mp inOrder)) b (mem_sortedBy.mp inList)

namespace HelperFile

/-- Files that stand on both sides of each other have one path. -/
theorem same_of_notAfter {a b : HelperFile} (there : notAfter a b = true)
    (back : notAfter b a = true) : a.path.same b.path = true := by
  unfold notAfter at there back
  by_cases depth : a.depth = b.depth
  · simp only [depth, if_true, Path.notAfter, Path.stepsNotAfter_eq_lexNotAfter] at there back
    have steps := (separates_lexNotAfter Path.separates_component).antisymm _ _ there back
    simp [Path.same, steps]
  · simp only [depth, Ne.symm depth, if_false, decide_eq_true_eq] at there back
    omega

theorem sortedBy_of_perm {files order : List HelperFile} (perm : order.Perm files)
    (apart : files.Pairwise fun a b => a.path.same b.path = false) :
    sortedBy notAfter order = sortedBy notAfter files := by
  refine sorts_notAfter.sortedBy_of_perm perm ?_
  intro a inFirst b inSecond there back
  by_contra differ
  have symmetric : Std.Symm fun a b : HelperFile => a.path.same b.path = false :=
    ⟨fun a b away => by simpa [Path.same, eq_comm] using away⟩
  have away := apart.forall inFirst inSecond differ
  rw [same_of_notAfter there back] at away
  cases away

end HelperFile

/-! ## Entering functions until two of them clash -/

theorem Journal.mapError_result_eq_error_iff {ε δ α : Type} {f : ε → δ} {j : Journal ε α} {e : δ} :
    (j.mapError f).result = .error e ↔ ∃ cause, j.result = .error cause ∧ e = f cause := by
  simp only [mapError]
  cases j.result with
  | ok a => exact iff_of_false nofun nofun
  | error cause => simp [Except.mapError, eq_comm]

/-- The results of a loop are a loop over results. -/
theorem Journal.result_foldlM {ε β γ : Type} (f : β → γ → Journal ε β) (list : List γ) (b : β) :
    (list.foldlM f b).result = list.foldlM (fun b c => (f b c).result) b := by
  induction list generalizing b with
  | nil => rfl
  | cons c rest ih =>
    rw [List.foldlM_cons, List.foldlM_cons, bind_eq, andThen]
    cases first : (f b c).result with
    | ok next => exact ih next
    | error e => rfl

namespace Index

/-- Enters a helper, or says what it clashes with. -/
def enter (index : Index) (call : Entry) : Except Conflict Index :=
  (index.insert call.directory call.symbol).map (·.1)

namespace Entry

/-- Two helpers with one name at one depth. -/
def Twins (e f : Entry) : Prop := e.symbol.depth = f.symbol.depth ∧ e.symbol.name = f.symbol.name

/-- What is said of two such helpers, the second of which was met when the first had been entered. -/
def conflict (e f : Entry) : Conflict :=
  if e.directory.same f.directory then .inDirectory f.symbol.name f.directory e.symbol f.symbol
  else .atDepth f.symbol.name f.symbol.depth e.symbol f.symbol

/-- The depth of a helper is that of its directory. -/
def Graded (entries : List Entry) : Prop :=
  ∀ e ∈ entries, ∀ f ∈ entries, e.directory.same f.directory = true → e.symbol.depth = f.symbol.depth

end Entry

theorem clashes_iff_twins {entries : List Entry} (graded : Entry.Graded entries) {e f : Entry}
    (first : e ∈ entries) (second : f ∈ entries) : e.Clashes f ↔ e.Twins f := by
  constructor
  · rintro ⟨name, directory | depth⟩
    · exact ⟨graded e first f second directory, name⟩
    · exact ⟨depth, name⟩
  · rintro ⟨depth, name⟩
    exact ⟨name, .inr depth⟩

theorem enter_eq_error {index : Index} {call : Entry} {conflict : Conflict} :
    index.enter call = .error conflict ↔
      index.insert call.directory call.symbol = .error conflict := by
  unfold enter
  cases index.insert call.directory call.symbol with
  | ok pair => exact iff_of_false nofun nofun
  | error c =>
    constructor
    · exact fun same => congrArg Except.error (Except.error.inj same)
    · exact fun same => congrArg Except.error (Except.error.inj same)

theorem Holds.exists_of_insert_eq_error {index : Index} {entries : List Entry}
    (holds : index.Holds entries) {call : Entry} {conflict : Conflict}
    (graded : ∀ e ∈ entries,
      e.directory.same call.directory = true → e.symbol.depth = call.symbol.depth)
    (failed : index.insert call.directory call.symbol = .error conflict) :
    ∃ e ∈ entries, e.Twins call ∧ conflict = e.conflict call := by
  unfold insert attempt at failed
  cases inDirectory : index.inDirectory? call.directory call.symbol.name with
  | some first =>
    obtain ⟨e, here, rfl⟩ :=
      Option.map_eq_some_iff.mp ((holds.byDirectory _ _).symm.trans inDirectory)
    have fits := List.find?_some here
    simp only [Bool.and_eq_true, decide_eq_true_eq] at fits
    have same : e.directory.same call.directory = true := decide_eq_true fits.1
    have member := List.mem_of_find?_eq_some here
    refine ⟨e, member, ⟨graded e member same, fits.2⟩, ?_⟩
    rw [Entry.conflict, if_pos same]
    rw [inDirectory] at failed
    exact (Except.error.inj failed).symm
  | none =>
    cases atDepth : index.atDepth? call.symbol.depth call.symbol.name with
    | some first =>
      obtain ⟨e, here, rfl⟩ := Option.map_eq_some_iff.mp ((holds.byDepth _ _).symm.trans atDepth)
      have fits := List.find?_some here
      simp only [Bool.and_eq_true, decide_eq_true_eq] at fits
      have member := List.mem_of_find?_eq_some here
      have elsewhere := holds.inDirectory?_eq_none_iff.mp inDirectory e member fits.2
      refine ⟨e, member, fits, ?_⟩
      rw [Entry.conflict, elsewhere, if_neg Bool.false_ne_true]
      rw [inDirectory, atDepth] at failed
      exact (Except.error.inj failed).symm
    | none =>
      rw [inDirectory, atDepth] at failed
      cases failed

/-- **A clash** names the one entry that has the name and the depth already. -/
theorem Holds.insert_eq_error_iff {index : Index} {entries : List Entry}
    (holds : index.Holds entries) {call : Entry} {conflict : Conflict}
    (graded : ∀ e ∈ entries,
      e.directory.same call.directory = true → e.symbol.depth = call.symbol.depth) :
    index.insert call.directory call.symbol = .error conflict ↔
      ∃ e ∈ entries, e.Twins call ∧ conflict = e.conflict call := by
  constructor
  · exact holds.exists_of_insert_eq_error graded
  · rintro ⟨e, member, twins, rfl⟩
    obtain ⟨other, failed⟩ := holds.insert_of_clash member ⟨twins.2, .inr twins.1⟩
    obtain ⟨f, member', twins', rfl⟩ := holds.exists_of_insert_eq_error graded failed
    -- Two entries with the name and the depth of the new one would clash with each other.
    have same : e = f := by
      by_contra differ
      have symmetric : Std.Symm fun e f : Entry => ¬ e.Clashes f :=
        ⟨fun e f free clash => free clash.symm⟩
      refine holds.apart.forall member member' differ ⟨?_, .inr ?_⟩
      · exact twins.2.trans twins'.2.symm
      · exact twins.1.trans twins'.1.symm
    rw [failed, same]

/-- Helpers are entered one after another as long as none clashes with one before it. -/
theorem Holds.foldlM_enter {index : Index} {entries : List Entry} (holds : index.Holds entries)
    (calls : List Entry) : (∃ next, calls.foldlM enter index = .ok next) ↔
      (entries ++ calls).Pairwise fun e f => ¬ e.Clashes f := by
  induction calls generalizing index entries with
  | nil => exact iff_of_true ⟨index, rfl⟩ (by simpa using holds.apart)
  | cons call rest ih =>
    rw [List.foldlM_cons]
    by_cases clash : ∃ e ∈ entries, e.Clashes call
    · obtain ⟨e, member, clash⟩ := clash
      obtain ⟨conflict, failed⟩ := holds.insert_of_clash member clash
      rw [enter_eq_error.mpr failed]
      refine iff_of_false nofun ?_
      intro apart
      exact (List.pairwise_append.mp apart).2.2 e member call List.mem_cons_self clash
    · obtain ⟨next, done, holdsNext⟩ := holds.insert_of_free fun e member h => clash ⟨e, member, h⟩
      have entered : index.enter call = .ok next := by
        rw [enter, done]
        rfl
      rw [entered]
      show (∃ final, rest.foldlM enter next = .ok final) ↔ _
      simpa using ih holdsNext

theorem Holds.of_foldlM_enter {index next : Index} {entries calls : List Entry}
    (holds : index.Holds entries) (done : calls.foldlM enter index = .ok next) :
    next.Holds (entries ++ calls) := by
  induction calls generalizing index entries with
  | nil =>
    obtain rfl := Except.ok.inj done
    simpa using holds
  | cons call rest ih =>
    rw [List.foldlM_cons] at done
    cases first : index.insert call.directory call.symbol with
    | error conflict =>
      rw [enter_eq_error.mpr first] at done
      cases done
    | ok pair =>
      obtain ⟨inserted, hidden⟩ := pair
      rw [enter, first] at done
      simpa using ih (holds.insert_eq_ok call first).2 done

end Index

/-- A loop fails at the first round that does. -/
theorem foldlM_eq_error_iff {ε β γ : Type} {f : β → γ → Except ε β} {list : List γ} {b : β} {e : ε} :
    list.foldlM f b = .error e ↔ ∃ before c after reached, list = before ++ c :: after ∧
      before.foldlM f b = .ok reached ∧ f reached c = .error e := by
  induction list generalizing b with
  | nil => exact iff_of_false nofun (by simp)
  | cons first rest ih =>
    rw [List.foldlM_cons]
    cases round : f b first with
    | error stop =>
      constructor
      · intro same
        obtain rfl := Except.error.inj same
        exact ⟨[], first, rest, b, rfl, rfl, round⟩
      · rintro ⟨before, c, after, reached, cut, went, failed⟩
        cases before with
        | nil =>
          obtain ⟨rfl, rfl⟩ := List.cons.inj cut
          obtain rfl := Except.ok.inj went
          exact round.symm.trans failed
        | cons _ before =>
          obtain ⟨rfl, rfl⟩ := List.cons.inj cut
          rw [List.foldlM_cons, round] at went
          cases went
    | ok next =>
      refine ih.trans ?_
      constructor
      · rintro ⟨before, c, after, reached, rfl, went, failed⟩
        exact ⟨first :: before, c, after, reached, rfl, by rwa [List.foldlM_cons, round], failed⟩
      · rintro ⟨before, c, after, reached, cut, went, failed⟩
        cases before with
        | nil =>
          obtain ⟨rfl, rfl⟩ := List.cons.inj cut
          obtain rfl := Except.ok.inj went
          rw [round] at failed
          cases failed
        | cons _ before =>
          obtain ⟨rfl, rfl⟩ := List.cons.inj cut
          exact ⟨before, c, after, reached, rfl, by rwa [List.foldlM_cons, round] at went, failed⟩

namespace Program.Origin

/-- A function as it is entered into the index. -/
def entry (o : Origin) : Index.Entry := ⟨o.file.directory, o.file.symbol o.declaration⟩

/-- Two functions with one name at one depth. -/
def Alike (a b : Origin) : Prop :=
  a.file.depth = b.file.depth ∧ a.declaration.name = b.declaration.name

/-- What is said of two such functions, of which the first was met before the second: they stand in
one directory, or else at one depth. -/
def conflict (a b : Origin) : Conflict :=
  if a.file.directory.same b.file.directory then
    .inDirectory b.declaration.name b.file.directory (a.file.symbol a.declaration)
      (b.file.symbol b.declaration)
  else
    .atDepth b.declaration.name b.file.depth (a.file.symbol a.declaration)
      (b.file.symbol b.declaration)

end Program.Origin

namespace Project

/-- The exported functions of files, in the order of the files and of their text. -/
def exports (files : List HelperFile) : List Program.Origin :=
  (Program.origins files).filter fun o =>
    o.declaration.kind = .function && o.declaration.isExported

/-- The first two functions to meet with one name at one depth. -/
def FirstClash (files : List HelperFile) (a b : Program.Origin) : Prop :=
  ∃ before between after, exports files = before ++ a :: between ++ b :: after ∧
    ((before ++ a :: between).Pairwise fun x y => ¬ x.Alike y) ∧ a.Alike b

theorem map_entry_exports (files : List HelperFile) :
    (exports files).map Program.Origin.entry =
      files.flatMap HelperFile.entries := by
  rw [exports, Program.origins, List.filter_flatMap, List.map_flatMap]
  congr 1
  funext file
  rw [HelperFile.entries, HelperFile.symbols, HelperFile.exportedFunctions, List.filter_map,
    List.map_map, List.map_map]
  rfl

theorem enterFile_result (index : Index) (file : HelperFile) :
    (enterFile index file).result = file.entries.foldlM Index.enter index := by
  rw [enterFile, Journal.result_foldlM, HelperFile.entries, List.foldlM_map]
  congr 1
  funext index symbol
  rw [Index.enter]
  simp only [Journal.bind_eq, Journal.andThen, Journal.ofExcept]
  cases index.insert file.directory symbol with
  | error e => rfl
  | ok pair =>
    obtain ⟨next, hidden⟩ := pair
    cases hidden <;> rfl

/-- Checking files enters their exported functions one after another. -/
theorem checkFiles_result (files : List HelperFile) (index : Index) :
    (files.foldlM checkFile index).result =
      ((exports files).map Program.Origin.entry).foldlM Index.enter index := by
  rw [map_entry_exports, Journal.result_foldlM]
  simp only [checkFile_result, enterFile_result]
  induction files generalizing index with
  | nil => rfl
  | cons file rest ih =>
    rw [List.foldlM_cons, List.flatMap_cons, List.foldlM_append]
    exact bind_congr fun next => ih next

/-- Files of one directory lie at one depth. -/
theorem graded_of_read {root : Path} {files : List HelperFile}
    (read : ∀ file ∈ files, file.ReadBelow root) :
    Index.Entry.Graded ((exports files).map Program.Origin.entry) := by
  have depth : ∀ o ∈ exports files, o.file.depth = Path.depthBelow root o.file.directory := by
    intro o member
    obtain ⟨inFiles, -⟩ := Program.mem_origins.mp (List.mem_filter.mp member).1
    obtain ⟨path, content, made⟩ := read o.file inFiles
    rw [made]
    rfl
  intro e first f second same
  obtain ⟨a, inFirst, rfl⟩ := List.mem_map.mp first
  obtain ⟨b, inSecond, rfl⟩ := List.mem_map.mp second
  have directory : a.file.directory.components = b.file.directory.components :=
    of_decide_eq_true same
  show a.file.depth = b.file.depth
  rw [depth a inFirst, depth b inSecond, Path.depthBelow, Path.depthBelow, directory]

/-- **The first clash decides** whether helper files can be loaded together, and what is said if
they cannot. -/
theorem checkFiles_eq_error_iff {root : Path} {files : List HelperFile}
    (read : ∀ file ∈ files, file.ReadBelow root) {conflict : Conflict} :
    (files.foldlM checkFile .empty).result = .error conflict ↔
      ∃ a b, FirstClash files a b ∧ conflict = a.conflict b := by
  have graded := graded_of_read read
  have apartIff {part : List Program.Origin} (sub : ∀ o ∈ part, o ∈ exports files) :
      ((part.map Program.Origin.entry).Pairwise fun e f => ¬ e.Clashes f) ↔
        part.Pairwise fun a b => ¬ a.Alike b := by
    rw [List.pairwise_map]
    refine List.Pairwise.iff_of_mem fun {a b} inFirst inSecond => not_congr ?_
    exact Index.clashes_iff_twins graded (List.mem_map_of_mem (sub a inFirst))
      (List.mem_map_of_mem (sub b inSecond))
  have near {part : List Program.Origin} (sub : ∀ o ∈ part, o ∈ exports files) {b : Program.Origin}
      (listed : b ∈ exports files) : ∀ e ∈ part.map Program.Origin.entry,
        e.directory.same b.entry.directory = true → e.symbol.depth = b.entry.symbol.depth := by
    intro e member
    obtain ⟨o, inPart, rfl⟩ := List.mem_map.mp member
    exact graded _ (List.mem_map_of_mem (sub o inPart)) _ (List.mem_map_of_mem listed)
  rw [checkFiles_result, foldlM_eq_error_iff]
  simp only [Index.enter_eq_error]
  constructor
  · rintro ⟨calls, call, after, reached, cut, entered, failed⟩
    obtain ⟨met, rest, listed, rfl, later⟩ := List.map_eq_append_iff.mp cut
    obtain ⟨b, rest, rfl, rfl, rfl⟩ := List.map_eq_cons_iff.mp later
    have sub : ∀ o ∈ met, o ∈ exports files := fun o member => by simp [listed, member]
    have holds : reached.Holds (met.map Program.Origin.entry) :=
      Index.holds_empty.of_foldlM_enter entered
    obtain ⟨e, member, twins, rfl⟩ :=
      (holds.insert_eq_error_iff (near sub (by simp [listed]))).mp failed
    obtain ⟨a, inMet, rfl⟩ := List.mem_map.mp member
    obtain ⟨before, between, rfl⟩ := List.append_of_mem inMet
    exact ⟨a, b, ⟨before, between, rest, listed, (apartIff sub).mp holds.apart, twins⟩, rfl⟩
  · rintro ⟨a, b, ⟨before, between, after, listed, apart, alike⟩, rfl⟩
    have sub : ∀ o ∈ before ++ a :: between, o ∈ exports files := by
      intro o member
      rw [listed]
      exact List.mem_append_left _ member
    obtain ⟨reached, entered⟩ :=
      (Index.holds_empty.foldlM_enter ((before ++ a :: between).map Program.Origin.entry)).mpr
        ((apartIff sub).mpr apart)
    have holds : reached.Holds ((before ++ a :: between).map Program.Origin.entry) :=
      Index.holds_empty.of_foldlM_enter entered
    refine ⟨(before ++ a :: between).map Program.Origin.entry, b.entry,
      after.map Program.Origin.entry, reached, ?_, entered, ?_⟩
    · rw [listed]
      exact List.map_append
    · exact (holds.insert_eq_error_iff (near sub (by simp [listed]))).mpr
        ⟨a.entry, List.mem_map_of_mem (by simp), alike, rfl⟩

/-! ## Any order -/

/-- Of elements that are not all apart, there is a first that is not apart from one before it. -/
theorem exists_first_of_not_pairwise {α : Type} {R : α → α → Prop} {list : List α}
    (h : ¬ list.Pairwise R) : ∃ before a between b after,
      list = before ++ a :: between ++ b :: after ∧ (before ++ a :: between).Pairwise R ∧ ¬ R a b := by
  induction list using List.reverseRecOn with
  | nil => exact absurd .nil h
  | append_singleton front last ih =>
    by_cases apart : front.Pairwise R
    · have met : ∃ a ∈ front, ¬ R a last := by
        by_contra none
        refine h (List.pairwise_append.mpr ⟨apart, List.pairwise_singleton _ _, ?_⟩)
        intro a member b isLast
        obtain rfl := List.mem_singleton.mp isLast
        by_contra clash
        exact none ⟨a, member, clash⟩
      obtain ⟨a, member, clash⟩ := met
      obtain ⟨before, between, rfl⟩ := List.append_of_mem member
      exact ⟨before, a, between, last, [], rfl, apart, clash⟩
    · obtain ⟨before, a, between, b, after, rfl, free, clash⟩ := ih apart
      exact ⟨before, a, between, b, after ++ [last], by simp, free, clash⟩

theorem exists_firstClash_iff {files : List HelperFile} :
    (∃ a b, FirstClash files a b) ↔ ¬ (exports files).Pairwise fun a b => ¬ a.Alike b := by
  constructor
  · rintro ⟨a, b, before, between, after, listed, -, alike⟩ apart
    rw [listed] at apart
    exact (List.pairwise_append.mp apart).2.2 a (by simp) b List.mem_cons_self alike
  · intro clash
    obtain ⟨before, a, between, b, after, listed, apart, alike⟩ := exists_first_of_not_pairwise clash
    exact ⟨a, b, before, between, after, listed, apart, not_not.mp alike⟩

theorem exports_perm {files order : List HelperFile} (perm : order.Perm files) :
    (exports order).Perm (exports files) :=
  (perm.flatMap_right _).filter _

/-- Whether two functions clash does not depend on the order of the files. -/
theorem pairwise_exports_iff {files order : List HelperFile} (perm : order.Perm files) :
    ((exports order).Pairwise fun a b => ¬ a.Alike b) ↔
      (exports files).Pairwise fun a b => ¬ a.Alike b :=
  (exports_perm perm).pairwise_iff fun free alike => free ⟨alike.1.symm, alike.2.symm⟩

/-- What a loop finds in another order. -/
theorem mapM_of_perm {ε α β : Type} {f : α → Except ε β} {list order : List α} {results : List β}
    (perm : order.Perm list) (h : list.mapM f = .ok results) :
    ∃ others, order.mapM f = .ok others ∧ others.Perm results := by
  obtain ⟨others, found, same⟩ := List.perm_comp_forall₂ perm (forall₂_of_mapM h)
  refine ⟨others, ?_, same⟩
  clear same perm
  induction found with
  | nil => rfl
  | cons first _ ih =>
    rw [List.mapM_cons, first, ih]
    rfl

theorem ofDiscovery_eq {top : Tree} {root : Place} {found : Discovery} {files : List HelperFile}
    (read : found.helpers.mapM (readHelper top root) = .ok files) :
    ofDiscovery top root found =
      (ofFiles root files found.sources found.submodules).mapError .conflict := by
  rw [ofDiscovery, read]
  rfl

theorem ofFiles_eq_error_iff {root : Place} {files : List HelperFile}
    {sources submodules : List Place} {conflict : Conflict} :
    (ofFiles root files sources submodules).result = .error conflict ↔
      ((sortedBy HelperFile.notAfter files).foldlM checkFile .empty).result = .error conflict := by
  simp only [ofFiles, Journal.bind_eq, Journal.andThen]
  cases ((sortedBy HelperFile.notAfter files).foldlM checkFile .empty).result with
  | error e => simp
  | ok index => simp [Journal.tell, Journal.done]

/-- **The order in which files are found does not matter.** Let the helper files be readable and
have different paths. In any other order they make the same project, with the same diagnostics, and
so the same programs; or loading fails with the same error. It fails exactly where two exported
functions have one name at one depth, and the error is about the first two that meet when the files
are taken by depth and path: that they stand in one directory, or else at one depth. -/
theorem ofDiscovery_of_perm {top : Tree} {root : Place} {found order : Discovery}
    {files : List HelperFile} (perm : order.helpers.Perm found.helpers)
    (sources : order.sources = found.sources) (submodules : order.submodules = found.submodules)
    (read : found.helpers.mapM (readHelper top root) = .ok files)
    (apart : found.helpers.Pairwise fun p q => p.path.same q.path = false) :
    ofDiscovery top root order = ofDiscovery top root found ∧
    (∀ project project', (ofDiscovery top root order).result = .ok project →
      (ofDiscovery top root found).result = .ok project' → ∀ target depth arguments,
        Program.synthesize project target depth arguments =
          Program.synthesize project' target depth arguments) ∧
    ((∃ e, (ofDiscovery top root found).result = .error e) ↔
      ∃ (i j : Nat) (a b : Program.Origin), i < j ∧
        (exports files)[i]? = some a ∧ (exports files)[j]? = some b ∧ a.Alike b) ∧
    ∀ e, (ofDiscovery top root found).result = .error e ↔
      ∃ a b, FirstClash (sortedBy HelperFile.notAfter files) a b ∧ e = .conflict (a.conflict b) := by
  have filesApart : files.Pairwise fun a b => a.path.same b.path = false := by
    have paths : (files.map (·.path)).Pairwise fun p q => p.same q = false := by
      rw [paths_of_read (forall₂_of_mapM read)]
      exact List.pairwise_map.mpr apart
    exact List.pairwise_map.mp paths
  have same : ofDiscovery top root order = ofDiscovery top root found := by
    obtain ⟨others, readOthers, permFiles⟩ := mapM_of_perm perm read
    rw [ofDiscovery_eq readOthers, ofDiscovery_eq read, sources, submodules]
    simp only [ofFiles, HelperFile.sortedBy_of_perm permFiles filesApart]
  have readBelow : ∀ file ∈ sortedBy HelperFile.notAfter files, file.ReadBelow root.path := by
    intro file member
    obtain ⟨place, -, isFile⟩ := exists_of_mem_mapM read (mem_sortedBy.mp member)
    exact readBelow_of_readHelper isFile
  have errorIff (e : LoadError) : (ofDiscovery top root found).result = .error e ↔
      ∃ a b, FirstClash (sortedBy HelperFile.notAfter files) a b ∧ e = .conflict (a.conflict b) := by
    rw [ofDiscovery_eq read, Journal.mapError_result_eq_error_iff]
    simp only [ofFiles_eq_error_iff, checkFiles_eq_error_iff readBelow]
    constructor
    · rintro ⟨_, ⟨a, b, clash, rfl⟩, rfl⟩
      exact ⟨a, b, clash, rfl⟩
    · rintro ⟨a, b, clash, rfl⟩
      exact ⟨_, ⟨a, b, clash, rfl⟩, rfl⟩
  refine ⟨same, ?_, ?_, errorIff⟩
  · intro project project' made made'
    rw [same, made'] at made
    obtain rfl := Except.ok.inj made
    exact fun _ _ _ => rfl
  · have failsIff : (∃ e, (ofDiscovery top root found).result = .error e) ↔
        ∃ a b, FirstClash (sortedBy HelperFile.notAfter files) a b := by
      simp only [errorIff]
      constructor
      · rintro ⟨_, a, b, clash, -⟩
        exact ⟨a, b, clash⟩
      · rintro ⟨a, b, clash⟩
        exact ⟨_, a, b, clash, rfl⟩
    rw [failsIff, exists_firstClash_iff, pairwise_exports_iff (sortedBy_perm _ _),
      List.pairwise_iff_getElem]
    simp only [not_forall, not_not, List.getElem?_eq_some_iff]
    constructor
    · rintro ⟨i, j, left, right, less, alike⟩
      exact ⟨i, j, _, _, less, ⟨left, rfl⟩, ⟨right, rfl⟩, alike⟩
    · rintro ⟨i, j, _, _, less, ⟨left, rfl⟩, ⟨right, rfl⟩, alike⟩
      exact ⟨i, j, left, right, less, alike⟩

/-- Two directories side by side, with a helper file in each that declares the same function. -/
def siblings : Tree :=
  let helper := helperTree ["func Sum() int \x7b\x7d"]
  .directory [("proj".toList, .directory
    [("x".toList, .directory [("h.go".toList, helper)]),
      ("y".toList, .directory [("h.go".toList, helper)])])]

/-- The function of one of the two files. -/
def siblingSum (path : String) : Symbol :=
  ⟨"Sum".toList, { results := ["int".toList] }, ⟨path.toList⟩, 6, 1⟩

/-- The two files clash in either order, and the error names them in the same order. -/
theorem siblings_clash_in_any_order :
    let found := Discovery.ofTree siblings [] Project.proj
    let order : Discovery := { found with helpers := found.helpers.reverse }
    order.helpers ≠ found.helpers ∧
      ofDiscovery siblings Project.proj order = ofDiscovery siblings Project.proj found ∧
      (ofDiscovery siblings Project.proj order).result = .error (.conflict
        (.atDepth "Sum".toList 1 (siblingSum "proj/x/h.go") (siblingSum "proj/y/h.go"))) := by
  intro found order
  have places : found.helpers = [Project.proj.below ["x".toList, "h.go".toList],
      Project.proj.below ["y".toList, "h.go".toList]] := by decide +kernel
  have readable : (found.helpers.mapM (readHelper siblings Project.proj)).toOption.isSome = true := by
    decide +kernel
  obtain ⟨files, read⟩ := Option.isSome_iff_exists.mp readable
  have apart : found.helpers.Pairwise fun p q => p.path.same q.path = false := by decide +kernel
  have perm : order.helpers.Perm found.helpers := found.helpers.reverse_perm
  have alike := (ofDiscovery_of_perm perm rfl rfl (eq_ok_of_toOption read) apart).1
  have said : (match (ofDiscovery siblings Project.proj found).result with
      | .error e => some e
      | .ok _ => none) = some (.conflict (.atDepth "Sum".toList 1 (siblingSum "proj/x/h.go")
        (siblingSum "proj/y/h.go"))) := by decide +kernel
  refine ⟨?_, alike, ?_⟩
  · show found.helpers.reverse ≠ found.helpers
    rw [places]
    decide
  · rw [alike]
    split at said
    · rename_i e failed
      rw [failed, Option.some.inj said]
    · cases said

end Project

end Prefill
