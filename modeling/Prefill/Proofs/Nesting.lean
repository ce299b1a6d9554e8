import Mathlib.Data.List.Sort
import Prefill.Proofs.Exploring
import Prefill.Proofs.Links

/-!
Two trees with a module at one address. The files of a project on one side of the border of the
module are the same in both trees if the trees are the same on that side.

* `Discovery.found_congr`: what is found decides the list;
* `Outside`, `Inside`: the two trees agree on one side;
* `Outside.load_eq`, `Inside.load_eq`: projects of that side load alike.
-/

namespace Prefill

open Text

/-! ## What is found decides the list -/

namespace Discovery

theorem Before.asymm {a b : Address} (h : Before a b) : ¬ Before b a := by
  obtain ⟨front, x, y, s, t, rfl, rfl, differ, before⟩ := h
  rintro ⟨front', x', y', s', t', second, first, differ', after⟩
  induction front generalizing front' with
  | nil =>
    cases front' with
    | nil =>
      obtain ⟨rfl, -⟩ := List.cons.inj first
      obtain ⟨rfl, -⟩ := List.cons.inj second
      exact differ (separates_notAfter.antisymm _ _ before after)
    | cons name front' =>
      obtain ⟨rfl, -⟩ := List.cons.inj first
      obtain ⟨rfl, -⟩ := List.cons.inj second
      exact differ rfl
  | cons name front ih =>
    cases front' with
    | nil =>
      obtain ⟨rfl, -⟩ := List.cons.inj first
      obtain ⟨rfl, -⟩ := List.cons.inj second
      exact differ' rfl
    | cons label front' =>
      exact ih front' (List.cons.inj second).2 (List.cons.inj first).2

/-- Walks that come upon the same do so in the same order. -/
theorem found_congr {first second : Tree} (formed : first.WellFormed) (formed' : second.WellFormed)
    {excluded : List Glob} {place : Place}
    (same : ∀ f, f ∈ found first excluded place ↔ f ∈ found second excluded place) :
    found first excluded place = found second excluded place := by
  have irreflexive : Std.Irrefl fun (f g : Found) => Before f.address g.address :=
    ⟨fun _ h => h.asymm h⟩
  have antisymmetric : Std.Antisymm fun (f g : Found) => Before f.address g.address :=
    ⟨fun _ _ h h' => absurd h' h.asymm⟩
  exact (found_ordered formed excluded place).eq_of_mem_iff
    (found_ordered formed' excluded place) same

theorem scope_isModule (top : Tree) (excluded : List Glob) (place : Place) (address : Address) :
    (scope top excluded place).isModule address =
      top.isFileAt (place.address ++ address ++ [manifest]) := by
  rw [scope]

theorem scope_excluded (top : Tree) (excluded : List Glob) (place : Place) (address : Address) :
    (scope top excluded place).excluded address =
      excluded.any fun glob => glob.isMatch (joinWith "/" address) := rfl

/-- What is excluded does not depend on the tree. -/
theorem scope_excluded_eq (first second : Tree) (excluded : List Glob) (place : Place)
    (address : Address) :
    (scope first excluded place).excluded address =
      (scope second excluded place).excluded address := by
  rw [scope_excluded, scope_excluded]

/-- A finding of one tree is one of another if the same stands on the way to it, and the same
directories there are modules. -/
theorem mem_found_of_mem {first second : Tree} (formed : first.WellFormed)
    (formed' : second.WellFormed) {excluded : List Glob} {place : Place} {f : Found}
    (same : ∀ front, front <+: f.address →
      first.look (place.address ++ front) = second.look (place.address ++ front))
    (alike : ∀ front, front <+: f.address →
      (first.at? (place.address ++ front)).any Tree.isDirectory = true →
      (scope first excluded place).isModule front = (scope second excluded place).isModule front)
    (h : f ∈ found first excluded place) : f ∈ found second excluded place := by
  obtain ⟨entry, someAddress, here, stops, isOpen⟩ := (mem_found formed).mp h
  have looks := same f.address List.prefix_rfl
  rw [Tree.look, Tree.look, here] at looks
  obtain ⟨other, there, alikeEntries⟩ := Option.map_eq_some_iff.mp looks.symm
  refine (mem_found formed').mpr ⟨other, someAddress, there, ?_, ?_⟩
  · cases f with
    | source address content =>
      obtain ⟨rfl, isSource, notExcluded⟩ := stops
      have file : other = .file content := by
        cases other with
        | file bytes => exact alikeEntries
        | link | directory => cases alikeEntries
      exact ⟨file, isSource, scope_excluded_eq first second excluded place _ ▸ notExcluded⟩
    | module address =>
      obtain ⟨isDirectory, notSkipped, notExcluded, isModule⟩ := stops
      have isDirectoryToo : other.isDirectory = true := by
        cases entry with
        | file | link => cases isDirectory
        | directory entries =>
          cases other with
          | file | link => cases alikeEntries
          | directory => rfl
      refine ⟨isDirectoryToo, notSkipped, scope_excluded_eq first second excluded place _ ▸ notExcluded,
        ?_⟩
      have inBoth := alike address List.prefix_rfl (by
        have here : first.at? (place.address ++ address) = some entry := here
        simpa [here] using isDirectory)
      exact inBoth ▸ isModule
  · intro front isPrefix someFront proper
    obtain ⟨notSkipped, notExcluded, notModule⟩ := isOpen front isPrefix someFront proper
    refine ⟨notSkipped, scope_excluded_eq first second excluded place _ ▸ notExcluded, ?_⟩
    obtain ⟨rest, whole⟩ := isPrefix
    have someRest : rest ≠ [] := by
      rintro rfl
      exact proper (by simpa using whole)
    rw [← whole, ← List.append_assoc] at here
    obtain ⟨above, atFront, isDirectory⟩ := Tree.isDirectory_of_at?_append someRest here
    have inBoth := alike front ⟨rest, whole⟩ (by simpa [atFront] using isDirectory)
    exact inBoth ▸ notModule

end Discovery

theorem mapM_congr_of_mem {ε α β : Type} {f g : α → Except ε β} {list : List α}
    (same : ∀ a ∈ list, f a = g a) : list.mapM f = list.mapM g := by
  induction list with
  | nil => rfl
  | cons a rest ih =>
    rw [List.mapM_cons, List.mapM_cons, same a (by simp),
      ih fun b member => same b (List.mem_cons_of_mem _ member)]

theorem Project.load_eq (top : Tree) {config : Config} {excluded : List Glob} {place : Place}
    (patterns : config.excluded = .ok excluded) :
    load top config place =
      let found := Discovery.ofTree top excluded place
      (Journal.ofExcept (found.helpers.mapM (readHelper top place))).andThen fun files =>
        (ofFiles place files found.sources found.submodules).mapError .conflict := by
  rw [load, patterns]
  rfl

/-- A project loads alike in two trees if the same is found there. -/
theorem Project.load_congr {first second : Tree} (formed : first.WellFormed)
    (formed' : second.WellFormed) {config : Config} {place : Place}
    (same : ∀ excluded, Discovery.found first excluded place = Discovery.found second excluded place) :
    load first config place = load second config place := by
  cases patterns : config.excluded with
  | error bad => simp only [load, patterns, Except.mapError, Journal.bind_eq, Journal.andThen,
      Journal.ofExcept]
  | ok excluded =>
    have found : Discovery.ofTree first excluded place = Discovery.ofTree second excluded place := by
      simp only [Discovery.ofTree, same excluded]
    have texts (q : Place) (helper : q ∈ (Discovery.ofTree second excluded place).helpers) :
        readHelper first place q = readHelper second place q := by
      obtain ⟨address, content, member, -, rfl⟩ := Run.mem_helpers.mp helper
      obtain ⟨_, -, inSecond, ⟨rfl, -⟩, -⟩ := (Discovery.mem_found formed').mp member
      rw [← same excluded] at member
      obtain ⟨_, -, inFirst, ⟨rfl, -⟩, -⟩ := (Discovery.mem_found formed).mp member
      have firstText : first.at? (place.address ++ address) = some (.file content) := inFirst
      have secondText : second.at? (place.address ++ address) = some (.file content) := inSecond
      simp only [readHelper, Tree.text, Place.below_address, firstText, secondText]
    have read := mapM_congr_of_mem texts
    rw [load_eq first patterns, load_eq second patterns, found]
    dsimp only
    rw [read]

/-! ## The border of a module -/

/-- Names that lead to a file are followed without a link. -/
theorem Tree.walkFrom_of_file? {top : Tree}
    {follow : Address → List Path.Component → Except FileError Address} {content : Utf8.Bytes}
    {front rest : Address} (h : top.file? (front ++ rest) = some content) :
    walkFrom top follow front (rest.map .normal) = .ok (front ++ rest) := by
  induction rest generalizing front with
  | nil => simp [walkFrom]
  | cons name rest ih =>
    have there := file?_eq_some_iff.mp h
    obtain ⟨above, here, isDirectory⟩ := isDirectory_of_at?_append (List.cons_ne_nil _ _) there
    rw [List.append_cons] at h there ⊢
    have next := ih h
    rw [List.map_cons, walkFrom]
    have opened : (!(top.at? front).any Tree.isDirectory) = false := by simp [here, isDirectory]
    rw [opened, if_neg Bool.false_ne_true]
    cases entry : top.at? (front ++ [name]) with
    | none =>
      rw [at?_append, entry] at there
      cases there
    | some child =>
      cases child with
      | link target =>
        rw [at?_append, entry] at there
        cases rest <;> cases there
      | file | directory => exact next

theorem Tree.locateFrom_of_file? {top : Tree} (hops : Nat) {address : Address}
    {content : Utf8.Bytes} (h : top.file? address = some content) :
    top.locateFrom hops [] (address.map .normal) = .ok address := by
  have plain : top.file? ([] ++ address) = some content := h
  cases hops with
  | zero => exact walkFrom_of_file? plain
  | succ hops => exact walkFrom_of_file? plain

theorem Tree.isFileAt_of_file? {top : Tree} {address : Address} {content : Utf8.Bytes}
    (h : top.file? address = some content) : top.isFileAt address = true := by
  rw [isFileAt, locateFrom_of_file? linkLimit h]
  simp [file?_eq_some_iff.mp h, isFile]

/-- A module stands at an address of a tree. -/
structure ModuleAt (top : Tree) (border : Address) : Prop where
  formed : top.WellFormed
  manifest : ∃ content, top.file? (border ++ [Discovery.manifest]) = some content

namespace ModuleAt

variable {top : Tree} {border : Address} (h : ModuleAt top border)

include h

/-- The module and what lies above it are directories. -/
theorem look_of_prefix {address : Address} (above : address <+: border) :
    top.look address = some (.directory []) := by
  obtain ⟨content, there⟩ := h.manifest
  obtain ⟨rest, rfl⟩ := above
  rw [List.append_assoc] at there
  obtain ⟨entry, here, isDirectory⟩ := Tree.isDirectory_of_at?_append
    (List.append_ne_nil_of_right_ne_nil rest (List.cons_ne_nil _ _))
    (Tree.file?_eq_some_iff.mp there)
  cases entry with
  | file | link => cases isDirectory
  | directory entries => simp [Tree.look, here, Tree.shallow]

theorem isModule {excluded : List Glob} {place : Place} {front : Address}
    (here : place.address ++ front = border) :
    (Discovery.scope top excluded place).isModule front = true := by
  obtain ⟨content, there⟩ := h.manifest
  rw [Discovery.scope_isModule, here]
  exact Tree.isFileAt_of_file? there

/-- A walk from outside stops at the module. -/
theorem eq_of_found {excluded : List Glob} {place : Place} {f : Discovery.Found}
    (found : f ∈ Discovery.found top excluded place) (away : ¬ border <+: place.address)
    (within : border <+: place.address ++ f.address) : place.address ++ f.address = border := by
  obtain ⟨entry, -, -, -, isOpen⟩ := (Discovery.mem_found h.formed).mp found
  have above : place.address <+: border := by
    obtain above | below := List.prefix_or_prefix_of_prefix (List.prefix_append _ f.address) within
    · exact above
    · exact absurd below away
  obtain ⟨front, rfl⟩ := above
  by_contra proper
  have inner : front <+: f.address := (List.prefix_append_right_inj _).mp within
  have someFront : front ≠ [] := by
    rintro rfl
    exact away (by simp)
  have enters := isOpen front inner someFront fun same => proper (by rw [same])
  have isModule : (Discovery.scope top excluded place).isModule front = true := h.isModule rfl
  exact Bool.false_ne_true (enters.notModule.symm.trans isModule)

end ModuleAt

/-! ## Two trees that agree on one side of the border -/

/-- What is found in two trees is the same if the same stands on the way to it and the same
directories there are modules. -/
theorem Discovery.mem_found_congr {first second : Tree} (formed : first.WellFormed)
    (formed' : second.WellFormed) {excluded : List Glob} {place : Place} {f : Found}
    (same : ∀ front, front <+: f.address →
      first.look (place.address ++ front) = second.look (place.address ++ front))
    (alike : ∀ front, front <+: f.address →
      (first.at? (place.address ++ front)).any Tree.isDirectory = true →
      (scope first excluded place).isModule front = (scope second excluded place).isModule front) :
    f ∈ found first excluded place ↔ f ∈ found second excluded place := by
  constructor
  · exact mem_found_of_mem formed formed' same alike
  · refine mem_found_of_mem formed' formed (fun front inner => (same front inner).symm) ?_
    intro front inner isDirectory
    refine (alike front inner ?_).symm
    rw [← (Tree.any_look _ _).1, same front inner, (Tree.any_look _ _).1]
    exact isDirectory

/-- Two trees with a module at an address that are the same outside it, where no link outside it
leads into it. -/
structure Outside (first second : Tree) (border : Address) : Prop where
  module : ModuleAt first border
  module' : ModuleAt second border
  same : ∀ address, ¬ border <+: address → first.look address = second.look address
  closed : first.Closed fun address => border <+: address → address = border

namespace Outside

variable {first second : Tree} {border : Address} (h : Outside first second border)

include h

theorem look {address : Address} (away : border <+: address → address = border) :
    first.look address = second.look address := by
  by_cases within : border <+: address
  · obtain rfl := away within
    rw [h.module.look_of_prefix List.prefix_rfl, h.module'.look_of_prefix List.prefix_rfl]
  · exact h.same address within

theorem isModule_eq {excluded : List Glob} {place : Place} {front : Address}
    (away : border <+: place.address ++ front → place.address ++ front = border)
    (isDirectory : (first.at? (place.address ++ front)).any Tree.isDirectory = true) :
    (Discovery.scope first excluded place).isModule front =
      (Discovery.scope second excluded place).isModule front := by
  by_cases within : border <+: place.address ++ front
  · rw [h.module.isModule (away within), h.module'.isModule (away within)]
  · rw [Discovery.scope_isModule, Discovery.scope_isModule]
    refine Tree.isFileAt_congr (fun _ => h.look) h.closed isDirectory ?_
    intro above isPrefix below
    obtain rfl | isPrefix := List.prefix_concat_iff.mp isPrefix
    · obtain same | deeper := List.prefix_concat_iff.mp below
      · exact same.symm
      · exact absurd deeper within
    · exact absurd (below.trans isPrefix) within

/-- **The files of a project outside the module.** -/
theorem found_eq {place : Place} (away : ¬ border <+: place.address) (excluded : List Glob) :
    Discovery.found first excluded place = Discovery.found second excluded place := by
  refine Discovery.found_congr h.module.formed h.module'.formed fun f => ?_
  by_cases outside : border <+: place.address ++ f.address → place.address ++ f.address = border
  · have above {front : Address} (inner : front <+: f.address) :
        border <+: place.address ++ front → place.address ++ front = border := by
      intro below
      have longer : place.address ++ front <+: place.address ++ f.address :=
        (List.prefix_append_right_inj _).mpr inner
      have whole := outside (below.trans longer)
      exact (whole ▸ longer).eq_of_length_le below.length_le
    exact Discovery.mem_found_congr h.module.formed h.module'.formed
      (fun front inner => h.look (above inner)) fun front inner => h.isModule_eq (above inner)
  · obtain ⟨within, other⟩ := Classical.not_imp.mp outside
    constructor
    · exact fun found => absurd (h.module.eq_of_found found away within) other
    · exact fun found => absurd (h.module'.eq_of_found found away within) other

theorem load_eq {place : Place} (away : ¬ border <+: place.address) (config : Config) :
    Project.load first config place = Project.load second config place :=
  Project.load_congr h.module.formed h.module'.formed (h.found_eq away)

theorem modules_eq {place : Place} (away : ¬ border <+: place.address) (config : Config) :
    Run.modules first config place = Run.modules second config place := by
  unfold Run.modules Run.contents
  split
  · simp only [Discovery.ofTree, h.found_eq away]
  · rfl

end Outside

/-- Two trees with a module at an address that are the same inside it, where no link inside it leads
out of it. -/
structure Inside (first second : Tree) (border : Address) : Prop where
  module : ModuleAt first border
  module' : ModuleAt second border
  same : ∀ address, border <+: address → first.look address = second.look address
  closed : first.Closed fun address => border <+: address ∨ address <+: border

namespace Inside

variable {first second : Tree} {border : Address} (h : Inside first second border)

include h

theorem look {address : Address} (related : border <+: address ∨ address <+: border) :
    first.look address = second.look address := by
  obtain within | above := related
  · exact h.same address within
  · rw [h.module.look_of_prefix above, h.module'.look_of_prefix above]

/-- **The files of a project inside the module.** -/
theorem found_eq {place : Place} (within : border <+: place.address) (excluded : List Glob) :
    Discovery.found first excluded place = Discovery.found second excluded place := by
  refine Discovery.found_congr h.module.formed h.module'.formed fun f => ?_
  have below (front : Address) : border <+: place.address ++ front :=
    within.trans (List.prefix_append _ _)
  refine Discovery.mem_found_congr h.module.formed h.module'.formed
    (fun front _ => h.look (.inl (below front))) ?_
  intro front _ isDirectory
  rw [Discovery.scope_isModule, Discovery.scope_isModule]
  refine Tree.isFileAt_congr (fun _ => h.look) h.closed isDirectory ?_
  intro above isPrefix
  exact List.prefix_or_prefix_of_prefix ((below front).trans (List.prefix_append _ _)) isPrefix

theorem load_eq {place : Place} (within : border <+: place.address) (config : Config) :
    Project.load first config place = Project.load second config place :=
  Project.load_congr h.module.formed h.module'.formed (h.found_eq within)

theorem modules_eq {place : Place} (within : border <+: place.address) (config : Config) :
    Run.modules first config place = Run.modules second config place := by
  unfold Run.modules Run.contents
  split
  · simp only [Discovery.ofTree, h.found_eq within]
  · rfl

end Inside

end Prefill
