import Prefill.Proofs.Nesting
import Prefill.Proofs.Writing

/-!
The two sides of the border of a module: the projects of a run that lie inside it and those that lie
outside, and how their files are told apart in diagnostics.

* `explores_outside`, `explores_inside`: the projects of one side, in the order of the run;
* `isBelow_iff`: the path of a file says whether it lies below a directory.
-/

namespace Prefill

open Text

/-! ## Projects of one side -/

namespace Explores

variable {α : Type} {next : α → List α} {pending visited : List α}

/-- The part of a queue that is kept is worked through by itself, if nothing else leads to it. -/
theorem filter {keep : α → Bool} (h : Explores next pending visited)
    (apart : ∀ a ∈ visited, keep a = false → (next a).filter keep = []) :
    Explores (fun a => (next a).filter keep) (pending.filter keep) (visited.filter keep) := by
  induction h with
  | nil => exact .nil
  | @cons a rest visited _ ih =>
    have later := ih fun b member => apart b (List.mem_cons_of_mem _ member)
    rw [List.filter_append] at later
    cases kept : keep a with
    | true =>
      rw [List.filter_cons_of_pos kept, List.filter_cons_of_pos kept]
      exact .cons later
    | false =>
      have dropped : ¬ keep a = true := by simp [kept]
      rw [List.filter_cons_of_neg dropped, List.filter_cons_of_neg dropped]
      rwa [apart a (by simp) kept, List.append_nil] at later

/-- If moreover what is kept leads to nothing else, this is the work of the kept part alone. -/
theorem filter_closed {keep : α → Bool} (h : Explores next pending visited)
    (apart : ∀ a ∈ visited, keep a = false → (next a).filter keep = [])
    (inner : ∀ a ∈ visited, keep a = true → ∀ b ∈ next a, keep b = true) :
    Explores next (pending.filter keep) (visited.filter keep) := by
  refine (h.filter apart).congr fun a member => ?_
  obtain ⟨member, kept⟩ := List.mem_filter.mp member
  exact List.filter_eq_self.mpr (inner a member kept)

end Explores

theorem eq_singleton_of_nodup {α : Type} {list : List α} {a : α} (nodup : list.Nodup)
    (member : a ∈ list) (only : ∀ b ∈ list, b = a) : list = [a] := by
  refine List.perm_singleton.mp ((List.perm_ext_iff_of_nodup nodup (List.nodup_singleton a)).mpr ?_)
  intro b
  rw [List.mem_singleton]
  exact ⟨only b, fun same => same ▸ member⟩

namespace Run

/-- Whether a place lies in the module at an address. -/
def within (border : Address) (place : Place) : Bool := border.isPrefixOf place.address

theorem within_iff {border : Address} {place : Place} :
    within border place = true ↔ border <+: place.address := List.isPrefixOf_iff_prefix

theorem not_within_iff {border : Address} {place : Place} :
    within border place = false ↔ ¬ border <+: place.address := by
  rw [← within_iff, Bool.not_eq_true]

/-- What a place leads to lies below it. -/
theorem prefix_of_leads {top : Tree} {config : Config} {p q : Place}
    (leads : Explores.Leads (modules top config) p q) : p.address <+: q.address := by
  induction leads with
  | refl => exact List.prefix_rfl
  | tail _ added ih => exact ih.trans (prefix_of_mem_modules added)

theorem below_of_leads {top : Tree} {config : Config} {p q : Place}
    (leads : Explores.Leads (modules top config) p q) : ∃ names, q = p.below names := by
  induction leads with
  | refl => exact ⟨[], rfl⟩
  | tail _ added ih =>
    obtain ⟨names, rfl⟩ := ih
    obtain ⟨address, -, rfl⟩ := mem_modules.mp added
    exact ⟨names ++ address, by rw [Place.below_append]⟩

theorem below_of_visited {top : Tree} {config : Config} {root : Place} {visited : List Place}
    (explores : Explores (modules top config) [root] visited) {p : Place} (member : p ∈ visited) :
    ∃ names, p = root.below names :=
  below_of_leads (explores.mem_iff.mp member)

theorem within_of_mem_modules {top : Tree} {config : Config} {border : Address} {p q : Place}
    (inside : within border p = true) (member : q ∈ modules top config p) :
    within border q = true :=
  within_iff.mpr ((within_iff.mp inside).trans (prefix_of_mem_modules member))

theorem explores_outside {top : Tree} {config : Config} {border : Address}
    {pending visited : List Place} (h : Explores (modules top config) pending visited) :
    Explores (fun p => (modules top config p).filter fun q => !within border q)
      (pending.filter fun q => !within border q) (visited.filter fun q => !within border q) := by
  refine h.filter fun p _ inside => List.filter_eq_nil_iff.mpr fun q member => ?_
  have inside : within border p = true := by simpa using inside
  simp [within_of_mem_modules inside member]

section

variable {top : Tree} {border : Address} (module : ModuleAt top border) {config : Config}

include module

/-- The only module inside that a project outside has is the one at the border. -/
theorem eq_border_of_mem_modules {p q : Place} (outside : within border p = false)
    (member : q ∈ modules top config p) (inside : within border q = true) : q.address = border := by
  obtain ⟨address, ⟨excluded, -, found⟩, rfl⟩ := mem_modules.mp member
  have below := within_iff.mp inside
  rw [Place.below_address] at below ⊢
  exact module.eq_of_found found (not_within_iff.mp outside) below

/-- When no pending project lies above the border any more, the projects inside are on their own. -/
theorem explores_spent {pending visited : List Place}
    (h : Explores (modules top config) pending visited)
    (spent : ∀ p ∈ pending, within border p = false → ¬ p.address <+: border) :
    Explores (modules top config) (pending.filter (within border))
      (visited.filter (within border)) := by
  refine h.filter_closed ?_ fun p _ inside q member => within_of_mem_modules inside member
  intro p member outside
  refine List.filter_eq_nil_iff.mpr fun q added inside => ?_
  have atBorder := eq_border_of_mem_modules module outside added inside
  have above : p.address <+: border := atBorder ▸ prefix_of_mem_modules added
  obtain ⟨start, queued, leads⟩ := h.leads_of_mem member
  have higher := (prefix_of_leads leads).trans above
  cases startInside : within border start with
  | false => exact spent start queued startInside higher
  | true =>
    have deeper := (within_iff.mp startInside).trans (prefix_of_leads leads)
    exact not_within_iff.mp outside deeper

/-- A project outside has no module inside, or the one at the border. -/
theorem filter_modules {place : Place} (away : within border place = false) :
    (modules top config place).filter (within border) = [] ∨
      ∃ start ∈ modules top config place, start.address = border ∧
        (modules top config place).filter (within border) = [start] ∧
        ∀ p ∈ modules top config place, p ≠ start → ¬ p.address <+: border := by
  by_cases none : (modules top config place).filter (within border) = []
  · exact .inl none
  · obtain ⟨start, listed⟩ := List.exists_mem_of_ne_nil _ none
    obtain ⟨added, inside⟩ := List.mem_filter.mp listed
    have atBorder := eq_border_of_mem_modules module away added inside
    have others : ∀ p ∈ modules top config place, p ≠ start → ¬ p.address <+: border := by
      intro p isModule other
      have symmetric : Std.Symm Apart := ⟨fun _ _ => Apart.symm⟩
      exact atBorder ▸ ((modules_apart module.formed place).forall isModule added other).1
    refine .inr ⟨start, added, atBorder, eq_singleton_of_nodup ?_ listed ?_, others⟩
    · refine ((modules_apart module.formed place).sublist List.filter_sublist).imp ?_
      rintro p _ apart rfl
      exact apart.1 List.prefix_rfl
    · intro p member
      by_contra other
      obtain ⟨isModule, pInside⟩ := List.mem_filter.mp member
      have pAtBorder := eq_border_of_mem_modules module away isModule pInside
      exact others p isModule other (pAtBorder ▸ List.prefix_rfl)

/-- **The projects inside a module**, in the order of the run: none, or those that the run comes to
from the module. -/
theorem explores_inside {pending visited : List Place}
    (h : Explores (modules top config) pending visited) (apart : pending.Pairwise Apart)
    (outside : ∀ p ∈ pending, within border p = false) :
    visited.filter (within border) = [] ∨
      ∃ start ∈ visited, start.address = border ∧
        Explores (modules top config) [start] (visited.filter (within border)) := by
  induction h with
  | nil => exact .inl rfl
  | @cons place rest visited later ih =>
    have away := outside place (by simp)
    have dropped : ¬ within border place = true := by simp [away]
    have restOutside (p : Place) (member : p ∈ rest) : within border p = false :=
      outside p (List.mem_cons_of_mem _ member)
    rw [List.filter_cons_of_neg dropped]
    obtain none | ⟨start, added, atBorder, only, others⟩ := filter_modules module away
    · have stillOutside (p : Place) (member : p ∈ rest ++ modules top config place) :
          within border p = false := by
        obtain member | added := List.mem_append.mp member
        · exact restOutside p member
        · simpa using List.filter_eq_nil_iff.mp none p added
      obtain empty | ⟨start, member, atBorder, explores⟩ :=
        ih (apart_next module.formed apart) stillOutside
      · exact .inl empty
      · exact .inr ⟨start, List.mem_cons_of_mem _ member, atBorder, explores⟩
    · -- The module at the border is found here, and nowhere else later.
      have above : place.address <+: border := atBorder ▸ prefix_of_mem_modules added
      have spent (p : Place) (member : p ∈ rest ++ modules top config place)
          (pOutside : within border p = false) : ¬ p.address <+: border := by
        intro higher
        obtain member | isModule := List.mem_append.mp member
        · obtain ⟨first, second⟩ := (List.pairwise_cons.mp apart).1 p member
          obtain related | related := List.prefix_or_prefix_of_prefix above higher
          · exact first related
          · exact second related
        · refine others p isModule ?_ higher
          rintro rfl
          exact not_within_iff.mp pOutside (atBorder ▸ List.prefix_rfl)
      have explores := explores_spent module later spent
      rw [List.filter_append, only, List.filter_eq_nil_iff.mpr, List.nil_append] at explores
      · exact .inr ⟨start, List.mem_cons_of_mem _ (later.subset _ (List.mem_append_right _ added)),
          atBorder, explores⟩
      · intro p member
        simp [restOutside p member]

end

/-- No directory on the way is skipped, and none is excluded as seen from one above it. -/
def Admitted (excluded : List Glob) (inner : Address) : Prop :=
  ∀ front middle back, inner = front ++ middle ++ back → middle ≠ [] →
    (∀ name, middle.getLast? = some name → Discovery.isSkipped name = false) ∧
      (excluded.any fun glob => glob.isMatch (joinWith "/" middle)) = false

theorem Admitted.drop {excluded : List Glob} {front rest : Address}
    (h : Admitted excluded (front ++ rest)) : Admitted excluded rest := by
  intro first middle back whole someMiddle
  exact h (front ++ first) middle back (by simp [whole]) someMiddle

/-- Of the beginnings of a list with a property, one has no other before it. -/
theorem exists_first_prefix {α : Type} {P : List α → Prop} {list : List α} (someList : list ≠ [])
    (holds : P list) : ∃ front rest, list = front ++ rest ∧ front ≠ [] ∧ P front ∧
      ∀ before, before <+: front → before ≠ [] → before ≠ front → ¬ P before := by
  induction size : list.length using Nat.strong_induction_on generalizing list with
  | _ n ih =>
    by_cases earlier : ∃ before, before <+: list ∧ before ≠ [] ∧ before ≠ list ∧ P before
    · obtain ⟨before, isPrefix, someBefore, proper, early⟩ := earlier
      have shorter : before.length < n := by
        have differ : before.length ≠ list.length := fun same => proper (isPrefix.eq_of_length same)
        have := isPrefix.length_le
        omega
      obtain ⟨front, rest, rfl, first⟩ := ih before.length shorter someBefore early rfl
      obtain ⟨more, rfl⟩ := isPrefix
      exact ⟨front, rest ++ more, by simp, first⟩
    · refine ⟨list, [], by simp, someList, holds, ?_⟩
      intro before isPrefix someBefore proper early
      exact earlier ⟨before, isPrefix, someBefore, proper, early⟩

/-- On the way to a module that is neither skipped nor excluded, the first module is found. -/
theorem mem_modules_of_admitted {top : Tree} {config : Config} {excluded : List Glob}
    (patterns : config.excluded = .ok excluded) {place : Place} {front rest : Address}
    (module : ModuleAt top (place.address ++ (front ++ rest)))
    (admitted : Admitted excluded (front ++ rest)) (someFront : front ≠ [])
    (isModule : (Discovery.scope top excluded place).isModule front = true)
    (first : ∀ before, before <+: front → before ≠ [] → before ≠ front →
      ¬ (Discovery.scope top excluded place).isModule before = true) :
    place.below front ∈ modules top config place := by
  have enters {before : Address} (isPrefix : before <+: front) (someBefore : before ≠ []) :
      (∀ name, before.getLast? = some name → Discovery.isSkipped name = false) ∧
        (Discovery.scope top excluded place).excluded before = false := by
    obtain ⟨more, rfl⟩ := isPrefix
    exact admitted [] before (more ++ rest) (by simp) someBefore
  have looks := module.look_of_prefix
    ((List.prefix_append_right_inj place.address).mpr (List.prefix_append front rest))
  obtain ⟨entry, there, shallow⟩ := Option.map_eq_some_iff.mp looks
  have isDirectory : entry.isDirectory = true := by
    cases entry with
    | file | link => cases shallow
    | directory entries => rfl
  obtain ⟨notSkipped, notExcluded⟩ := enters List.prefix_rfl someFront
  refine mem_modules.mpr ⟨front, ⟨excluded, patterns, ?_⟩, rfl⟩
  refine (Discovery.mem_found module.formed).mpr
    ⟨entry, someFront, there, ⟨isDirectory, notSkipped, notExcluded, isModule⟩, ?_⟩
  intro before isPrefix someBefore proper
  obtain ⟨notSkipped, notExcluded⟩ := enters isPrefix someBefore
  exact ⟨notSkipped, notExcluded, by simpa using first before isPrefix someBefore proper⟩

/-- **A run comes to every module** that is neither skipped nor excluded. -/
theorem leads_of_admitted {top : Tree} {config : Config} {excluded : List Glob}
    (patterns : config.excluded = .ok excluded) {place : Place} {inner : Address}
    (module : ModuleAt top (place.address ++ inner)) (admitted : Admitted excluded inner) :
    Explores.Leads (modules top config) place (place.below inner) := by
  induction size : inner.length using Nat.strong_induction_on generalizing place inner with
  | _ n ih =>
    by_cases empty : inner = []
    · subst empty
      exact .refl
    · have atEnd : (Discovery.scope top excluded place).isModule inner = true := module.isModule rfl
      obtain ⟨front, rest, rfl, someFront, isModule, first⟩ := exists_first_prefix
        (P := fun before => (Discovery.scope top excluded place).isModule before = true) empty atEnd
      have found := mem_modules_of_admitted patterns module admitted someFront isModule first
      have shorter : rest.length < n := by
        have := List.length_pos_iff.mpr someFront
        rw [List.length_append] at size
        omega
      have further : ModuleAt top ((place.below front).address ++ rest) := by
        rw [Place.below_address, List.append_assoc]
        exact module
      rw [Place.below_append]
      exact .head found (ih rest.length shorter further admitted.drop rfl)

/-- **The projects of two runs outside a module.** -/
theorem filter_outside {first second : Tree} {config : Config} {border : Address}
    (h : Outside first second border) {root : Place} {visited visited' : List Place}
    (explores : Explores (modules first config) [root] visited)
    (explores' : Explores (modules second config) [root] visited') :
    (visited.filter fun p => !within border p) = visited'.filter fun p => !within border p := by
  have outer : Explores _ _ (visited.filter fun p => !within border p) := explores_outside explores
  refine (outer.congr fun p member => ?_).unique (explores_outside explores')
  have away : ¬ border <+: p.address := not_within_iff.mp (by simpa using (List.mem_filter.mp member).2)
  rw [h.modules_eq away]

/-- **The projects of two runs inside a module**, if the module is a project of both or of neither. -/
theorem filter_inside {first second : Tree} {config : Config} {root : Place} {inner : Address}
    (h : Inside first second (root.address ++ inner)) (proper : inner ≠ [])
    {visited visited' : List Place} (explores : Explores (modules first config) [root] visited)
    (explores' : Explores (modules second config) [root] visited')
    (reached : Explores.Leads (modules first config) root (root.below inner) ↔
      Explores.Leads (modules second config) root (root.below inner)) :
    visited.filter (within (root.address ++ inner)) =
      visited'.filter (within (root.address ++ inner)) := by
  have outside : within (root.address ++ inner) root = false := by
    rw [not_within_iff]
    intro isPrefix
    have size := isPrefix.length_le
    have positive := List.length_pos_iff.mpr proper
    rw [List.length_append] at size
    omega
  have alone (p : Place) (member : p ∈ [root]) : within (root.address ++ inner) p = false :=
    List.mem_singleton.mp member ▸ outside
  have atModule {start : Place} {top : Tree} {list : List Place}
      (explores : Explores (modules top config) [root] list) (member : start ∈ list)
      (atBorder : start.address = root.address ++ inner) : start = root.below inner := by
    obtain ⟨names, rfl⟩ := below_of_visited explores member
    rw [Place.below_address] at atBorder
    rw [List.append_cancel_left atBorder]
  have entered {list : List Place} (member : root.below inner ∈ list) :
      list.filter (within (root.address ++ inner)) ≠ [] := by
    refine List.ne_nil_of_mem (List.mem_filter.mpr ⟨member, within_iff.mpr ?_⟩)
    exact Place.below_address root inner ▸ List.prefix_rfl
  rw [← explores.mem_iff, ← explores'.mem_iff] at reached
  obtain none | ⟨start, member, atBorder, within⟩ :=
    explores_inside h.module explores (List.pairwise_singleton _ _) alone <;>
    obtain none' | ⟨start', member', atBorder', within'⟩ :=
      explores_inside h.module' explores' (List.pairwise_singleton _ _) alone
  · rw [none, none']
  · obtain rfl := atModule explores' member' atBorder'
    exact absurd none (entered (reached.mpr member'))
  · obtain rfl := atModule explores member atBorder
    exact absurd none' (entered (reached.mp member))
  · obtain rfl := atModule explores member atBorder
    obtain rfl := atModule explores' member' atBorder'
    refine (within.congr fun p listed => ?_).unique within'
    exact h.modules_eq (within_iff.mp (List.mem_filter.mp listed).2) config

end Run

/-! ## Paths of files -/

/-- Names as they stand in a file system. -/
def Tree.ValidName (name : Text) : Prop := name ≠ [] ∧ '/' ∉ name

/-- All entries of a tree have valid names. -/
inductive Tree.Named : Tree → Prop
  | file (content : Utf8.Bytes) : Named (.file content)
  | link (target : Text) : Named (.link target)
  | directory {entries : List (Text × Tree)} (valid : ∀ entry ∈ entries, ValidName entry.1)
      (inner : ∀ entry ∈ entries, Named entry.2) : Named (.directory entries)

theorem Tree.Named.at? {top entry : Tree} (named : top.Named) {address : Address}
    (h : top.at? address = some entry) : ∀ name ∈ address, ValidName name := by
  induction address generalizing top with
  | nil => exact nofun
  | cons label address ih =>
    obtain ⟨child, here, below⟩ := Option.bind_eq_some_iff.mp h
    have member := entry?_eq_some_mem here
    cases named with
    | file | link => cases member
    | directory valid inner =>
      intro name listed
      obtain rfl | listed := List.mem_cons.mp listed
      · exact valid _ member
      · exact ih (inner _ member) below name listed

namespace Path

/-- What stands before the names below a path. -/
def lead (p : Path) : Text :=
  match p.text.getLast? with
  | none => []
  | some '/' => p.text
  | some _ => p.text ++ ['/']

theorem join_text (p : Path) (name : Text) : (p.join name).text = p.lead ++ name := by
  unfold join lead
  split <;> simp_all

theorem lead_of_getLast? {p : Path} {c : Char} (last : p.text.getLast? = some c)
    (plain : c ≠ '/') : p.lead = p.text ++ ['/'] := by
  unfold lead
  rw [last]
  split <;> simp_all

theorem lead_join (p : Path) {name : Text} (valid : Tree.ValidName name) :
    (p.join name).lead = (p.join name).text ++ ['/'] := by
  obtain ⟨someName, plain⟩ := valid
  have last : (p.join name).text.getLast? = some (name.getLast someName) := by
    rw [join_text, List.getLast?_append_of_ne_nil _ someName, List.getLast?_eq_some_getLast]
  refine lead_of_getLast? last fun same => ?_
  exact plain (same ▸ List.getLast_mem someName)

end Path

/-- Names with a slash behind each. -/
def slashed (names : List Text) : Text := names.flatMap fun name => name ++ ['/']

theorem Place.lead_below (place : Place) {names : Address}
    (valid : ∀ name ∈ names, Tree.ValidName name) :
    (place.below names).path.lead = place.path.lead ++ slashed names := by
  induction names generalizing place with
  | nil => simp [below, slashed]
  | cons name names ih =>
    rw [below, List.foldl_cons, ← below,
      ih (place.child name) fun other member => valid other (List.mem_cons_of_mem _ member)]
    rw [child, Path.lead_join _ (valid name (by simp)), Path.join_text]
    simp [slashed]

theorem slash_prefix_iff {b m s t : Text} (plain : '/' ∉ b) (plain' : '/' ∉ m) :
    b ++ '/' :: s <+: m ++ '/' :: t ↔ b = m ∧ s <+: t := by
  induction b generalizing m with
  | nil =>
    cases m with
    | nil => simp
    | cons c m => simp_all [List.cons_prefix_cons, eq_comm]
  | cons c b ih =>
    cases m with
    | nil =>
      have differ : c ≠ '/' := fun same => plain (by simp [same])
      simp [List.cons_prefix_cons, differ]
    | cons d m =>
      have later := ih (m := m) (by simp_all) (by simp_all)
      simp only [List.cons_append, List.cons_prefix_cons, later, List.cons.injEq, and_assoc]

theorem slashed_prefix_iff {front names : List Text} {last : Text}
    (valid : ∀ name ∈ front, '/' ∉ name) (valid' : ∀ name ∈ names, '/' ∉ name)
    (plain : '/' ∉ last) : slashed front <+: slashed names ++ last ↔ front <+: names := by
  induction front generalizing names with
  | nil => simp [slashed]
  | cons name front ih =>
    have frontEq : slashed (name :: front) = name ++ '/' :: slashed front := by simp [slashed]
    rw [frontEq]
    cases names with
    | nil =>
      refine iff_of_false ?_ (by simp)
      intro isPrefix
      exact plain (by simpa [slashed] using isPrefix.subset (by simp : '/' ∈ name ++ '/' :: slashed front))
    | cons label names =>
      have namesEq : slashed (label :: names) ++ last = label ++ '/' :: (slashed names ++ last) := by
        simp [slashed]
      rw [namesEq, slash_prefix_iff (valid name (by simp)) (valid' label (by simp)),
        List.cons_prefix_cons, ih (fun other member => valid other (List.mem_cons_of_mem _ member))
          fun other member => valid' other (List.mem_cons_of_mem _ member)]

/-- A diagnostic about a file below a directory. -/
def Diagnostic.isBelow (d : Diagnostic) (directory : Place) : Bool :=
  (directory.path.text ++ ['/']).isPrefixOf d.file.toList

/-- **The path of a file** says whether it lies below a directory. -/
theorem isBelow_iff {root : Place} {front names : Address} {name : Text} (someFront : front ≠ [])
    (valid : ∀ label ∈ front, Tree.ValidName label)
    (valid' : ∀ label ∈ names ++ [name], Tree.ValidName label) {d : Diagnostic}
    (about : d.file = (root.below (names ++ [name])).path.display) :
    d.isBelow (root.below front) = true ↔ front <+: names := by
  have directory : (root.below front).path.text ++ ['/'] = root.path.lead ++ slashed front := by
    rw [← Place.lead_below root valid]
    obtain rfl | ⟨inner, last, rfl⟩ := List.eq_nil_or_concat' front
    · exact absurd rfl someFront
    · rw [Place.below_append]
      exact (Path.lead_join _ (valid last (by simp))).symm
  have file : d.file.toList = root.path.lead ++ (slashed names ++ name) := by
    rw [about, Place.below_append, Path.display, str, String.toList_ofList,
      ← List.append_assoc, ← Place.lead_below root fun label member => valid' label (by simp [member])]
    exact Path.join_text _ _
  rw [Diagnostic.isBelow, directory, file, List.isPrefixOf_iff_prefix,
    List.prefix_append_right_inj]
  exact slashed_prefix_iff (fun label member => (valid label member).2)
    (fun label member => (valid' label (by simp [member])).2) (valid' name (by simp)).2

end Prefill
