import Mathlib.Data.List.Pairwise
import Prefill.Proofs.Order
import Prefill.Proofs.Trees

/-!
What a walk comes upon. A walk goes into every directory that is not skipped, not excluded and no
module, and stops at sources and at modules.

* `mem_found`: what is found, said without the walk;
* `found_ordered`: no two findings lie one below the other, and they come in the order of their
  addresses, so what is found decides the list.
-/

namespace Prefill.Discovery

open Text

/-- Where something was found. -/
def Found.address : Found → Address
  | .source address _ => address
  | .module address => address

/-! ## What is found -/

/-- A walk goes into the directory at an address. -/
structure Enters (scope : Scope) (address : Address) : Prop where
  notSkipped : ∀ name, address.getLast? = some name → isSkipped name = false
  notExcluded : scope.excluded address = false
  notModule : scope.isModule address = false

/-- A walk that comes to an entry stops there. -/
def Stops (scope : Scope) (entry : Tree) : Found → Prop
  | .source address content =>
    entry = .file content ∧ (∀ name, address.getLast? = some name → isSource name = true) ∧
      scope.excluded address = false
  | .module address =>
    entry.isDirectory = true ∧
      (∀ name, address.getLast? = some name → isSkipped name = false) ∧
      scope.excluded address = false ∧ scope.isModule address = true

/-- A walk that has come to the directory `address` comes to what lies at `rest` below it. -/
def Open (scope : Scope) (address rest : Address) : Prop :=
  ∀ front, front <+: rest → front ≠ [] → front ≠ rest → Enters scope (address ++ front)

theorem open_singleton (scope : Scope) (address : Address) (name : Text) :
    Open scope address [name] := by
  intro front isPrefix someFront proper
  have size := isPrefix.length_le
  obtain ⟨first, rest, rfl⟩ := List.exists_cons_of_ne_nil someFront
  obtain rfl : rest = [] := by simpa using size
  exact absurd (isPrefix.eq_of_length rfl) proper

theorem open_cons {scope : Scope} {address rest : Address} {name : Text} (someRest : rest ≠ []) :
    Open scope address (name :: rest) ↔
      Enters scope (address ++ [name]) ∧ Open scope (address ++ [name]) rest := by
  constructor
  · intro isOpen
    refine ⟨isOpen [name] (by simp) (by simp) (by simpa using someRest.symm), ?_⟩
    intro front isPrefix someFront proper
    simpa using isOpen (name :: front) (by simpa using isPrefix) (by simp) (by simpa using proper)
  · rintro ⟨enters, isOpen⟩ front isPrefix someFront proper
    obtain ⟨first, front, rfl⟩ := List.exists_cons_of_ne_nil someFront
    obtain ⟨rfl, inner⟩ := List.cons_prefix_cons.mp isPrefix
    by_cases empty : front = []
    · subst empty
      exact enters
    · simpa using isOpen front inner empty (by simpa using proper)

/-- No directory on the way to what a walk comes to is skipped. -/
theorem notSkipped_of_open {scope : Scope} {rest : Address} (isOpen : Open scope [] rest)
    {name : Text} (member : name ∈ rest.dropLast) : isSkipped name = false := by
  obtain rfl | ⟨inner, last, rfl⟩ := List.eq_nil_or_concat' rest
  · cases member
  · rw [List.dropLast_concat] at member
    obtain ⟨front, back, rfl⟩ := List.append_of_mem member
    have enters := isOpen (front ++ [name]) ⟨back ++ [last], by simp⟩ (by simp) (by simp)
    exact enters.notSkipped name (by simp)

theorem walkEntries_eq (scope : Scope) (address : Address) (entries : List (Text × Tree)) :
    walkEntries scope address entries =
      entries.map fun entry => (entry.1, walk scope (address ++ [entry.1]) entry.1 entry.2) := by
  induction entries with
  | nil => simp [walkEntries]
  | cons first rest ih => simp [walkEntries, ih]

theorem mem_inOrder {parts : List (Text × List Found)} {found : Found} :
    found ∈ inOrder parts ↔ ∃ part ∈ parts, found ∈ part.2 := by
  simp [inOrder, List.mem_flatMap, mem_sortedBy]

/-- One entry of a directory: the walk stops there, or it goes in. -/
theorem mem_walk {scope : Scope} {address : Address} {name : Text} {entry : Tree} {found : Found} :
    found ∈ walk scope (address ++ [name]) name entry ↔
      found.address = address ++ [name] ∧ Stops scope entry found ∨
      entry.isDirectory = true ∧ Enters scope (address ++ [name]) ∧
        found ∈ inOrder (walkEntries scope (address ++ [name]) entry.entries) := by
  cases entry with
  | file content =>
    rw [walk]
    constructor
    · intro member
      split at member
      · rename_i isSource
        obtain rfl := List.mem_singleton.mp member
        exact .inl ⟨rfl, rfl, by simp_all, by simp_all⟩
      · cases member
    · rintro (⟨here, stops⟩ | ⟨isDirectory, -⟩)
      · cases found with
        | source found bytes =>
          obtain rfl : found = address ++ [name] := here
          obtain ⟨same, isSource, notExcluded⟩ := stops
          obtain rfl := Tree.file.inj same
          simp [isSource name (by simp), notExcluded]
        | module found => cases stops.1
      · cases isDirectory
  | link target =>
    rw [walk]
    constructor
    · intro member
      cases member
    · rintro (⟨here, stops⟩ | ⟨isDirectory, -⟩)
      · cases found with
        | source found bytes => cases stops.1
        | module found => cases stops.1
      · cases isDirectory
  | directory entries =>
    rw [walk]
    have last : (address ++ [name]).getLast? = some name := by simp
    constructor
    · intro member
      split at member
      · cases member
      · split at member
        · obtain rfl := List.mem_singleton.mp member
          exact .inl ⟨rfl, rfl, by simp_all, by simp_all, by simp_all⟩
        · exact .inr ⟨rfl, ⟨by simp_all, by simp_all, by simp_all⟩, member⟩
    · rintro (⟨here, stops⟩ | ⟨-, ⟨notSkipped, notExcluded, notModule⟩, member⟩)
      · cases found with
        | source found bytes => cases stops.1
        | module found =>
          obtain rfl : found = address ++ [name] := here
          obtain ⟨-, notSkipped, notExcluded, isModule⟩ := stops
          simp [notSkipped name last, notExcluded, isModule]
      · simpa [notSkipped name last, notExcluded, notModule, Tree.entries] using member

/-- What a walk finds below a directory that it has come to. -/
theorem mem_inOrder_walkEntries {scope : Scope} {tree : Tree} (formed : tree.WellFormed)
    {address : Address} {found : Found} :
    found ∈ inOrder (walkEntries scope address tree.entries) ↔
      ∃ rest entry, rest ≠ [] ∧ found.address = address ++ rest ∧ tree.at? rest = some entry ∧
        Stops scope entry found ∧ Open scope address rest := by
  induction formed generalizing address with
  | file | link =>
    rw [mem_inOrder]
    constructor
    · rintro ⟨part, member, -⟩
      cases member
    · rintro ⟨rest, entry, someRest, -, here, -⟩
      obtain ⟨name, rest, rfl⟩ := List.exists_cons_of_ne_nil someRest
      cases here
  | @directory entries distinct inner ih =>
    rw [mem_inOrder, walkEntries_eq]
    simp only [Tree.entries, List.mem_map, exists_exists_and_eq_and]
    constructor
    · rintro ⟨⟨name, child⟩, member, foundHere⟩
      have named := (Tree.entry?_eq_some_iff distinct).mpr member
      obtain ⟨here, stops⟩ | ⟨-, enters, below⟩ := mem_walk.mp foundHere
      · exact ⟨[name], child, by simp, here, by simp [Tree.at?, named], stops,
          open_singleton scope address name⟩
      · obtain ⟨rest, entry, someRest, there, foundThere, stops, isOpen⟩ :=
          (ih _ member).mp below
        exact ⟨name :: rest, entry, by simp, by simpa using there,
          by simp [Tree.at?, named, foundThere],
          stops, (open_cons someRest).mpr ⟨enters, isOpen⟩⟩
    · rintro ⟨rest, entry, someRest, there, foundThere, stops, isOpen⟩
      obtain ⟨name, rest, rfl⟩ := List.exists_cons_of_ne_nil someRest
      obtain ⟨child, named, below⟩ := Option.bind_eq_some_iff.mp foundThere
      have member := (Tree.entry?_eq_some_iff distinct).mp named
      refine ⟨(name, child), member, mem_walk.mpr ?_⟩
      by_cases last : rest = []
      · subst last
        obtain rfl := Option.some.inj below
        exact .inl ⟨there, stops⟩
      · obtain ⟨enters, isOpen⟩ := (open_cons last).mp isOpen
        have isDirectory : child.isDirectory = true := by
          obtain ⟨label, rest, rfl⟩ := List.exists_cons_of_ne_nil last
          obtain ⟨_, found, -⟩ := Option.bind_eq_some_iff.mp below
          exact Tree.isDirectory_of_entry? found
        exact .inr ⟨isDirectory, enters,
          (ih _ member).mpr ⟨rest, entry, last, by simpa using there, below, stops, isOpen⟩⟩

/-- **What is found** in a project: the entries at which a walk stops and to which it comes. -/
theorem mem_found {top : Tree} (formed : top.WellFormed) {excluded : List Glob} {root : Place}
    {f : Found} :
    f ∈ found top excluded root ↔
      ∃ entry, f.address ≠ [] ∧ top.at? (root.address ++ f.address) = some entry ∧
        Stops (scope top excluded root) entry f ∧ Open (scope top excluded root) [] f.address := by
  unfold found
  cases here : top.at? root.address with
  | none => simp [Tree.at?_append, here]
  | some tree =>
    simp only [Tree.at?_append, here, Option.bind_some]
    rw [mem_inOrder_walkEntries (formed.at? here)]
    constructor
    · rintro ⟨rest, entry, someRest, rfl, there, stops, isOpen⟩
      exact ⟨entry, someRest, there, stops, isOpen⟩
    · rintro ⟨entry, someRest, there, stops, isOpen⟩
      exact ⟨_, entry, someRest, rfl, there, stops, isOpen⟩

/-! ## The order of what is found -/

/-- An address before another: at the first difference its name comes first, and neither lies below
the other. -/
def Before (a b : Address) : Prop :=
  ∃ front x y s t, a = front ++ x :: s ∧ b = front ++ y :: t ∧ x ≠ y ∧ notAfter x y = true

theorem Before.incomparable {a b : Address} (h : Before a b) : ¬ a <+: b ∧ ¬ b <+: a := by
  obtain ⟨front, x, y, s, t, rfl, rfl, differ, -⟩ := h
  constructor
  · intro isPrefix
    simp only [List.prefix_append_right_inj, List.cons_prefix_cons] at isPrefix
    exact differ isPrefix.1
  · intro isPrefix
    simp only [List.prefix_append_right_inj, List.cons_prefix_cons] at isPrefix
    exact differ isPrefix.1.symm

/-- What is found in an entry of a directory lies at that entry or below it. -/
theorem prefix_of_mem_walk {scope : Scope} {tree : Tree} (formed : tree.WellFormed)
    {address : Address} {name : Text} {f : Found}
    (h : f ∈ walk scope (address ++ [name]) name tree) :
    ∃ rest, f.address = address ++ name :: rest := by
  obtain ⟨here, -⟩ | ⟨-, -, below⟩ := mem_walk.mp h
  · exact ⟨[], here⟩
  · obtain ⟨rest, -, -, there, -⟩ := (mem_inOrder_walkEntries formed).mp below
    exact ⟨rest, by simpa using there⟩

/-- What is found below a directory is ordered if what is found in each of its entries is. -/
theorem inOrder_ordered {scope : Scope} {address : Address} {entries : List (Text × Tree)}
    (distinct : (entries.map (·.1)).Nodup) (formed : ∀ entry ∈ entries, entry.2.WellFormed)
    (inner : ∀ entry ∈ entries, (walk scope (address ++ [entry.1]) entry.1 entry.2).Pairwise
      fun f g => Before f.address g.address) :
    (inOrder (walkEntries scope address entries)).Pairwise
      fun f g => Before f.address g.address := by
  have sorts : Sorts fun (a b : Text × List Found) => notAfter a.1 b.1 :=
    separates_notAfter.toSorts.on Prod.fst
  have perm := sortedBy_perm (fun (a b : Text × List Found) => notAfter a.1 b.1)
    (walkEntries scope address entries)
  have names : ((walkEntries scope address entries).map (·.1)).Nodup := by
    simpa [walkEntries_eq, Function.comp_def] using distinct
  have listed {part : Text × List Found}
      (member : part ∈ sortedBy (fun a b => notAfter a.1 b.1) (walkEntries scope address entries)) :
      ∃ entry ∈ entries, part = (entry.1, walk scope (address ++ [entry.1]) entry.1 entry.2) := by
    have := mem_sortedBy.mp member
    rw [walkEntries_eq] at this
    obtain ⟨entry, here, rfl⟩ := List.mem_map.mp this
    exact ⟨entry, here, rfl⟩
  have order := (sorts.sortedBy_pairwise (walkEntries scope address entries)).and
    (List.pairwise_map.mp ((perm.map Prod.fst).nodup_iff.mpr names))
  rw [inOrder, List.pairwise_flatMap]
  refine ⟨?_, ?_⟩
  · intro part member
    obtain ⟨entry, here, rfl⟩ := listed member
    exact inner entry here
  · refine order.imp_of_mem ?_
    intro first second isFirst isSecond before f inFirst g inSecond
    obtain ⟨entry, here, rfl⟩ := listed isFirst
    obtain ⟨other, there, rfl⟩ := listed isSecond
    obtain ⟨s, atFirst⟩ := prefix_of_mem_walk (formed entry here) inFirst
    obtain ⟨t, atSecond⟩ := prefix_of_mem_walk (formed other there) inSecond
    exact ⟨address, entry.1, other.1, s, t, atFirst, atSecond, before.2, before.1⟩

theorem walkEntries_ordered {scope : Scope} {tree : Tree} (formed : tree.WellFormed)
    (address : Address) :
    (inOrder (walkEntries scope address tree.entries)).Pairwise
      fun f g => Before f.address g.address := by
  induction formed generalizing address with
  | file | link => exact .nil
  | @directory entries distinct inner ih =>
    refine inOrder_ordered distinct inner ?_
    rintro ⟨name, entry⟩ member
    have below := ih _ member (address ++ [name])
    cases entry with
    | file content =>
      rw [walk]
      split <;> simp
    | link target =>
      rw [walk]
      exact .nil
    | directory entries =>
      rw [walk]
      split
      · exact .nil
      · split
        · exact List.pairwise_singleton _ _
        · exact below

/-- **The order of what is found.** -/
theorem found_ordered {top : Tree} (formed : top.WellFormed) (excluded : List Glob) (root : Place) :
    (found top excluded root).Pairwise fun f g => Before f.address g.address := by
  unfold found
  split
  · rename_i tree here
    exact walkEntries_ordered (formed.at? here) []
  · exact .nil

/-- Nothing is found below something else that is found. -/
theorem not_prefix_of_mem_found {top : Tree} (formed : top.WellFormed) {excluded : List Glob}
    {root : Place} {f g : Found} (first : f ∈ found top excluded root)
    (second : g ∈ found top excluded root) (differ : f ≠ g) : ¬ f.address <+: g.address := by
  have apart := (found_ordered formed excluded root).imp fun before => before.incomparable
  have : Std.Symm fun (f g : Found) => ¬ f.address <+: g.address ∧ ¬ g.address <+: f.address :=
    ⟨fun _ _ h => h.symm⟩
  exact (apart.forall first second differ).1

end Prefill.Discovery
