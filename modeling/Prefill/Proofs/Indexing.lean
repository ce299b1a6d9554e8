import Mathlib.Data.List.Perm.Basic
import Prefill.Helper.Index

/-!
The index under any sequence of insertions. It is kept in two tables, by depth and by directory, each
of which lists the helpers that were entered (`Lists`), and what it holds is that one list (`Holds`).
A helper that clashes with one that was entered before is refused and leaves both tables as they are;
all others go into both.

* `Holds.attempt_of_free`, `Holds.attempt_of_clash`: what an attempt does to the list;
* `Holds.attempt_error_iff`: an attempt fails exactly when it clashes with an entry;
* `Holds.nearest?_eq_some_iff`: what a search up the levels finds, said without the tables;
* `attempts_consistent`: all views of the index show the insertions that succeeded, and for helpers
  that can all be entered the order does not matter.
-/

namespace Prefill.Index

open Text

/-- Two helpers of which only one can be entered: they have one name in one directory or at one
depth. -/
def Entry.Clashes (e f : Entry) : Prop :=
  e.symbol.name = f.symbol.name ∧
    (e.directory.same f.directory = true ∨ e.symbol.depth = f.symbol.depth)

theorem Entry.Clashes.symm {e f : Entry} (h : e.Clashes f) : f.Clashes e := by
  obtain ⟨name, place⟩ := h
  refine ⟨name.symm, ?_⟩
  rcases place with directory | depth
  · left
    simpa [Path.same, eq_comm] using directory
  · right
    exact depth.symm

/-- Where at most one element is as wanted, a search finds all of them. -/
theorem toList_find? {α : Type} {p : α → Bool} {list : List α}
    (single : list.Pairwise fun a b => ¬ (p a = true ∧ p b = true)) :
    (list.find? p).toList = list.filter p := by
  induction single with
  | nil => rfl
  | @cons a rest away _ ih =>
    cases wanted : p a with
    | true =>
      have none : rest.filter p = [] := by
        apply List.filter_eq_nil_iff.mpr
        intro b member other
        exact away b member ⟨wanted, other⟩
      simp [wanted, none]
    | false => simp [wanted, ih]

/-! ## One table -/

section Table

variable {κ : Type} [DecidableEq κ] {precedes : κ → κ → Bool} {table : Table κ Names}
  {keyOf : Entry → κ} {entries : List Entry}

theorem named?_addNamed (ordered : Table.Ordered precedes table) {key other : κ} {symbol : Symbol}
    {name : Text} : named? (addNamed precedes key symbol table) other name =
      if key = other ∧ symbol.name = name then some symbol else named? table other name := by
  unfold named? addNamed
  rw [Table.find?_alter ordered]
  by_cases here : key = other
  · subst here
    rw [if_pos rfl, Option.bind_some, Table.find?_alter (Table.ordered_unordered _)]
    by_cases named : symbol.name = name
    · simp [named]
    · cases table.find? key <;> simp [named, Table.find?]
  · simp [here]

/-- A table shows some helpers, each under its name and a key that it has. -/
def Lists (table : Table κ Names) (keyOf : Entry → κ) (entries : List Entry) : Prop :=
  ∀ key name, named? table key name =
    (entries.find? fun e => keyOf e = key && e.symbol.name = name).map (·.symbol)

theorem lists_nil (keyOf : Entry → κ) : Lists [] keyOf [] := fun _ _ => rfl

theorem Lists.named?_eq_none_iff (lists : Lists table keyOf entries) {key : κ} {name : Text} :
    named? table key name = none ↔ ∀ e ∈ entries, e.symbol.name = name → keyOf e ≠ key := by
  rw [lists key name]
  simp only [Option.map_eq_none_iff, List.find?_eq_none, Bool.and_eq_true, decide_eq_true_eq, not_and]
  exact forall₂_congr fun _ _ => ⟨fun h name key => h key name, fun h key name => h name key⟩

/-- A helper that goes into a table joins those that it shows. -/
theorem Lists.addNamed (lists : Lists table keyOf entries) (ordered : Table.Ordered precedes table)
    {call : Entry} (free : named? table (keyOf call) call.symbol.name = none) :
    Lists (addNamed precedes (keyOf call) call.symbol table) keyOf (entries ++ [call]) := by
  intro key name
  rw [named?_addNamed ordered, List.find?_append]
  by_cases here : keyOf call = key ∧ call.symbol.name = name
  · obtain ⟨rfl, rfl⟩ := here
    have absent := (lists _ _).symm.trans free
    rw [if_pos ⟨rfl, rfl⟩, Option.map_eq_none_iff.mp absent]
    simp
  · have other : (keyOf call = key && call.symbol.name = name) = false := by simpa using here
    rw [if_neg here, lists key name, List.find?_singleton, other]
    simp

/-- Where no two helpers have one key and one name, a table shows all that have them. -/
theorem Lists.toList_named? (lists : Lists table keyOf entries)
    (apart : entries.Pairwise fun e f => ¬ (e.symbol.name = f.symbol.name ∧ keyOf e = keyOf f))
    (key : κ) (name : Text) : (named? table key name).toList =
      (entries.filter fun e => keyOf e = key && e.symbol.name = name).map (·.symbol) := by
  have single : entries.Pairwise fun e f =>
      ¬ ((keyOf e = key && e.symbol.name = name) = true ∧
        (keyOf f = key && f.symbol.name = name) = true) := by
    apply apart.imp
    intro e f free
    simp only [Bool.and_eq_true, decide_eq_true_eq]
    rintro ⟨⟨rfl, rfl⟩, key, name⟩
    exact free ⟨name.symm, key.symm⟩
  rw [lists key name, ← toList_find? single]
  cases entries.find? _ <;> rfl

/-- What goes into a table adds one to the helpers in it. -/
theorem total_addNamed (ordered : Table.Ordered precedes table) {key : κ} {symbol : Symbol}
    (free : named? table key symbol.name = none) :
    (addNamed precedes key symbol table).total List.length = table.total List.length + 1 := by
  have counted := Table.total_alter ordered List.length key fun names =>
    (names.getD []).alter (fun _ _ => false) symbol.name fun _ => symbol
  have grown (names : Names) (new : names.find? symbol.name = none) :
      (names.alter (fun _ _ => false) symbol.name fun _ => symbol).length = names.length + 1 :=
    Table.length_alter (Table.ordered_unordered _) new
  unfold addNamed
  cases found : table.find? key with
  | none =>
    have one := grown [] rfl
    simp only [found, Option.elim_none, Option.getD_none, one, List.length_nil] at counted
    exact counted
  | some names =>
    have one := grown names (by simpa [named?, found] using free)
    simp only [found, Option.elim_some, Option.getD_some, one] at counted
    omega

end Table

/-! ## Both tables -/

/-- The helpers that an index holds, in the order they were entered. -/
structure Holds (index : Index) (entries : List Entry) : Prop where
  sorted : index.byDepth.Sorted
  byDepth : Lists index.byDepth (fun e => e.symbol.depth) entries
  byDirectory : Lists index.byDirectory (fun e => e.directory.components) entries
  size : index.size = entries.length
  apart : entries.Pairwise fun e f => ¬ e.Clashes f

theorem holds_empty : Holds .empty [] where
  sorted := .nil
  byDepth := lists_nil _
  byDirectory := lists_nil _
  size := rfl
  apart := .nil

section Views

variable {index next : Index} {entries : List Entry} {call : Entry} (holds : index.Holds entries)

include holds

theorem Holds.atDepth?_eq_none_iff {depth : Nat} {name : Text} : index.atDepth? depth name = none ↔
    ∀ e ∈ entries, e.symbol.name = name → e.symbol.depth ≠ depth :=
  holds.byDepth.named?_eq_none_iff

theorem Holds.inDirectory?_eq_none_iff {directory : Path} {name : Text} :
    index.inDirectory? directory name = none ↔
      ∀ e ∈ entries, e.symbol.name = name → e.directory.same directory = false := by
  simp only [Path.same, decide_eq_false_iff_not]
  exact holds.byDirectory.named?_eq_none_iff

/-- **A helper that clashes with none** is entered, and tells what it hides. -/
theorem Holds.attempt_of_free (free : ∀ e ∈ entries, ¬ e.Clashes call) :
    ∃ next, index.attempt call.directory call.symbol = (.ok (index.hides? call.symbol), next) ∧
      next.Holds (entries ++ [call]) := by
  have directory : index.inDirectory? call.directory call.symbol.name = none := by
    apply holds.inDirectory?_eq_none_iff.mpr
    intro e member name
    rw [Bool.eq_false_iff]
    intro same
    exact free e member ⟨name, .inl same⟩
  have depth : index.atDepth? call.symbol.depth call.symbol.name = none := by
    apply holds.atDepth?_eq_none_iff.mpr
    intro e member name depth
    exact free e member ⟨name, .inr depth⟩
  refine ⟨_, by rw [attempt, directory, depth], ?_⟩
  constructor
  · exact holds.sorted.alter
  · exact holds.byDepth.addNamed holds.sorted.ordered depth
  · exact holds.byDirectory.addNamed (Table.ordered_unordered _) directory
  · rw [List.length_append, List.length_singleton, ← holds.size]
    exact total_addNamed holds.sorted.ordered depth
  · refine List.pairwise_append.mpr ⟨holds.apart, List.pairwise_singleton _ _, ?_⟩
    intro e member f isNew
    obtain rfl := List.mem_singleton.mp isNew
    exact free e member

/-- **A helper that clashes** with an entry is refused, and neither table changes. -/
theorem Holds.attempt_of_clash {e : Entry} (member : e ∈ entries) (clash : e.Clashes call) :
    ∃ conflict, index.attempt call.directory call.symbol = (.error conflict, index) := by
  unfold attempt
  split
  · exact ⟨_, rfl⟩
  · rename_i freeDirectory
    split
    · exact ⟨_, rfl⟩
    · rename_i freeDepth
      obtain ⟨name, same | depth⟩ := clash
      · rw [holds.inDirectory?_eq_none_iff.mp freeDirectory e member name] at same
        cases same
      · exact absurd depth (holds.atDepth?_eq_none_iff.mp freeDepth e member name)

/-- **An attempt fails** exactly when the index has an entry of the same name in the same directory
or at the same depth. -/
theorem Holds.attempt_error_iff :
    (∃ conflict, (index.attempt call.directory call.symbol).1 = .error conflict) ↔
      ∃ e ∈ entries, e.Clashes call := by
  constructor
  · rintro ⟨conflict, failed⟩
    by_contra none
    have free : ∀ e ∈ entries, ¬ e.Clashes call := by
      intro e member clash
      exact none ⟨e, member, clash⟩
    obtain ⟨next, done, -⟩ := holds.attempt_of_free free
    rw [done] at failed
    cases failed
  · rintro ⟨e, member, clash⟩
    obtain ⟨conflict, failed⟩ := holds.attempt_of_clash member clash
    exact ⟨conflict, by rw [failed]⟩

theorem Holds.insert_of_free (free : ∀ e ∈ entries, ¬ e.Clashes call) :
    ∃ next, index.insert call.directory call.symbol = .ok (next, index.hides? call.symbol) ∧
      next.Holds (entries ++ [call]) := by
  obtain ⟨next, done, holdsNext⟩ := holds.attempt_of_free free
  exact ⟨next, by rw [insert, done], holdsNext⟩

theorem Holds.insert_of_clash {e : Entry} (member : e ∈ entries) (clash : e.Clashes call) :
    ∃ conflict, index.insert call.directory call.symbol = .error conflict := by
  obtain ⟨conflict, failed⟩ := holds.attempt_of_clash member clash
  exact ⟨conflict, by rw [insert, failed]⟩

/-- What an insertion that succeeds has done. -/
theorem Holds.insert_eq_ok (call : Entry) {hidden : Option Shadowing}
    (done : index.insert call.directory call.symbol = .ok (next, hidden)) :
    hidden = index.hides? call.symbol ∧ next.Holds (entries ++ [call]) := by
  have free : ∀ e ∈ entries, ¬ e.Clashes call := by
    intro e member clash
    obtain ⟨conflict, failed⟩ := holds.insert_of_clash member clash
    rw [failed] at done
    cases done
  obtain ⟨other, entered, holdsOther⟩ := holds.insert_of_free free
  obtain ⟨rfl, rfl⟩ := Prod.mk.inj (Except.ok.inj (entered.symm.trans done))
  exact ⟨rfl, holdsOther⟩

/-! ## Views of the index -/

theorem Holds.toList_atDepth? (depth : Nat) (name : Text) : (index.atDepth? depth name).toList =
    (entries.map (·.symbol)).filter fun s => s.depth = depth && s.name = name := by
  rw [List.filter_map]
  refine holds.byDepth.toList_named? (holds.apart.imp ?_) depth name
  rintro e f free ⟨name, depth⟩
  exact free ⟨name, .inr depth⟩

theorem Holds.toList_inDirectory? (directory : Path) (name : Text) :
    (index.inDirectory? directory name).toList =
      (entries.filter fun e => e.directory.same directory && e.symbol.name = name).map
        (·.symbol) := by
  refine holds.byDirectory.toList_named? (holds.apart.imp ?_) directory.components name
  rintro e f free ⟨name, components⟩
  exact free ⟨name, .inl (decide_eq_true components)⟩

theorem Holds.atDepth?_eq_some_iff {depth : Nat} {name : Text} {s : Symbol} :
    index.atDepth? depth name = some s ↔
      s ∈ entries.map (·.symbol) ∧ s.depth = depth ∧ s.name = name := by
  rw [← Option.mem_toList, holds.toList_atDepth?, List.mem_filter, Bool.and_eq_true,
    decide_eq_true_eq, decide_eq_true_eq]

/-- Each of the two views shows every helper of the index, and nothing else. -/
theorem Holds.exists_atDepth?_iff {s : Symbol} :
    (∃ depth name, index.atDepth? depth name = some s) ↔ s ∈ entries.map (·.symbol) := by
  simp [holds.atDepth?_eq_some_iff]

theorem Holds.exists_inDirectory?_iff {s : Symbol} :
    (∃ directory name, index.inDirectory? directory name = some s) ↔ s ∈ entries.map (·.symbol) := by
  simp only [← Option.mem_toList, holds.toList_inDirectory?, List.mem_map, List.mem_filter]
  constructor
  · rintro ⟨_, _, e, ⟨member, -⟩, same⟩
    exact ⟨e, member, same⟩
  · rintro ⟨e, member, rfl⟩
    exact ⟨e.directory, e.symbol.name, e, ⟨member, by simp [Path.same]⟩, rfl⟩

end Views

/-! ## Searches up the levels -/

section Search

variable {index : Index} {name : Text} {reach : Nat → Prop} [DecidablePred reach] {s : Symbol}

theorem atDepth?_of_mem (sorted : index.byDepth.Sorted) {level : Nat × Names}
    (member : level ∈ index.byDepth) : index.atDepth? level.1 name = level.2.find? name := by
  rw [atDepth?, named?, sorted.find? member, Option.bind_some]

theorem exists_level {depth : Nat} (found : index.atDepth? depth name = some s) :
    ∃ names, (depth, names) ∈ index.byDepth ∧ names.find? name = some s := by
  obtain ⟨names, level, found⟩ := Option.bind_eq_some_iff.mp found
  exact ⟨names, Table.mem_of_find? level, found⟩

theorem mem_levels {level : Nat × Names} :
    level ∈ (index.byDepth.filter fun level => reach level.1).reverse ↔
      level ∈ index.byDepth ∧ reach level.1 := by
  rw [List.mem_reverse, List.mem_filter, decide_eq_true_eq]

/-- A search up the levels finds the name at the deepest level in reach that has it. -/
theorem nearest?_eq_some_iff_atDepth? (sorted : index.byDepth.Sorted) :
    index.nearest? name reach = some s ↔ ∃ depth, reach depth ∧ index.atDepth? depth name = some s ∧
      ∀ deeper, reach deeper → depth < deeper → index.atDepth? deeper name = none := by
  have descending : (index.byDepth.filter fun level => reach level.1).reverse.Pairwise
      fun first second => second.1 < first.1 :=
    List.pairwise_reverse.mpr (List.Pairwise.filter _ sorted)
  constructor
  · intro found
    obtain ⟨front, level, back, cut, found, skipped⟩ := List.findSome?_eq_some_iff.mp found
    rw [cut] at descending
    have here : level ∈ index.byDepth ∧ reach level.1 := mem_levels.mp (by rw [cut]; simp)
    refine ⟨level.1, here.2, ?_, ?_⟩
    · rw [atDepth?_of_mem sorted here.1, found]
    · intro deeper inReach below
      by_contra present
      obtain ⟨t, present⟩ := Option.ne_none_iff_exists'.mp present
      obtain ⟨names, member, named⟩ := exists_level present
      have listed := mem_levels.mpr ⟨member, inReach⟩
      rw [cut, List.mem_append, List.mem_cons] at listed
      obtain before | same | after := listed
      · rw [skipped _ before] at named
        cases named
      · exact absurd below (by simp [← same])
      · have above := List.rel_of_pairwise_cons (List.pairwise_append.mp descending).2.1 after
        exact absurd below (Nat.lt_asymm above)
  · rintro ⟨depth, inReach, found, none⟩
    obtain ⟨names, member, named⟩ := exists_level found
    obtain ⟨front, back, cut⟩ := List.append_of_mem (mem_levels.mpr ⟨member, inReach⟩)
    refine List.findSome?_eq_some_iff.mpr ⟨front, _, back, cut, named, ?_⟩
    intro level before
    rw [cut] at descending
    have deeper := (List.pairwise_append.mp descending).2.2 level before _ List.mem_cons_self
    obtain ⟨inTable, inReach⟩ : level ∈ index.byDepth ∧ reach level.1 :=
      mem_levels.mp (by rw [cut]; exact List.mem_append_left _ before)
    rw [← atDepth?_of_mem sorted inTable]
    exact none level.1 inReach deeper

/-- A helper is the deepest of its name among those whose depth is in reach. -/
def Nearest (symbols : List Symbol) (name : Text) (reach : Nat → Prop) (s : Symbol) : Prop :=
  s ∈ symbols ∧ s.name = name ∧ reach s.depth ∧
    ∀ t ∈ symbols, t.name = name → reach t.depth → t.depth ≤ s.depth

variable {entries : List Entry} (holds : index.Holds entries)

include holds

/-- **What a search finds:** the deepest helper of the name in reach. -/
theorem Holds.nearest?_eq_some_iff :
    index.nearest? name reach = some s ↔ Nearest (entries.map (·.symbol)) name reach s := by
  rw [nearest?_eq_some_iff_atDepth? holds.sorted]
  constructor
  · rintro ⟨depth, inReach, found, none⟩
    obtain ⟨member, rfl, named⟩ := holds.atDepth?_eq_some_iff.mp found
    refine ⟨member, named, inReach, ?_⟩
    intro t inside tNamed tReach
    by_contra deeper
    have absent := none t.depth tReach (Nat.lt_of_not_le deeper)
    rw [holds.atDepth?_eq_some_iff.mpr ⟨inside, rfl, tNamed⟩] at absent
    cases absent
  · rintro ⟨member, named, inReach, greatest⟩
    refine ⟨s.depth, inReach, holds.atDepth?_eq_some_iff.mpr ⟨member, rfl, named⟩, ?_⟩
    intro deeper deeperReach below
    apply Option.eq_none_iff_forall_not_mem.mpr
    intro t found
    obtain ⟨inside, rfl, tNamed⟩ := holds.atDepth?_eq_some_iff.mp found
    exact absurd (greatest t inside tNamed deeperReach) (Nat.not_le_of_lt below)

theorem Holds.nearest?_eq_none_iff : index.nearest? name reach = none ↔
    ¬ ∃ s ∈ entries.map (·.symbol), s.name = name ∧ reach s.depth := by
  simp only [nearest?, List.findSome?_eq_none_iff, mem_levels]
  constructor
  · rintro absent ⟨s, member, named, inReach⟩
    obtain ⟨names, level, found⟩ :=
      exists_level (holds.atDepth?_eq_some_iff.mpr ⟨member, rfl, named⟩)
    rw [absent _ ⟨level, inReach⟩] at found
    cases found
  · rintro none level ⟨member, inReach⟩
    rw [← atDepth?_of_mem holds.sorted member]
    apply Option.eq_none_iff_forall_not_mem.mpr
    intro s found
    obtain ⟨inside, depth, named⟩ := holds.atDepth?_eq_some_iff.mp found
    exact none ⟨s, inside, named, depth ▸ inReach⟩

/-- **A look-up** finds the helper of the name that lies deepest among those the call can see. -/
theorem Holds.lookup?_eq_some_iff {depth : Nat} : index.lookup? name depth = some s ↔
    Nearest (entries.map (·.symbol)) name (· ≤ depth) s :=
  holds.nearest?_eq_some_iff

end Search

/-- Two indexes with the same helpers in reach answer searches alike. -/
theorem Holds.nearest?_congr {index index' : Index} {entries entries' : List Entry}
    (holds : index.Holds entries) (holds' : index'.Holds entries') {reach : Nat → Prop}
    [DecidablePred reach] {name : Text}
    (same : ∀ s : Symbol, s.name = name → reach s.depth →
      (s ∈ entries'.map (·.symbol) ↔ s ∈ entries.map (·.symbol))) :
    index'.nearest? name reach = index.nearest? name reach := by
  apply Option.ext
  intro s
  rw [holds.nearest?_eq_some_iff, holds'.nearest?_eq_some_iff]
  unfold Nearest
  grind

/-! ## Sequences of attempts -/

/-- The index after attempts in order. -/
def ofAttempts (calls : List Entry) : Index :=
  calls.foldl (fun index call => (index.attempt call.directory call.symbol).2) .empty

/-- The attempts that succeed, made in order from an index on. -/
def enteredFrom : Index → List Entry → List Entry
  | _, [] => []
  | index, call :: rest =>
    match index.attempt call.directory call.symbol with
    | (.ok _, next) => call :: enteredFrom next rest
    | (.error _, next) => enteredFrom next rest

/-- The attempts that succeed. -/
def entered (calls : List Entry) : List Entry := enteredFrom .empty calls

/-- The index grows by the attempts that succeed. -/
theorem Holds.foldl_attempt {index : Index} {entries : List Entry} (holds : index.Holds entries)
    (calls : List Entry) :
    (calls.foldl (fun index call => (index.attempt call.directory call.symbol).2) index).Holds
      (entries ++ enteredFrom index calls) := by
  induction calls generalizing index entries with
  | nil => simpa [enteredFrom] using holds
  | cons call rest ih =>
    rw [List.foldl_cons, enteredFrom]
    by_cases clash : ∃ e ∈ entries, e.Clashes call
    · obtain ⟨e, member, clash⟩ := clash
      obtain ⟨conflict, failed⟩ := holds.attempt_of_clash member clash
      rw [failed]
      exact ih holds
    · obtain ⟨next, done, holdsNext⟩ := holds.attempt_of_free fun e member h => clash ⟨e, member, h⟩
      rw [done]
      simpa using ih holdsNext

/-- **The index holds what was entered,** whatever was tried. -/
theorem holds_attempts (calls : List Entry) : (ofAttempts calls).Holds (entered calls) :=
  holds_empty.foldl_attempt calls

/-- Helpers that do not clash are all entered. -/
theorem Holds.enteredFrom_of_apart {index : Index} {entries calls : List Entry}
    (holds : index.Holds entries)
    (apart : (entries ++ calls).Pairwise fun e f => ¬ e.Clashes f) :
    enteredFrom index calls = calls := by
  induction calls generalizing index entries with
  | nil => rfl
  | cons call rest ih =>
    have free : ∀ e ∈ entries, ¬ e.Clashes call := by
      intro e member
      exact (List.pairwise_append.mp apart).2.2 e member call List.mem_cons_self
    obtain ⟨next, done, holdsNext⟩ := holds.attempt_of_free free
    rw [enteredFrom, done]
    exact congrArg _ (ih holdsNext (by simpa using apart))

/-- **All helpers are entered** exactly when no two of them clash. -/
theorem entered_eq_self_iff {calls : List Entry} :
    entered calls = calls ↔ calls.Pairwise fun e f => ¬ e.Clashes f := by
  constructor
  · intro all
    rw [← all]
    exact (holds_attempts calls).apart
  · exact fun apart => holds_empty.enteredFrom_of_apart apart

/-- Whether all helpers are entered does not depend on their order. -/
theorem entered_eq_self_of_perm {calls order : List Entry} (perm : order.Perm calls) :
    entered order = order ↔ entered calls = calls := by
  rw [entered_eq_self_iff, entered_eq_self_iff]
  exact perm.pairwise_iff fun apart clash => apart clash.symm

/-- **The index under insertions.** After any attempts, an insertion fails exactly when an earlier
one that succeeded has the same name in the same directory or at the same depth, and it then leaves
the index as it was. The view by depth shows the one helper of a depth and name that was entered, the
view by directory the one of a directory and name, the two show the same helpers, and the size is the
number of insertions that succeeded. Whether all of some helpers are entered does not depend on their
order, and if they are, neither does any look-up. -/
theorem attempts_consistent (calls : List Entry) :
    (∀ call : Entry, (∃ conflict,
        ((ofAttempts calls).attempt call.directory call.symbol).1 = .error conflict) ↔
      ∃ e ∈ entered calls, e.Clashes call) ∧
    (∀ (call : Entry) conflict,
      ((ofAttempts calls).attempt call.directory call.symbol).1 = .error conflict →
      ((ofAttempts calls).attempt call.directory call.symbol).2 = ofAttempts calls) ∧
    (∀ depth name, ((ofAttempts calls).atDepth? depth name).toList =
      ((entered calls).map (·.symbol)).filter fun s => s.depth = depth && s.name = name) ∧
    (∀ directory name, ((ofAttempts calls).inDirectory? directory name).toList =
      ((entered calls).filter fun e =>
        e.directory.same directory && e.symbol.name = name).map (·.symbol)) ∧
    (∀ s, (∃ directory name, (ofAttempts calls).inDirectory? directory name = some s) ↔
      ∃ depth name, (ofAttempts calls).atDepth? depth name = some s) ∧
    (ofAttempts calls).size = (entered calls).length ∧
    (∀ order, order.Perm calls →
      (entered order = order ↔ entered calls = calls) ∧
      (entered calls = calls → ∀ name depth,
        (ofAttempts order).lookup? name depth = (ofAttempts calls).lookup? name depth ∧
        (ofAttempts order).atDepth? depth name = (ofAttempts calls).atDepth? depth name)) := by
  have holds := holds_attempts calls
  refine ⟨?_, ?_, ?_, ?_, ?_, ?_, ?_⟩
  · intro call
    exact holds.attempt_error_iff
  · intro call conflict failed
    obtain ⟨e, member, clash⟩ := holds.attempt_error_iff.mp ⟨conflict, failed⟩
    obtain ⟨_, refused⟩ := holds.attempt_of_clash member clash
    rw [refused]
  · exact holds.toList_atDepth?
  · exact holds.toList_inDirectory?
  · intro s
    rw [holds.exists_inDirectory?_iff, holds.exists_atDepth?_iff]
  · exact holds.size
  · intro order perm
    refine ⟨entered_eq_self_of_perm perm, ?_⟩
    intro all name depth
    have allInOrder := (entered_eq_self_of_perm perm).mpr all
    have holdsInOrder := holds_attempts order
    rw [all] at holds
    rw [allInOrder] at holdsInOrder
    have symbols (s : Symbol) : s ∈ order.map (·.symbol) ↔ s ∈ calls.map (·.symbol) :=
      (perm.map _).mem_iff
    constructor
    · exact holds.nearest?_congr holdsInOrder fun s _ _ => symbols s
    · apply Option.ext
      intro s
      rw [holds.atDepth?_eq_some_iff, holdsInOrder.atDepth?_eq_some_iff, symbols]

end Prefill.Index
