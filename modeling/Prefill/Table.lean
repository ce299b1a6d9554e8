/-!
Tables: values by key. A key that is new to a table comes in before the first key that it precedes,
so a table whose keys have an order keeps them in it (`Sorted`), and one whose keys have none takes
them in as they come.
-/

namespace Prefill

abbrev Table (κ α : Type) := List (κ × α)

namespace Table

variable {κ α : Type} [DecidableEq κ]

/-- The value under a key. -/
def find? (table : Table κ α) (key : κ) : Option α :=
  (List.find? (fun entry => entry.1 = key) table).map (·.2)

/-- Changes the value under a key, or what there is in its place where there is none. -/
def alter (precedes : κ → κ → Bool) (key : κ) (change : Option α → α) : Table κ α → Table κ α
  | [] => [(key, change none)]
  | entry :: rest =>
    if entry.1 = key then (key, change (some entry.2)) :: rest
    else if precedes key entry.1 then (key, change none) :: entry :: rest
    else entry :: alter precedes key change rest

/-- What a table weighs where each value has a weight. -/
def total (weight : α → Nat) : Table κ α → Nat
  | [] => 0
  | entry :: rest => weight entry.2 + total weight rest

/-- A key that precedes another does not stand behind it. -/
def Ordered (precedes : κ → κ → Bool) (table : Table κ α) : Prop :=
  table.Pairwise fun first second => ∀ key, precedes key first.1 = true → key ≠ second.1

variable {precedes : κ → κ → Bool} {table : Table κ α} {key other : κ} {change : Option α → α}

theorem find?_cons (entry : κ × α) (rest : Table κ α) (key : κ) :
    find? (entry :: rest) key = if entry.1 = key then some entry.2 else rest.find? key := by
  unfold find?
  by_cases here : entry.1 = key
  · simp [here]
  · simp [here]

theorem find?_eq_none_iff : table.find? key = none ↔ ∀ entry ∈ table, entry.1 ≠ key := by
  simp [find?]

theorem mem_of_find? {value : α} (found : table.find? key = some value) : (key, value) ∈ table := by
  obtain ⟨entry, first, rfl⟩ := Option.map_eq_some_iff.mp found
  obtain rfl : entry.1 = key := by simpa using List.find?_some first
  exact List.mem_of_find?_eq_some first

/-- Where a new key comes in, the rest of the table does not have it. -/
theorem Ordered.find?_eq_none {entry : κ × α} {rest : Table κ α}
    (ordered : Ordered precedes (entry :: rest)) (different : entry.1 ≠ key)
    (before : precedes key entry.1 = true) : find? (entry :: rest) key = none := by
  apply find?_eq_none_iff.mpr
  intro later member
  obtain rfl | behind := List.mem_cons.mp member
  · exact different
  · exact (List.rel_of_pairwise_cons ordered behind key before).symm

/-- **A change** is seen under its own key and nowhere else. -/
theorem find?_alter (ordered : Ordered precedes table) :
    (table.alter precedes key change).find? other =
      if key = other then some (change (table.find? key)) else table.find? other := by
  induction table with
  | nil =>
    rw [alter, find?_cons]
    rfl
  | cons entry rest ih =>
    unfold alter
    split
    · rename_i here
      subst here
      simp only [find?_cons, if_true]
      split <;> rfl
    · rename_i different
      split
      · rename_i before
        rw [find?_cons, ordered.find?_eq_none different before]
      · rw [find?_cons, ih ordered.of_cons, find?_cons, find?_cons, if_neg different]
        by_cases same : key = other
        · simp [same ▸ different, same]
        · simp [same]

/-- A change puts the new value's weight in place of the old one's. -/
theorem total_alter (ordered : Ordered precedes table) (weight : α → Nat) (key : κ)
    (change : Option α → α) :
    (table.alter precedes key change).total weight + ((table.find? key).elim 0 weight) =
      table.total weight + weight (change (table.find? key)) := by
  induction table with
  | nil => simp [alter, total, find?]
  | cons entry rest ih =>
    unfold alter
    split
    · rename_i here
      simp only [total, find?_cons, here, if_true, Option.elim_some]
      omega
    · rename_i different
      split
      · rename_i before
        rw [ordered.find?_eq_none different before]
        simp only [total, Option.elim_none]
        omega
      · have later := ih ordered.of_cons
        simp only [total, find?_cons, different, if_false] at later ⊢
        omega

omit [DecidableEq κ] in
theorem total_one (table : Table κ α) : table.total (fun _ => 1) = table.length := by
  induction table with
  | nil => rfl
  | cons entry rest ih => rw [total, ih, List.length_cons, Nat.add_comm]

theorem length_alter (ordered : Ordered precedes table) (new : table.find? key = none) :
    (table.alter precedes key change).length = table.length + 1 := by
  have counted := total_alter ordered (fun _ => 1) key change
  rwa [total_one, total_one, new] at counted

/-! ## Keys without an order -/

omit [DecidableEq κ] in
theorem ordered_unordered (table : Table κ α) : Ordered (fun _ _ => false) table :=
  List.pairwise_iff_forall_sublist.mpr fun _ _ => nofun

/-! ## Numbers as keys -/

/-- The keys rise. -/
def Sorted (table : Table Nat α) : Prop := table.Pairwise fun first second => first.1 < second.1

theorem Sorted.ordered {table : Table Nat α} (sorted : table.Sorted) :
    Ordered (fun a b => a < b) table := by
  refine List.Pairwise.imp ?_ sorted
  intro first second rises key before
  have before : key < first.1 := of_decide_eq_true before
  omega

theorem mem_alter {precedes : κ → κ → Bool} {entry : κ × α}
    (member : entry ∈ table.alter precedes key change) : entry.1 = key ∨ entry ∈ table := by
  induction table with
  | nil => exact .inl (by rw [List.mem_singleton.mp member])
  | cons first rest ih =>
    unfold alter at member
    split at member
    · obtain rfl | later := List.mem_cons.mp member
      · exact .inl rfl
      · exact .inr (List.mem_cons_of_mem _ later)
    · split at member
      · obtain rfl | later := List.mem_cons.mp member
        · exact .inl rfl
        · exact .inr later
      · obtain rfl | later := List.mem_cons.mp member
        · exact .inr List.mem_cons_self
        · exact (ih later).imp_right (List.mem_cons_of_mem _)

theorem Sorted.alter {table : Table Nat α} {key : Nat} {change : Option α → α}
    (sorted : table.Sorted) : (table.alter (fun a b => a < b) key change).Sorted := by
  induction table with
  | nil => exact List.pairwise_singleton ..
  | cons entry rest ih =>
    obtain ⟨above, later⟩ := List.pairwise_cons.mp sorted
    unfold Table.alter
    split
    · rename_i here
      exact .cons (here ▸ above) later
    · rename_i different
      split
      · rename_i before
        refine .cons ?_ sorted
        intro next member
        have before : key < entry.1 := of_decide_eq_true before
        obtain rfl | member := List.mem_cons.mp member
        · exact before
        · exact Nat.lt_trans before (above next member)
      · rename_i behind
        refine .cons ?_ (ih later)
        intro next member
        obtain isKey | member := mem_alter member
        · have behind : ¬ key < entry.1 := by simpa using behind
          omega
        · exact above next member

/-- In a sorted table every entry is found under its key. -/
theorem Sorted.find? {table : Table Nat α} (sorted : table.Sorted) {entry : Nat × α}
    (member : entry ∈ table) : table.find? entry.1 = some entry.2 := by
  induction table with
  | nil => cases member
  | cons first rest ih =>
    obtain ⟨above, later⟩ := List.pairwise_cons.mp sorted
    rw [find?_cons]
    obtain rfl | member := List.mem_cons.mp member
    · rw [if_pos rfl]
    · rw [if_neg (Nat.ne_of_lt (above entry member)), ih later member]

end Table

end Prefill
