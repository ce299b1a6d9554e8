import Prefill.Go.Source

/-!
The declarations that one declaration needs, directly or through others: those of the names it uses,
and with a type its methods. A search finds them. It keeps the places it has seen and a queue of
those whose dependencies it has still to look at, so a place that leads back to one seen before costs
nothing, and the search ends because there are only so many places to see.
-/

namespace Prefill.Go

namespace Source

/-- The places of the declarations that are as wanted, in source order. -/
def places (s : Source) (wanted : Declaration → Bool) : List Nat :=
  (s.declarations.zipIdx.filter fun entry => wanted entry.1).map (·.2)

/-- The places that the declaration at a place needs right away: those of the names it uses, then
the methods of a type. A place that is needed twice stands there twice. -/
def dependencies (s : Source) (i : Nat) : List Nat :=
  match s.declarations[i]? with
  | some d =>
    d.references.flatMap (fun name => s.places fun other => other.declares name) ++
      if d.kind = .type then d.names.flatMap fun name => s.places fun other => other.isMethodOf name
      else []
  | none => []

end Source

/-- A search under way. -/
structure Search where
  /-- The places seen so far, in order. -/
  visited : List Nat
  /-- The places seen whose dependencies have not been looked at, in the order they were seen. -/
  queue : List Nat
  deriving DecidableEq, Repr

namespace Search

/-- A search that has seen one place. -/
def start (root : Nat) : Search := ⟨[root], [root]⟩

/-- Enters a place into a list of places in order. -/
def enter (j : Nat) : List Nat → List Nat
  | [] => [j]
  | i :: rest => if j < i then j :: i :: rest else if j = i then i :: rest else i :: enter j rest

/-- Sees a place: a new one joins the end of the queue. -/
def visit (search : Search) (j : Nat) : Search :=
  if j ∈ search.visited then search else ⟨enter j search.visited, search.queue ++ [j]⟩

/-- How many steps a search can take at most: every place that is queued, and every one of so many
places that can still be. -/
def stepsLeft (count : Nat) (search : Search) : Nat :=
  ((List.range count).filter fun j => j ∉ search.visited).length + search.queue.length

theorem mem_enter {i j : Nat} {visited : List Nat} : i ∈ enter j visited ↔ i = j ∨ i ∈ visited := by
  induction visited with
  | nil => simp [enter]
  | cons first rest ih =>
    unfold enter
    split
    · simp
    · split
      · rename_i same
        simp [same]
      · simp only [List.mem_cons, ih]
        exact or_left_comm

theorem stepsLeft_visit_le {count j : Nat} (search : Search) (inside : j < count) :
    (search.visit j).stepsLeft count ≤ search.stepsLeft count := by
  unfold visit
  split
  · exact Nat.le_refl _
  · rename_i unseen
    have fewer : ((List.range count).filter fun i => i ∉ enter j search.visited).length <
        ((List.range count).filter fun i => i ∉ search.visited).length := by
      have apart : ((List.range count).filter fun i => i ∉ enter j search.visited) =
          ((List.range count).filter fun i => i ∉ search.visited).filter fun i => i ≠ j := by
        simp [List.filter_filter, mem_enter]
      rw [apart, List.length_filter_lt_length_iff_exists]
      exact ⟨j, by simp [inside, unseen], by simp⟩
    simp only [stepsLeft, List.length_append, List.length_singleton]
    omega

theorem stepsLeft_visits_le {count : Nat} {places : List Nat} (inside : ∀ j ∈ places, j < count)
    (search : Search) : (places.foldl visit search).stepsLeft count ≤ search.stepsLeft count := by
  induction places generalizing search with
  | nil => exact Nat.le_refl _
  | cons j rest ih =>
    obtain ⟨first, others⟩ := List.forall_mem_cons.mp inside
    exact Nat.le_trans (ih others (search.visit j)) (stepsLeft_visit_le search first)

end Search

namespace Source

theorem mem_places {s : Source} {wanted : Declaration → Bool} {j : Nat} :
    j ∈ s.places wanted ↔ ∃ d, s.declarations[j]? = some d ∧ wanted d = true := by
  simp [places, List.mem_zipIdx_iff_getElem?]

theorem lt_of_mem_dependencies {s : Source} {i j : Nat} (needed : j ∈ s.dependencies i) :
    j < s.declarations.length := by
  have inside : ∀ {wanted}, j ∈ s.places wanted → j < s.declarations.length := by
    intro wanted member
    obtain ⟨d, there, -⟩ := mem_places.mp member
    exact (List.getElem?_eq_some_iff.mp there).1
  unfold dependencies at needed
  split at needed
  · obtain named | method := List.mem_append.mp needed
    · obtain ⟨name, -, member⟩ := List.mem_flatMap.mp named
      exact inside member
    · split at method
      · obtain ⟨name, -, member⟩ := List.mem_flatMap.mp method
        exact inside member
      · cases method
  · cases needed

/-- Takes the first place off the queue and sees its dependencies. -/
def step (s : Source) (search : Search) : Search :=
  match search.queue with
  | [] => search
  | current :: rest => (s.dependencies current).foldl .visit ⟨search.visited, rest⟩

theorem stepsLeft_step_lt {s : Source} {search : Search} (busy : search.queue ≠ []) :
    (s.step search).stepsLeft s.declarations.length < search.stepsLeft s.declarations.length := by
  obtain ⟨visited, queue⟩ := search
  cases queue with
  | nil => exact absurd rfl busy
  | cons current rest =>
    apply Nat.lt_of_le_of_lt (Search.stepsLeft_visits_le (fun j => lt_of_mem_dependencies) _)
    simp [Search.stepsLeft]

/-- What a search has seen once its queue is empty. -/
def finish (s : Source) (search : Search) : List Nat :=
  if search.queue = [] then search.visited else s.finish (s.step search)
termination_by search.stepsLeft s.declarations.length
decreasing_by exact stepsLeft_step_lt (by assumption)

/-- A declaration and all that it needs, in source order. -/
def closure (s : Source) (root : Nat) : List Nat := s.finish (.start root)

end Source

end Prefill.Go
