import Prefill.Go.Closure
import Mathlib.Logic.Function.Iterate
import Mathlib.Logic.Relation

/-!
What a declaration reaches. A declaration leads to those of the names it uses, and a type to its
methods (`LeadsTo`). The search for them keeps to one invariant (`Tracks`): what it has seen is
reached from the root, and whatever has left the queue has led on to nothing unseen.

* `Tracks.step`, `Tracks.finish`: a step keeps the invariant, so it holds when the queue is empty;
* `iterate_step`: the search takes one step for each place it comes to see;
* `closure_exact`: the closure is what the declaration reaches, in source order.
-/

namespace Prefill.Go

namespace Source

variable {s : Source}

/-- The declaration at one place leads to the one at another: by a name that the first uses and the
second declares at package scope, or as a type to one of its methods. -/
inductive LeadsTo (s : Source) (i j : Nat) : Prop where
  | name {d other : Declaration} {name : Text} (here : s.declarations[i]? = some d)
      (there : s.declarations[j]? = some other) (used : name ∈ d.references)
      (scope : other.kind ≠ .method) (declared : name ∈ other.names)
  | method {d other : Declaration} {name : Text} (here : s.declarations[i]? = some d)
      (there : s.declarations[j]? = some other) (type : d.kind = .type) (declared : name ∈ d.names)
      (method : other.kind = .method) (receiver : other.receiver = some name)

theorem mem_dependencies {i j : Nat} : j ∈ s.dependencies i ↔ s.LeadsTo i j := by
  constructor
  · intro needed
    unfold dependencies at needed
    split at needed
    · rename_i d here
      simp only [List.mem_append, List.mem_flatMap, List.mem_ite_nil_right, mem_places,
        Declaration.declares, Declaration.isMethodOf, Bool.and_eq_true, decide_eq_true_eq,
        List.contains_eq_mem] at needed
      obtain ⟨name, used, other, there, scope, declared⟩ |
        ⟨type, name, declared, other, there, method, receiver⟩ := needed
      · exact .name here there used scope declared
      · exact .method here there type declared method receiver
    · cases needed
  · rintro (⟨here, there, used, scope, declared⟩ | ⟨here, there, type, declared, method, receiver⟩)
    · simp only [dependencies, here, List.mem_append, List.mem_flatMap]
      exact .inl ⟨_, used, mem_places.mpr ⟨_, there, by simp [Declaration.declares, scope, declared]⟩⟩
    · simp only [dependencies, here, type, List.mem_append, List.mem_flatMap, if_true]
      exact .inr ⟨_, declared,
        mem_places.mpr ⟨_, there, by simp [Declaration.isMethodOf, method, receiver]⟩⟩

end Source

/-! ## Seeing places -/

namespace Search

theorem enter_pairwise {visited : List Nat} (j : Nat) (sorted : visited.Pairwise (· < ·)) :
    (enter j visited).Pairwise (· < ·) := by
  induction sorted with
  | nil => exact List.pairwise_singleton ..
  | @cons i rest above sorted ih =>
    unfold enter
    split
    · rename_i before
      refine .cons ?_ (.cons above sorted)
      intro k member
      obtain rfl | later := List.mem_cons.mp member
      · exact before
      · exact Nat.lt_trans before (above k later)
    · split
      · exact .cons above sorted
      · refine .cons ?_ ih
        intro k member
        obtain rfl | later := mem_enter.mp member
        · omega
        · exact above k later

theorem length_enter {j : Nat} {visited : List Nat} (unseen : j ∉ visited) :
    (enter j visited).length = visited.length + 1 := by
  induction visited with
  | nil => rfl
  | cons i rest ih =>
    have different := List.ne_of_not_mem_cons unseen
    have later := List.not_mem_of_not_mem_cons unseen
    unfold enter
    split
    · rfl
    · simp [ih later]

/-- What seeing some places does: they are seen, and the new ones among them stand in the queue after
those that were there. -/
structure Grows (places : List Nat) (before after : Search) : Prop where
  sorted : before.visited.Pairwise (· < ·) → after.visited.Pairwise (· < ·)
  seen : ∀ j, j ∈ after.visited ↔ j ∈ before.visited ∨ j ∈ places
  queued : ∀ j, j ∈ after.queue ↔ j ∈ before.queue ∨ j ∈ after.visited ∧ j ∉ before.visited
  balance : after.visited.length + before.queue.length =
    before.visited.length + after.queue.length

theorem grows_visit (search : Search) (j : Nat) : Grows [j] search (search.visit j) := by
  unfold visit
  split
  · rename_i seen
    constructor
    · exact id
    · grind
    · grind
    · rfl
  · rename_i unseen
    constructor
    · exact enter_pairwise j
    · grind [mem_enter]
    · grind [mem_enter]
    · grind [length_enter]

theorem Grows.trans {first second : List Nat} {before middle after : Search}
    (h : Grows first before middle) (h' : Grows second middle after) :
    Grows (first ++ second) before after := by
  constructor
  · exact h'.sorted ∘ h.sorted
  · intro j
    rw [h'.seen, h.seen, List.mem_append, or_assoc]
  · intro j
    have := h'.queued j
    have := h.queued j
    have := h'.seen j
    have := h.seen j
    grind
  · have := h.balance
    have := h'.balance
    omega

theorem grows_visits (places : List Nat) (search : Search) :
    Grows places search (places.foldl visit search) := by
  induction places generalizing search with
  | nil => exact ⟨id, by simp, by simp, rfl⟩
  | cons j rest ih => exact (grows_visit search j).trans (ih (search.visit j))

end Search

/-! ## The search -/

namespace Source

variable {s : Source} {root : Nat} {search : Search}

/-- The invariant of a search from a root. -/
structure Tracks (s : Source) (root : Nat) (search : Search) : Prop where
  sorted : search.visited.Pairwise (· < ·)
  has : root ∈ search.visited
  queued : ∀ i ∈ search.queue, i ∈ search.visited
  sound : ∀ i ∈ search.visited, Relation.ReflTransGen s.LeadsTo root i
  /-- What has left the queue has nothing left to see. -/
  expanded : ∀ i ∈ search.visited, i ∉ search.queue → ∀ j, s.LeadsTo i j → j ∈ search.visited

theorem tracks_start (s : Source) (root : Nat) : s.Tracks root (.start root) where
  sorted := List.pairwise_singleton ..
  has := List.mem_singleton_self root
  queued := fun _ member => member
  sound := by
    intro i member
    rw [List.mem_singleton.mp member]
  expanded := fun _ member left => absurd member left

/-- A step keeps the invariant: the place it takes off the queue is the one that it sees to. -/
theorem Tracks.step (tracks : s.Tracks root search) : s.Tracks root (s.step search) := by
  obtain ⟨visited, queue⟩ := search
  cases queue with
  | nil => exact tracks
  | cons current rest =>
    have grows := Search.grows_visits (s.dependencies current) ⟨visited, rest⟩
    have here : current ∈ visited := tracks.queued current (List.mem_cons_self ..)
    constructor
    · exact grows.sorted tracks.sorted
    · exact (grows.seen root).mpr (.inl tracks.has)
    · intro i member
      obtain waiting | ⟨seen, -⟩ := (grows.queued i).mp member
      · exact (grows.seen i).mpr (.inl (tracks.queued i (List.mem_cons_of_mem _ waiting)))
      · exact seen
    · intro i member
      obtain before | needed := (grows.seen i).mp member
      · exact tracks.sound i before
      · exact (tracks.sound current here).tail (mem_dependencies.mp needed)
    · intro i member left j leads
      apply (grows.seen j).mpr
      by_cases same : i = current
      · exact .inr (mem_dependencies.mpr (same ▸ leads))
      · -- A place outside the queue that is not the one taken off it had left it before.
        have unqueued := mt (grows.queued i).mpr left
        have before : i ∈ visited := by
          by_contra new
          exact unqueued (.inr ⟨member, new⟩)
        have waited : i ∉ current :: rest := by
          intro waiting
          obtain first | waiting := List.mem_cons.mp waiting
          · exact same first
          · exact unqueued (.inl waiting)
        exact .inl (tracks.expanded i before waited j leads)

/-- **The invariant at the end of a search.** -/
theorem Tracks.finish (tracks : s.Tracks root search) : s.Tracks root ⟨s.finish search, []⟩ := by
  induction search using Source.finish.induct s with
  | case1 search idle =>
    obtain ⟨visited, queue⟩ := search
    obtain rfl : queue = [] := idle
    rwa [Source.finish, if_pos rfl]
  | case2 search busy ih =>
    rw [Source.finish, if_neg busy]
    exact ih tracks.step

/-- A step takes one place off the queue and puts as many onto it as it comes to see. -/
theorem balance_step (busy : search.queue ≠ []) :
    (s.step search).visited.length + search.queue.length =
      search.visited.length + (s.step search).queue.length + 1 := by
  obtain ⟨visited, queue⟩ := search
  cases queue with
  | nil => exact absurd rfl busy
  | cons current rest =>
    have balance := (Search.grows_visits (s.dependencies current) ⟨visited, rest⟩).balance
    simp only [Source.step, List.length_cons] at balance ⊢
    omega

/-- **How long a search takes:** one step for every place that is queued or comes to be seen. -/
theorem iterate_step (s : Source) (search : Search) : ∃ steps,
    s.step^[steps] search = ⟨s.finish search, []⟩ ∧
      search.visited.length + steps = search.queue.length + (s.finish search).length := by
  induction search using Source.finish.induct s with
  | case1 search idle =>
    obtain ⟨visited, queue⟩ := search
    obtain rfl : queue = [] := idle
    refine ⟨0, ?_, ?_⟩ <;> simp [Source.finish]
  | case2 search busy ih =>
    obtain ⟨steps, ends, count⟩ := ih
    have balance := balance_step (s := s) busy
    rw [Source.finish, if_neg busy]
    refine ⟨steps + 1, ?_, ?_⟩
    · rw [Function.iterate_succ_apply, ends]
    · omega

/-- **The closure of a declaration** holds exactly what the declaration reaches, in source order and
each place once. The search for it ends with an empty queue after one step for each of them. -/
theorem closure_exact (s : Source) (root : Fin s.declarations.length) :
    (s.closure root).Pairwise (· < ·) ∧
    (∀ j, j ∈ s.closure root ↔ Relation.ReflTransGen s.LeadsTo root j) ∧
    s.step^[(s.closure root).length] (.start root) = ⟨s.closure root, []⟩ := by
  have tracks : s.Tracks root ⟨s.closure root, []⟩ := (tracks_start s root).finish
  refine ⟨tracks.sorted, ?_, ?_⟩
  · intro j
    constructor
    · exact tracks.sound j
    · intro reached
      induction reached with
      | refl => exact tracks.has
      | tail _ leads ih => exact tracks.expanded _ ih (List.not_mem_nil) _ leads
  · obtain ⟨steps, ends, count⟩ := iterate_step s (.start root)
    have same : steps = (s.closure root).length := Nat.add_left_cancel count
    rwa [same] at ends

/-- Functions that call each other, with a type on the way that brings its method along. -/
example :
    let lines := ["func A() \x7b B() \x7d", "type T int", "func C() \x7b A() \x7d",
      "func (t T) M() \x7b A() \x7d", "func B() \x7b var t T \x7d"]
    (ofText (lines.flatMap fun line => line.toList ++ ['\n'])).closure 0 = [0, 1, 3, 4] := by
  decide +kernel

end Source

end Prefill.Go
