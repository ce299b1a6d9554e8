import Prefill.Helper.File
import Prefill.Sorting

/-!
Orders. Texts, paths and helper files are sorted by Boolean comparisons. Each of them compares any
two elements and is transitive (`Sorts`), so sorting gives an ordered list; texts and the steps of
paths are also told apart by their order (`Separates`).
-/

namespace Prefill

variable {α β : Type}

/-- A comparison that sorting can use. -/
structure Sorts (le : α → α → Bool) : Prop where
  total : ∀ a b, (le a b || le b a) = true
  trans : ∀ a b c, le a b = true → le b c = true → le a c = true

/-- A comparison that sorting can use and under which no two elements are alike. -/
structure Separates (le : α → α → Bool) : Prop extends Sorts le where
  antisymm : ∀ a b, le a b = true → le b a = true → a = b

theorem insertInto_perm (le : α → α → Bool) (a : α) (list : List α) :
    (insertInto le a list).Perm (a :: list) := by
  induction list with
  | nil => exact .refl _
  | cons b rest ih =>
    unfold insertInto
    split
    · exact .refl _
    · exact (ih.cons b).trans (.swap a b rest)

theorem sortedBy_perm (le : α → α → Bool) (list : List α) : (sortedBy le list).Perm list := by
  induction list with
  | nil => exact .refl _
  | cons a rest ih => exact (insertInto_perm le a _).trans (ih.cons a)

theorem mem_sortedBy {le : α → α → Bool} {list : List α} {a : α} :
    a ∈ sortedBy le list ↔ a ∈ list :=
  (sortedBy_perm le list).mem_iff

theorem Sorts.insertInto_pairwise {le : α → α → Bool} (h : Sorts le) (a : α) {list : List α}
    (sorted : list.Pairwise fun a b => le a b = true) :
    (insertInto le a list).Pairwise fun a b => le a b = true := by
  induction sorted with
  | nil => exact List.pairwise_singleton _ _
  | @cons b rest before sorted ih =>
    unfold insertInto
    split
    · rename_i first
      refine .cons ?_ (.cons before sorted)
      intro c member
      obtain rfl | member := List.mem_cons.mp member
      · exact first
      · exact h.trans a b c first (before c member)
    · rename_i notFirst
      refine .cons ?_ ih
      intro c member
      obtain rfl | member := List.mem_cons.mp ((insertInto_perm le a rest).mem_iff.mp member)
      · simpa [notFirst] using h.total c b
      · exact before c member

/-- **Sorting** by a comparison that is total and transitive gives an ordered list. -/
theorem Sorts.sortedBy_pairwise {le : α → α → Bool} (h : Sorts le) (list : List α) :
    (sortedBy le list).Pairwise fun a b => le a b = true := by
  induction list with
  | nil => exact .nil
  | cons a rest ih => exact h.insertInto_pairwise a ih

/-- Comparing by a feature. -/
theorem Sorts.on {le : β → β → Bool} (h : Sorts le) (f : α → β) : Sorts fun a b => le (f a) (f b) :=
  ⟨fun _ _ => h.total _ _, fun _ _ _ => h.trans _ _ _⟩

/-- Comparing by a number first, and by another order where the numbers agree. -/
theorem Sorts.afterNumber {le : α → α → Bool} (h : Sorts le) (f : α → Int) :
    Sorts fun a b => if f a = f b then le a b else f a < f b := by
  refine ⟨?_, ?_⟩
  · intro a b
    by_cases same : f a = f b
    · simpa [same] using h.total a b
    · simp only [same, Ne.symm same, if_false, Bool.or_eq_true, decide_eq_true_eq]
      omega
  · intro a b c ab bc
    by_cases first : f a = f b <;> by_cases second : f b = f c
    · simp only [first, second, if_true] at ab bc ⊢
      exact h.trans a b c ab bc
    · simpa [first, second] using bc
    · simpa [first, ← second] using ab
    · simp only [first, second, if_false, decide_eq_true_eq] at ab bc
      have apart : f a ≠ f c := by omega
      simp only [apart, if_false, decide_eq_true_eq]
      omega

/-! ## Lists, compared element by element -/

/-- Lists by their first difference, a list before what it begins. -/
def lexNotAfter [DecidableEq α] (le : α → α → Bool) : List α → List α → Bool
  | [], _ => true
  | _ :: _, [] => false
  | a :: as, b :: bs => if a = b then lexNotAfter le as bs else le a b

section Lexicographic

variable [DecidableEq α] {le : α → α → Bool} (h : Separates le)

include h

theorem lexNotAfter_total (as bs : List α) :
    (lexNotAfter le as bs || lexNotAfter le bs as) = true := by
  induction as generalizing bs with
  | nil => simp [lexNotAfter]
  | cons a as ih =>
    cases bs with
    | nil => simp [lexNotAfter]
    | cons b bs =>
      by_cases same : a = b
      · simpa [lexNotAfter, same] using ih bs
      · simpa [lexNotAfter, same, Ne.symm same] using h.total a b

theorem lexNotAfter_trans (as bs cs : List α) (ab : lexNotAfter le as bs = true)
    (bc : lexNotAfter le bs cs = true) : lexNotAfter le as cs = true := by
  induction as generalizing bs cs with
  | nil => simp [lexNotAfter]
  | cons a as ih =>
    cases bs with
    | nil => simp [lexNotAfter] at ab
    | cons b bs =>
      cases cs with
      | nil => simp [lexNotAfter] at bc
      | cons c cs =>
        simp only [lexNotAfter] at ab bc ⊢
        by_cases first : a = b <;> by_cases second : b = c
        · simp only [first, second, if_true] at ab bc ⊢
          exact ih bs cs ab bc
        · simpa [first, second] using bc
        · simpa [first, ← second] using ab
        · simp only [first, second, if_false] at ab bc
          -- Back at the first element the comparison would go both ways.
          have apart : a ≠ c := by
            rintro rfl
            exact first (h.antisymm a b ab bc)
          simpa [apart] using h.trans a b c ab bc

theorem lexNotAfter_antisymm (as bs : List α) (there : lexNotAfter le as bs = true)
    (back : lexNotAfter le bs as = true) : as = bs := by
  induction as generalizing bs with
  | nil =>
    cases bs with
    | nil => rfl
    | cons b bs => simp [lexNotAfter] at back
  | cons a as ih =>
    cases bs with
    | nil => simp [lexNotAfter] at there
    | cons b bs =>
      by_cases same : a = b
      · subst same
        simp only [lexNotAfter, if_true] at there back
        rw [ih bs there back]
      · simp only [lexNotAfter, same, Ne.symm same, if_false] at there back
        exact absurd (h.antisymm a b there back) same

theorem separates_lexNotAfter : Separates (lexNotAfter le) :=
  ⟨⟨lexNotAfter_total h, lexNotAfter_trans h⟩, lexNotAfter_antisymm h⟩

end Lexicographic

/-! ## Texts and paths -/

theorem separates_code : Separates fun a b : Char => decide (a.toNat ≤ b.toNat) := by
  refine ⟨⟨?_, ?_⟩, ?_⟩
  · intro a b
    simpa using Nat.le_total a.toNat b.toNat
  · intro a b c ab bc
    simpa using Nat.le_trans (by simpa using ab) (by simpa using bc)
  · intro a b ab ba
    exact Char.toNat_inj.mp (Nat.le_antisymm (by simpa using ab) (by simpa using ba))

theorem notAfter_eq_lexNotAfter :
    Text.notAfter = lexNotAfter fun a b : Char => decide (a.toNat ≤ b.toNat) := by
  funext as bs
  fun_induction Text.notAfter as bs with
  | case1 => simp [lexNotAfter]
  | case2 => simp [lexNotAfter]
  | case3 as b bs ih => simpa [lexNotAfter] using ih
  | case4 a as b bs differ =>
    have apart : a.toNat ≠ b.toNat := fun same => differ (Char.toNat_inj.mp same)
    simp only [lexNotAfter, differ, if_false, decide_eq_decide]
    omega

theorem separates_notAfter : Separates Text.notAfter := by
  rw [notAfter_eq_lexNotAfter]
  exact separates_lexNotAfter separates_code

namespace Path

/-- The name of a component that has one. -/
def Component.label : Component → Text
  | .normal name => name
  | _ => []

theorem Component.notAfter_eq : Component.notAfter = fun a b : Component =>
    if (a.rank : Int) = b.rank then Text.notAfter a.label b.label else (a.rank : Int) < b.rank := by
  funext a b
  cases a <;> cases b <;> simp [notAfter, rank, label, Text.notAfter]

theorem separates_component : Separates Component.notAfter := by
  have sorts : Sorts Component.notAfter := by
    rw [Component.notAfter_eq]
    exact (separates_notAfter.toSorts.on Component.label).afterNumber fun a => (a.rank : Int)
  refine ⟨sorts, ?_⟩
  intro a b ab ba
  cases a <;> cases b
  case normal.normal a b => exact congrArg Component.normal (separates_notAfter.antisymm a b ab ba)
  all_goals simp_all [Component.notAfter, Component.rank]

theorem stepsNotAfter_eq_lexNotAfter : stepsNotAfter = lexNotAfter Component.notAfter := by
  funext as bs
  fun_induction stepsNotAfter as bs with
  | case1 => simp [lexNotAfter]
  | case2 => simp [lexNotAfter]
  | case3 as b bs ih => simpa [lexNotAfter] using ih
  | case4 a as b bs differ => simp [lexNotAfter, differ]

theorem sorts_notAfter : Sorts notAfter := by
  have steps : Sorts stepsNotAfter := by
    rw [stepsNotAfter_eq_lexNotAfter]
    exact (separates_lexNotAfter separates_component).toSorts
  exact steps.on components

end Path

namespace HelperFile

theorem sorts_notAfter : Sorts notAfter := by
  have shallowFirst : notAfter = fun a b : HelperFile =>
      if (a.depth : Int) = b.depth then a.path.notAfter b.path else (a.depth : Int) < b.depth := by
    funext a b
    simp only [notAfter, Int.ofNat_inj, Int.ofNat_lt]
  rw [shallowFirst]
  exact (Path.sorts_notAfter.on path).afterNumber fun a => (a.depth : Int)

theorem sorts_notBefore : Sorts notBefore := by
  have deepFirst : notBefore = fun a b : HelperFile =>
      if (-a.depth : Int) = -b.depth then a.path.notAfter b.path
      else (-a.depth : Int) < -b.depth := by
    funext a b
    simp only [notBefore, Int.neg_inj, Int.ofNat_inj, Int.neg_lt_neg_iff, Int.ofNat_lt]
  rw [deepFirst]
  exact (Path.sorts_notAfter.on path).afterNumber fun a => (-a.depth : Int)

theorem depth_le_of_notAfter {a b : HelperFile} (h : notAfter a b = true) : a.depth ≤ b.depth := by
  unfold notAfter at h
  split at h
  · omega
  · exact Nat.le_of_lt (by simpa using h)

theorem depth_le_of_notBefore {a b : HelperFile} (h : notBefore a b = true) :
    b.depth ≤ a.depth := by
  unfold notBefore at h
  split at h
  · omega
  · exact Nat.le_of_lt (by simpa using h)

end HelperFile

end Prefill
