import Prefill.Proofs.Trees

/-!
Following links. A walk looks at some addresses of a tree and at nothing else (`Visits`), so it ends
alike in two trees in which the same stands at those addresses.

* `locateFrom_congr`: a walk in two trees;
* `isFileAt_congr`: whether a directory has a file of a name, perhaps at the end of links.
-/

namespace Prefill.Tree

open Text
open Prefill.Path (Component)

/-- The addresses that a walk looks at, those on the way of links included. -/
inductive Visits (top : Tree) : Address → List Component → Address → Prop
  | here {address : Address} {steps : List Component} : Visits top address steps address
  | root {address seen : Address} {rest : List Component} (h : Visits top [] rest seen) :
      Visits top address (.root :: rest) seen
  | current {address seen : Address} {rest : List Component} (h : Visits top address rest seen) :
      Visits top address (.current :: rest) seen
  | parent {address seen : Address} {rest : List Component}
      (h : Visits top address.dropLast rest seen) : Visits top address (.parent :: rest) seen
  | entry {address : Address} {name : Text} {rest : List Component} :
      Visits top address (.normal name :: rest) (address ++ [name])
  | link {address seen : Address} {name target : Text} {rest : List Component}
      (found : top.at? (address ++ [name]) = some (.link target))
      (h : Visits top address ((⟨target⟩ : Path).components ++ rest) seen) :
      Visits top address (.normal name :: rest) seen
  | down {address seen : Address} {name : Text} {rest : List Component} {entry : Tree}
      (found : top.at? (address ++ [name]) = some entry) (plain : ∀ target, entry ≠ .link target)
      (h : Visits top (address ++ [name]) rest seen) : Visits top address (.normal name :: rest) seen

theorem any_look (tree : Tree) (address : Address) :
    (tree.look address).any isDirectory = (tree.at? address).any isDirectory ∧
      (tree.look address).any isFile = (tree.at? address).any isFile := by
  rw [look]
  cases tree.at? address with
  | none => exact ⟨rfl, rfl⟩
  | some entry => cases entry <;> exact ⟨rfl, rfl⟩

section

variable {first second : Tree} {zone : Address → Prop}
  (same : ∀ address, zone address → first.look address = second.look address)

include same

/-- **One walk in two trees** that are the same where it looks, if links are followed alike. -/
theorem walkFrom_congr {follow follow' : Address → List Component → Except FileError Address}
    (alike : ∀ here steps, (∀ seen, Visits first here steps seen → zone seen) →
      follow here steps = follow' here steps)
    {here : Address} {steps : List Component}
    (visits : ∀ seen, Visits first here steps seen → zone seen) :
    walkFrom first follow here steps = walkFrom second follow' here steps := by
  induction steps generalizing here with
  | nil => rfl
  | cons step rest ih =>
    have directory : (first.at? here).any isDirectory = (second.at? here).any isDirectory := by
      rw [← (any_look first here).1, same here (visits here .here), (any_look second here).1]
    cases step with
    | root => exact ih fun seen h => visits seen (.root h)
    | current => exact ih fun seen h => visits seen (.current h)
    | parent =>
      rw [walkFrom, walkFrom, directory]
      split
      · exact ih fun seen h => visits seen (.parent h)
      · rfl
    | normal name =>
      rw [walkFrom, walkFrom, directory]
      split
      · rfl
      · have looks := same _ (visits (here ++ [name]) .entry)
        rw [look, look] at looks
        cases found : first.at? (here ++ [name]) with
        | none =>
          have gone : second.at? (here ++ [name]) = none := by simpa [found] using looks.symm
          rw [gone]
        | some entry =>
          rw [found] at looks
          obtain ⟨other, there, alikeEntries⟩ := Option.map_eq_some_iff.mp looks.symm
          cases entry with
          | link target =>
            obtain rfl : other = .link target := by cases other <;> simp_all [shallow]
            rw [there]
            exact alike here _ fun seen h => visits seen (.link found h)
          | file content =>
            obtain rfl : other = .file content := by cases other <;> simp_all [shallow]
            rw [there]
            exact ih fun seen h => visits seen (.down found (by simp) h)
          | directory entries =>
            obtain ⟨others, rfl⟩ : ∃ others, other = .directory others := by
              cases other <;> simp_all [shallow]
            rw [there]
            exact ih fun seen h => visits seen (.down found (by simp) h)

theorem locateFrom_congr {hops : Nat} {here : Address} {steps : List Component}
    (visits : ∀ seen, Visits first here steps seen → zone seen) :
    locateFrom first hops here steps = locateFrom second hops here steps := by
  induction hops generalizing here steps with
  | zero => exact walkFrom_congr same (fun _ _ _ => rfl) visits
  | succ hops ih => exact walkFrom_congr same (fun _ _ inner => ih inner) visits

end

/-- A walk ends where it has looked. -/
theorem visits_of_walkFrom {top : Tree}
    {follow : Address → List Component → Except FileError Address}
    (inner : ∀ here steps found, follow here steps = .ok found → Visits top here steps found)
    {here found : Address} {steps : List Component}
    (h : walkFrom top follow here steps = .ok found) : Visits top here steps found := by
  induction steps generalizing here with
  | nil =>
    obtain rfl : here = found := by simpa [walkFrom] using h
    exact .here
  | cons step rest ih =>
    cases step with
    | root => exact .root (ih h)
    | current => exact .current (ih h)
    | parent =>
      rw [walkFrom] at h
      split at h
      · exact .parent (ih h)
      · cases h
    | normal name =>
      rw [walkFrom] at h
      split at h
      · cases h
      · split at h
        · cases h
        · rename_i target there
          exact .link there (inner _ _ _ h)
        · rename_i entry plain there
          refine .down there ?_ (ih h)
          rintro target rfl
          exact plain target rfl

theorem visits_of_locateFrom {top : Tree} {hops : Nat} {here found : Address}
    {steps : List Component} (h : locateFrom top hops here steps = .ok found) :
    Visits top here steps found := by
  induction hops generalizing here steps found with
  | zero =>
    refine visits_of_walkFrom ?_ h
    intro here steps found located
    cases located
  | succ hops ih => exact visits_of_walkFrom (fun _ _ _ => ih) h

/-- Links in a zone lead nowhere else. -/
def Closed (top : Tree) (zone : Address → Prop) : Prop :=
  ∀ address target, zone address → top.at? address = some (.link target) →
    ∀ seen, Visits top address.dropLast (⟨target⟩ : Path).components seen → zone seen

/-- Names that lead down through directories: only the last can be a link. -/
theorem zone_of_visits {top : Tree} {zone : Address → Prop} (closed : Closed top zone)
    {directory : Address} {name : Text}
    (isDirectory : (top.at? directory).any isDirectory = true)
    (inside : ∀ front, front <+: directory ++ [name] → zone front) {front rest : Address}
    (whole : front ++ rest = directory ++ [name]) {seen : Address}
    (visits : Visits top front (rest.map .normal) seen) : zone seen := by
  induction rest generalizing front with
  | nil =>
    cases visits
    exact inside _ ⟨[], whole⟩
  | cons label rest ih =>
    have next : (front ++ [label]) ++ rest = directory ++ [name] := by simpa using whole
    cases visits with
    | here => exact inside _ ⟨_, whole⟩
    | entry => exact inside _ ⟨_, next⟩
    | down found plain below => exact ih next below
    | @link _ _ _ target _ found below =>
      have last : rest = [] := by
        obtain rfl | ⟨inner, final, rfl⟩ := List.eq_nil_or_concat' rest
        · rfl
        · -- The link would lie on the way to the directory.
          have way : front ++ [label] ++ inner = directory := by
            rw [← List.append_assoc] at next
            exact (List.append_inj' next rfl).1
          rw [← way, at?_append, found] at isDirectory
          cases inner with
          | nil => cases isDirectory
          | cons _ _ => cases isDirectory
      subst last
      rw [List.map_nil, List.append_nil] at below
      refine closed _ target (inside _ ⟨_, next⟩) found seen ?_
      simpa using below

/-- **A file of a directory in two trees.** -/
theorem isFileAt_congr {first second : Tree} {zone : Address → Prop}
    (same : ∀ address, zone address → first.look address = second.look address)
    (closed : Closed first zone) {directory : Address} {name : Text}
    (isDirectory : (first.at? directory).any isDirectory = true)
    (inside : ∀ front, front <+: directory ++ [name] → zone front) :
    first.isFileAt (directory ++ [name]) = second.isFileAt (directory ++ [name]) := by
  have visits (seen : Address)
      (h : Visits first [] ((directory ++ [name]).map .normal) seen) : zone seen :=
    zone_of_visits closed isDirectory inside (List.nil_append _) h
  unfold isFileAt
  rw [← locateFrom_congr same visits]
  split
  · rename_i found located
    have looks := same found (visits found (visits_of_locateFrom located))
    rw [← (any_look first found).2, looks, (any_look second found).2]
  · rfl

end Prefill.Tree
