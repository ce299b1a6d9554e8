import Prefill.Proofs.Lines
import Prefill.Proofs.Preamble
import Prefill.Proofs.Scanning

/-!
Where items stand. The items of a file take its lexemes from the front, one item after the other
(`items_cover`): an item starts where a lexeme starts and stops where one stops, and the next item
starts behind it. Lexemes start with a character that is not blank, so no item starts on a blank
line (`exists_line_of_start`).
-/

namespace Prefill.Go

open Text

/-! ### Lines of lexemes -/

namespace Lexeme

/-- A lexeme starts with a character that is not blank. -/
theorem exists_start {p : Position} {newline : Bool} {text : Text} {t : Lexeme}
    (member : t ∈ (readFrom p newline text).lexemes) (more : t.kind ≠ .finish) :
    ∃ before c after, text = before ++ c :: after ∧ isBlank c = false ∧
      t.span.start = p.past before := by
  have behind {p : Position} {first rest : Text} (h : ∃ before c after, rest = before ++ c :: after ∧
      isBlank c = false ∧ t.span.start = (p.past first).past before) :
      ∃ before c after, first ++ rest = before ++ c :: after ∧ isBlank c = false ∧
        t.span.start = p.past before := by
    obtain ⟨before, c, after, rfl, notBlank, start⟩ := h
    exact ⟨first ++ before, c, after, by simp, notBlank, by rw [start, Position.past_append]⟩
  induction p, newline, text using read_induction with
  | nil p newline =>
    obtain rfl := List.mem_singleton.mp member
    exact absurd rfl more
  | blank p newline c rest nature ih =>
    rw [readFrom_blank nature] at member
    rw [← firstPiece_append_afterPiece]
    exact behind (ih member)
  | comment p newline c rest nature ih =>
    rw [readFrom_comment nature] at member
    rw [← firstPiece_append_afterPiece]
    exact behind (ih member)
  | lexeme p newline c rest kind nature ih =>
    obtain ⟨u, -, -, uSpan, -, read⟩ := readFrom_lexeme nature p newline
    rw [read] at member
    obtain rfl | member := List.mem_cons.mp member
    · refine ⟨[], c, rest, rfl, ?_, by rw [uSpan]; rfl⟩
      by_contra isBlank
      rw [front_of_isBlank (by simpa using isBlank)] at nature
      cases nature
    · rw [← firstPiece_append_afterPiece]
      exact behind (ih member)

/-- A byte-order mark is passed over at the start of a file and nowhere else. -/
theorem scan_append {front : Text} (someFront : front ≠ []) :
    ∃ mark body, front = mark ++ body ∧ '\n' ∉ mark ∧
      ∀ after, scan (front ++ after) = readFrom (Position.origin.past mark) false (body ++ after) := by
  obtain ⟨c, rest, rfl⟩ := List.exists_cons_of_ne_nil someFront
  by_cases marked : c = '\uFEFF'
  · subst marked
    exact ⟨['\uFEFF'], rest, rfl, by simp, fun after => rfl⟩
  · refine ⟨[], c :: rest, rfl, by simp, fun after => ?_⟩
    rw [List.cons_append, scan]
    · rfl
    · rintro _ ⟨⟩
      exact marked rfl

/-- A file is read from its start, or from behind a byte-order mark. -/
theorem exists_scan (text : Text) :
    ∃ mark body, text = mark ++ body ∧ '\n' ∉ mark ∧
      scan text = readFrom (Position.origin.past mark) false body := by
  by_cases empty : text = []
  · subst empty
    exact ⟨[], [], rfl, by simp, rfl⟩
  · obtain ⟨mark, body, whole, noFeed, read⟩ := scan_append empty
    exact ⟨mark, body, whole, noFeed, by simpa using read []⟩

/-- **The line of a lexeme** is not blank. -/
theorem exists_line_of_mem {text : Text} {t : Lexeme} (member : t ∈ (scan text).lexemes)
    (more : t.kind ≠ .finish) :
    ∃ line, (rawLines text)[t.span.start.line - 1]? = some line ∧ blank line = false := by
  obtain ⟨mark, body, rfl, -, scanned⟩ := exists_scan text
  rw [scanned] at member
  obtain ⟨before, c, after, rfl, notBlank, start⟩ := exists_start member more
  obtain ⟨line, found, inside⟩ := exists_line_at (mark ++ before) c after
  have number : t.span.start.line - 1 = (mark ++ before).count '\n' := by
    rw [start, ← Position.past_append, Position.past_line]
    simp [Position.origin]
  refine ⟨line, by rwa [number, ← List.append_assoc], ?_⟩
  by_contra isBlank
  have all : ∀ c ∈ line, Text.isBlank c = true := by simpa [blank] using isBlank
  rw [all c inside] at notBlank
  cases notBlank

/-- Lexemes that stand one after the other. -/
structure InOrder (ts : List Lexeme) : Prop where
  within : ∀ t ∈ ts, t.span.start.line ≤ t.span.stop.line
  between : ts.Pairwise fun t u => t.span.stop.line ≤ u.span.start.line

theorem inOrder_readFrom (p : Position) (newline : Bool) (text : Text) :
    InOrder (readFrom p newline text).lexemes := by
  refine ⟨fun t member => ?_, lexemes_pairwise p newline text⟩
  obtain ⟨before, piece, after, -, span⟩ := standsIn_of_mem member
  rw [span, Position.past_append]
  exact Position.line_le_past _ _

theorem inOrder_scan (text : Text) : InOrder (scan text).lexemes := by
  obtain ⟨mark, body, -, -, scanned⟩ := exists_scan text
  rw [scanned]
  exact inOrder_readFrom ..

theorem InOrder.sublist {ts us : List Lexeme} (h : InOrder us) (part : ts.Sublist us) : InOrder ts :=
  ⟨fun t member => h.within t (part.subset member), h.between.sublist part⟩

theorem InOrder.inLine {ts : List Lexeme} (h : InOrder ts) : InOrder (ts.map Lexeme.inLine) := by
  constructor
  · intro t member
    obtain ⟨u, inside, rfl⟩ := List.mem_map.mp member
    exact h.within u inside
  · exact List.pairwise_map.mpr h.between

theorem InOrder.le_last {t : Lexeme} {ts : List Lexeme} (h : InOrder (t :: ts)) :
    t.span.start.line ≤ ((t :: ts).getLast (by simp)).span.stop.line := by
  have first := h.within t (List.mem_cons_self ..)
  cases ts with
  | nil => exact first
  | cons u ts =>
    have isLast : (u :: ts).getLast (by simp) ∈ u :: ts := List.getLast_mem _
    have later := (List.pairwise_cons.mp h.between).1 _ isLast
    have last := h.within _ (List.mem_cons_of_mem t isLast)
    rw [List.getLast_cons (by simp)]
    omega

end Lexeme

/-! ### Items on lexemes -/

/-- Items that take lexemes from the front, one after the other. Between items a lexeme may be left
out. -/
inductive Covers : List Lexeme → List Located → Prop where
  | nil (ts : List Lexeme) : Covers ts []
  | skip (t : Lexeme) {ts : List Lexeme} {items : List Located} (rest : Covers ts items) :
      Covers (t :: ts) items
  | cons {t : Lexeme} {front ts : List Lexeme} {located : Located} {items : List Located}
      (more : t.kind ≠ .finish)
      (span : located.span = ⟨t.span.start, ((t :: front).getLast (by simp)).span.stop⟩)
      (rest : Covers ts items) : Covers (t :: front ++ ts) (located :: items)

namespace Covers

variable {ts : List Lexeme} {items : List Located}

theorem behind (h : Covers ts items) (front : List Lexeme) : Covers (front ++ ts) items := by
  induction front with
  | nil => exact h
  | cons t front ih => exact .skip t ih

/-- An item starts and stops where lexemes do. -/
theorem exists_ends (h : Covers ts items) (ordered : Lexeme.InOrder ts) {located : Located}
    (member : located ∈ items) : ∃ t ∈ ts, ∃ u ∈ ts, t.kind ≠ .finish ∧
      located.span = ⟨t.span.start, u.span.stop⟩ ∧ t.span.start.line ≤ u.span.stop.line := by
  induction h with
  | nil ts => cases member
  | skip t rest ih =>
    obtain ⟨u, inRest, v, inRest', found⟩ := ih (ordered.sublist (List.sublist_cons_self ..)) member
    exact ⟨u, List.mem_cons_of_mem _ inRest, v, List.mem_cons_of_mem _ inRest', found⟩
  | @cons t front ts first items more span rest ih =>
    obtain rfl | member := List.mem_cons.mp member
    · have inOrder := ordered.sublist (List.sublist_append_left (t :: front) ts)
      have isLast : (t :: front).getLast (by simp) ∈ t :: front := List.getLast_mem _
      exact ⟨t, by simp, _, List.mem_append_left ts isLast, more, span, inOrder.le_last⟩
    · obtain ⟨u, inRest, v, inRest', found⟩ :=
        ih (ordered.sublist (List.sublist_append_right ..)) member
      exact ⟨u, List.mem_append_right _ inRest, v, List.mem_append_right _ inRest', found⟩

/-- The next item starts behind an item. -/
theorem pairwise (h : Covers ts items) (ordered : Lexeme.InOrder ts) :
    items.Pairwise fun a b => a.span.stop.line ≤ b.span.start.line := by
  induction h with
  | nil ts => exact .nil
  | skip t rest ih => exact ih (ordered.sublist (List.sublist_cons_self ..))
  | @cons t front ts first items more span rest ih =>
    have inOrder := ordered.sublist (List.sublist_append_right (t :: front) ts)
    refine List.pairwise_cons.mpr ⟨fun later member => ?_, ih inOrder⟩
    obtain ⟨u, inRest, v, -, -, place, -⟩ := rest.exists_ends inOrder member
    rw [span, place]
    exact (List.pairwise_append.mp ordered.between).2.2 _ (List.getLast_mem _) u inRest

end Covers

namespace Grammar

open Prefill.Go.Parser

theorem taken_inLine (ts rest : List Lexeme) :
    taken (ts.map Lexeme.inLine) (rest.map Lexeme.inLine) = taken ts rest := by
  simp only [taken, List.length_map, List.head?_map, List.getElem?_map]
  cases ts.head? with
  | none => rfl
  | some first => cases ts[ts.length - rest.length - 1]? <;> rfl

/-- **Items take lexemes** from the front, one item after the other. -/
theorem items_cover (depth fuel : Nat) (ts : List Lexeme) :
    Covers (ts.map Lexeme.inLine) (items (rules depth) fuel ts).1 := by
  induction fuel generalizing ts with
  | zero => cases ts <;> exact .nil _
  | succ fuel ih =>
    cases ts with
    | nil => exact .nil _
    | cons t ts =>
      by_cases finished : t.kind = .finish
      · rw [items, if_pos finished]
        exact .nil _
      · cases read : locatedItem (rules depth) (t :: ts) with
        | none =>
          rw [items_none read]
          exact .nil _
        | some found =>
          obtain ⟨located, rest⟩ := found
          have carries := (rules_self id depth 0).locatedItem
          obtain ⟨shorter, front, whole⟩ := carries.takes _ _ _ read
          have span := (of_locatedItem read).2
          rw [← taken_inLine, ← whole] at span
          cases front with
          | nil =>
            have size := congrArg List.length whole
            simp only [List.nil_append, List.length_map] at size
            omega
          | cons u front =>
            rw [taken_append] at span
            obtain rfl : u = t.inLine := (List.cons.inj whole).1
            rw [← whole]
            cases ends : terminator rest with
            | none =>
              rw [items_last finished read ends]
              exact .cons finished span (.nil _)
            | some found =>
              obtain ⟨_, left⟩ := found
              rw [items_cons finished read ends]
              have ended : Carries id 0 0 id terminator terminator := .terminator
              obtain ⟨-, skipped, eq⟩ := ended.takes _ _ _ ends
              rw [← eq]
              exact .cons finished span ((ih left).behind skipped)

end Grammar

/-! ### Items of a file -/

section

variable {text : Text}

theorem items_cover_scan (text : Text) :
    Covers ((Lexeme.scan text).lexemes.map Lexeme.inLine) (File.parse text).items :=
  Grammar.items_cover ..

/-- **An item** starts on a line that is not blank, and does not stop above it. -/
theorem exists_line_of_item {located : Located} (member : located ∈ (File.parse text).items) :
    ∃ line, (rawLines text)[located.span.start.line - 1]? = some line ∧ blank line = false ∧
      located.span.start.line ≤ located.span.stop.line := by
  obtain ⟨_, inLine, u, -, more, span, le⟩ :=
    (items_cover_scan text).exists_ends (Lexeme.inOrder_scan text).inLine member
  obtain ⟨t, inText, rfl⟩ := List.mem_map.mp inLine
  obtain ⟨line, found, notBlank⟩ := Lexeme.exists_line_of_mem inText more
  rw [span]
  exact ⟨line, found, notBlank, le⟩

/-- **Items** stand one after the other. -/
theorem items_pairwise (text : Text) :
    (File.parse text).items.Pairwise fun a b => a.span.stop.line ≤ b.span.start.line :=
  (items_cover_scan text).pairwise (Lexeme.inOrder_scan text).inLine

end

end Prefill.Go
